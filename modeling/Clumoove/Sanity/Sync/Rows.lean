import Clumoove.Sanity.Sync.Outcome
import Clumoove.Spec.Sync.Assumptions

/-! The rows of files that a pass leaves, and the files they are about. -/

namespace Clumoove.Sync.Pass

open List Option

variable {job : Job} {sanitize : Sanitizer} {st : State} (x : Pass job sanitize st)
variable {s : Side} {p : Path} {t : TaskToCreate}

theorem entry_current (hscope : ∀ s p, job.Scope s p) (p : Path) :
    entry (listings job x.course st) st.rows p
      = ⟨(fileAt job st.trees .source p).map File.state, (fileAt job st.trees .target p).map File.state,
          (prevFiles st.rows.source).get p, (prevFiles st.rows.target).get p⟩ :=
  Entry.mk.injEq .. ▸
    ⟨x.listed_file_eq (hscope .source p), x.listed_file_eq (hscope .target p), rfl, rfl⟩

theorem tasksAt_twoWay (htwo : job.direction = .twoWay) (hscope : ∀ s p, job.Scope s p) :
    x.tasksAt p = twoWayTasks job p
      ⟨(fileAt job st.trees .source p).map File.state, (fileAt job st.trees .target p).map File.state,
        (prevFiles st.rows.source).get p, (prevFiles st.rows.target).get p⟩ := by
  rw [tasksAt, State.fileTasks, x.entry_current hscope, fileTasks, htwo]

theorem twoWay_cases (htwo : job.direction = .twoWay) (hscope : ∀ s p, job.Scope s p) :
    TwoWayTasks job p File.state (fileAt job st.trees · p) (fun s => (prevFiles (st.rows.on s)).get p)
      (x.tasksAt p) := by
  rw [x.tasksAt_twoWay htwo hscope]
  exact twoWayTasks_shape ..

theorem knowsDir_of_mkdir (ht : t ∈ x.pl.tasks) (ha : t.action = .mkdir) :
    ∃ s, st.KnowsDir job s t.filePath := by
  rw [x.eq_mkdirTask ht ha, mem_mkdir] at ht
  exact ⟨t.dest.other, .inl (x.listed_dir ht.2.1)⟩

theorem knowsDir_of_final_dir (h : p ∈ (x.final.scans.on s).dirs) : ∃ s', st.KnowsDir job s' p := by
  rcases x.of_final_dir h with h | h
  · exact ⟨s, .inl (x.listed_dir h)⟩
  · exact x.knowsDir_of_mkdir h rfl

section

variable (hnodir : ∀ s, ¬ st.KnowsDir job s p)
include hnodir

/-- The new row of a path that is no directory anywhere: protected paths keep theirs. -/
theorem row_after :
    ((newBaseline st.rows x.final).on s).get p =
      if p ∈ x.final.protectedPaths then (st.rows.on s).get p
      else ((x.final.scans.on s).files.get p).map (·.row s) := by
  have hdirs : p ∉ (x.final.scans.on s).dirs := by
    intro h
    obtain ⟨s', hs'⟩ := x.knowsDir_of_final_dir h
    exact hnodir s' hs'
  have hetag : (x.final.scans.on s).etags.get p = none :=
    eq_none_iff_forall_ne_some.2 fun e h =>
      hnodir s (.inl (x.listed_dir (x.listed_of_etag (x.of_final_etag h))))
  have hrow : ∀ r, (st.rows.on s).get p = some r → r.isDir = false := by
    intro r hr
    cases hd : r.isDir with
    | false => rfl
    | true => exact absurd (.inr ⟨r, hr, hd⟩) (hnodir s)
  have hold : p ∉ (prevDirs st.rows).on s := by
    intro h
    obtain ⟨r, hr, hd⟩ := mem_prevDirs_on.1 h
    rw [hrow r hr] at hd
    cases hd
  by_cases hdel : RowDeleted st.rows x.final s p
  · rw [newBaseline_deleted hdel]
    rcases hdel with ⟨-, hprot, hfile⟩ | ⟨h, -⟩
    · rw [if_neg hprot, hfile]
      rfl
    · exact absurd h hold
  · rw [newBaseline_get hdel, if_neg fun h => hdirs h.1, hetag]
    by_cases hprot : p ∈ x.final.protectedPaths
    · rw [if_neg fun h => h.2 hprot, if_pos hprot]
      rfl
    · rw [if_neg hprot]
      cases hf : (x.final.scans.on s).files.get p with
      | some fs =>
        rw [if_pos ⟨mem_allKeys.2 (.inl ⟨s, by simp [hf]⟩), hprot⟩]
        rfl
      | none =>
        -- without a row, since a file's would have been deleted
        rw [map_none, ite_self, none_or]
        refine eq_none_iff_forall_ne_some.2 fun r hr => hdel (.inl ⟨?_, hprot, hf⟩)
        exact mem_allKeys.2 (.inr ⟨s, r, hr, hrow r hr⟩)

theorem file_row_kept (hprot : p ∈ x.final.protectedPaths) :
    (prevFiles ((newBaseline st.rows x.final).on s)).get p = (prevFiles (st.rows.on s)).get p := by
  rw [prevFiles_get, x.row_after hnodir, if_pos hprot, prevFiles_get]

theorem file_row_new (hprot : p ∉ x.final.protectedPaths) :
    (prevFiles ((newBaseline st.rows x.final).on s)).get p
      = ((x.final.scans.on s).files.get p).map (·.row s) := by
  rw [prevFiles_get, x.row_after hnodir, if_neg hprot]
  cases hf : (x.final.scans.on s).files.get p with
  | none => rfl
  | some fs => simp [FileState.row_not_dir s (x.final_file_size hf)]

end

theorem no_file_row (hnofile : ∀ s, ¬ st.KnowsFile job s p) :
    (prevFiles ((newBaseline st.rows x.final).on s)).get p = none := by
  refine eq_none_iff_forall_ne_some.2 fun r hr => ?_
  obtain ⟨hr, hd⟩ := prevFiles_eq_some.1 hr
  rcases file_row_after hr hd with ⟨-, hr⟩ | ⟨hprot, fs, hfs, -⟩
  · exact absurd (.inr ⟨r, hr, hd⟩) (hnofile s)
  · obtain ⟨s', hs'⟩ := x.final_file_origin hprot (by rw [hfs]; rfl)
    exact absurd (.inl hs') (hnofile s')

end Clumoove.Sync.Pass

namespace Clumoove.Sync.SmoothPass

open List Option

variable {job : Job} {sanitize : Sanitizer} {st : State} (x : SmoothPass job sanitize st)
variable {s : Side} {p : Path} {t : TaskToCreate}

/-- The listing of a path that is not protected agrees with the provider when the tasks are done,
unless a conflict copy is moved there. -/
theorem final_file_eq (hscope : job.Scope s p) (hclear : Clear job x.course.runs s p)
    (hprot : p ∉ x.final.protectedPaths) :
    (x.final.scans.on s).files.get p = (x.after s p).map File.state := by
  by_cases hw : ∀ t ∈ x.tasksAt p, ¬ t.Writes s p
  · rw [x.final_file_kept hw, x.file_untouched hclear (not_touches_of_not_writes hw),
      x.listed_file_eq hscope]
  · push Not at hw
    obtain ⟨t, ht, hx | ha, rfl, -⟩ := hw
    · obtain ⟨f, hf, hfs⟩ := x.final_file_transfer hprot ht hx
      rw [hfs, hf]
      rfl
    · rw [x.final_file_delete hprot ht ha,
        x.file_deleted ht ha hclear (x.completed_of_free hprot ht)]
      rfl

theorem file_row_after_tasks (hnodir : ∀ s, ¬ st.KnowsDir job s p)
    (hprot : p ∉ x.final.protectedPaths) (hscope : job.Scope s p)
    (hclear : Clear job x.course.runs s p) :
    (prevFiles ((newBaseline st.rows x.final).on s)).get p = (x.after s p).map (·.state.row s) := by
  rw [x.file_row_new hnodir hprot, x.final_file_eq hscope hclear hprot, Option.map_map]
  rfl

section

variable (hscope : ∀ s p, job.Scope s p) (hclear : ∀ s, Clear job x.course.runs s p)
include hscope hclear

theorem gone_of_delete (ht : t ∈ x.tasksAt p) (ha : t.action = .delete)
    (hdone : (t, true) ∈ x.exec.done) (s : Side) : x.after s p = none := by
  rcases Side.eq_or_other t.dest s with rfl | rfl
  · exact x.file_deleted ht ha (hclear _) hdone
  · have hlacks := (of_mem_delete ht ha).1
    rw [x.entry_current hscope] at hlacks
    rw [x.file_untouched (hclear _) (x.not_touches_other ht)]
    cases hs : t.dest.other <;> rw [hs] at hlacks <;> exact map_eq_none_iff.1 hlacks

theorem completed_cases (hall : ∀ t ∈ x.tasksAt p, (t, true) ∈ x.exec.done) :
    (∃ c, ∀ s, (x.after s p).map File.content = some c) ∨ (∀ s, x.after s p = none) ∨
      x.tasksAt p = [] ∧ ∀ s, x.after s p = fileAt job st.trees s p := by
  have htransfer : ∀ t ∈ x.tasksAt p, t.isTransfer = true →
      ∃ c, ∀ s, (x.after s p).map File.content = some c := by
    intro t ht hx
    obtain ⟨f, -, hother, w, hw⟩ := x.file_transferred ht hx (hall t ht)
    refine ⟨f.content, fun s => ?_⟩
    rcases Side.eq_or_other t.dest s with rfl | rfl
    · rw [hw]
      rfl
    · rw [hother]
      rfl
  have hdelete := fun t ht ha => x.gone_of_delete hscope hclear (t := t) ht ha (hall t ht)
  have hnothing : x.tasksAt p = [] → ∀ s, x.after s p = fileAt job st.trees s p :=
    fun h s => x.file_untouched (hclear s) (by simp [h])
  have hshape := fileTasks_shape job p (entry (listings job x.course st) st.rows p)
  unfold Pass.tasksAt State.fileTasks at htransfer hdelete hnothing ⊢
  generalize fileTasks job p (entry (listings job x.course st) st.rows p) = l
    at htransfer hdelete hnothing hshape ⊢
  cases hshape with
  | nothing => exact .inr (.inr ⟨rfl, hnothing rfl⟩)
  | transfer => exact .inl (htransfer _ mem_cons_self transferTask_isTransfer)
  | delete => exact .inr (.inl (hdelete _ mem_cons_self rfl))
  | rename _ _ _ => exact .inl (htransfer _ (mem_cons_of_mem _ mem_cons_self) rfl)

end

abbrev seen {h : History} (x : SmoothPass job sanitize h.st) : History :=
  { h.observe job with st := x.result }

end Clumoove.Sync.SmoothPass
