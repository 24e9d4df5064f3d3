import Clumoove.Sanity.Sync.Cleanup
import Clumoove.Sanity.Sync.Tasks

/-! What a whole pass leaves behind: its tasks, the providers and the listings it makes its
baseline from. -/

namespace Clumoove.Sync

open PathTree List Option

variable {done : List (TaskToCreate × Bool)} {e : Entry}

/-! The tasks at one path. -/

section Tasks

variable {job : Job} {scans : Sided Scan} {rows : Baseline} {t t' : TaskToCreate} {s : Side} {p : Path}

theorem mem_fileTasks_of_touches (ht : t ∈ (delta job scans rows).tasks) (h : t.Touches s p) :
    t ∈ fileTasks job p (entry scans rows p) := by
  obtain ⟨ha, -, rfl⟩ := h
  refine (mem_delta_tasks.1 ht).resolve_right fun hmk => ?_
  obtain ⟨p, s, rfl, -⟩ := mem_mkdirTasks.1 hmk
  exact ha rfl

theorem mem_tasks_of_mem_fileTasks (h : t ∈ fileTasks job p (entry scans rows p)) :
    t ∈ (delta job scans rows).tasks := by
  refine mem_delta_tasks.2 (.inl ?_)
  rwa [(of_mem_fileTasks h).1]

theorem transferTask_isTransfer : (transferTask p f s).isTransfer = true := by
  cases s <;> rfl

theorem TaskToCreate.Writes.touches (h : t.Writes s p) : t.Touches s p := by
  obtain ⟨ha, hs, hp⟩ := h
  refine ⟨fun hmk => ?_, hs, hp⟩
  simp [TaskToCreate.isTransfer, hmk] at ha

/-- A task that writes the file at a path is the only one there, but for its conflict copy. -/
theorem fileTasks_companion (ht : t ∈ fileTasks job p e)
    (hw : t.isTransfer = true ∨ t.action = .delete) (ht' : t' ∈ fileTasks job p e) :
    t' = t ∨ (t' = conflictCopyTask p ∧ t.isTransfer = true ∧ t.prerequisite = true) := by
  cases fileTask_of_mem ht with
  | transfer _ _ hl | delete _ _ _ _ hl =>
    rw [hl] at ht'
    exact .inl (mem_singleton.1 ht')
  | copy => simp [TaskToCreate.isTransfer, conflictCopyTask] at hw
  | upload _ hl =>
    rw [hl] at ht'
    rcases mem_cons.1 ht' with h | h
    · exact .inr ⟨h, rfl, rfl⟩
    · exact .inl (mem_singleton.1 h)

/-- Only the strategy of renaming makes conflict copies, each with an upload. -/
theorem rename_of_copy (ht : t ∈ fileTasks job p e) (ha : t.action = .conflictCopy) :
    job.conflictStrategy = .rename ∧ t = conflictCopyTask p ∧
      ∃ a, uploadTask p a true ∈ fileTasks job p e := by
  cases fileTask_of_mem ht with
  | @transfer s => cases s <;> cases ha
  | delete | upload => cases ha
  | @copy a _ hs _ hl => exact ⟨hs, rfl, a, by rw [hl]; simp⟩

theorem writes_unique (ht : t ∈ fileTasks job p e) (ht' : t' ∈ fileTasks job p e)
    (hw : t.Writes s p) (hw' : t'.Writes s p) : t = t' := by
  rcases fileTasks_companion ht' hw'.1 ht with h | ⟨rfl, -⟩
  · exact h
  · have ha := hw.1
    simp [TaskToCreate.isTransfer, conflictCopyTask] at ha

/-- A path that no task writes has no task, since a conflict copy comes with an upload. -/
theorem not_touches_of_not_writes (hw : ∀ t ∈ fileTasks job p e, ¬ t.Writes s p) :
    ∀ t ∈ fileTasks job p e, ¬ t.Touches s p := by
  intro t ht htouch
  cases fileTask_of_mem ht with
  | transfer => exact hw _ ht ⟨.inl transferTask_isTransfer, htouch.2⟩
  | delete => exact hw _ ht ⟨.inr rfl, htouch.2⟩
  | @copy a _ _ _ hl => exact hw (uploadTask p a true) (by rw [hl]; simp) ⟨.inl rfl, htouch.2⟩
  | upload => exact hw _ ht ⟨.inl rfl, htouch.2⟩

theorem fileTasks_dest (ht : t ∈ fileTasks job p (entry scans rows p))
    (ht' : t' ∈ fileTasks job p (entry scans rows p)) : t'.dest = t.dest := by
  cases fileTask_of_mem ht with
  | transfer _ _ hl | delete _ _ _ _ hl =>
    rw [hl] at ht'
    rw [mem_singleton.1 ht']
  | copy _ _ _ hl | upload _ hl =>
    rw [hl] at ht'
    simp only [mem_cons, not_mem_nil, or_false] at ht'
    rcases ht' with rfl | rfl <;> rfl

end Tasks

/-! A run of the tasks of a delta. -/

section Lost

variable {job : Job} {sanitize : Sanitizer} {trees : Sided Tree}
variable {runs : List (TaskToCreate × Outcome)} {s : Side} {p : Path} {f : File}

theorem runTasks_lost (hu : Undisturbed job sanitize { trees := trees } runs) (hf : fileAt job trees s p = some f)
    (hgone : fileAt job (runTasks job sanitize trees runs).trees s p = none) :
    ∃ t, (t, true) ∈ (runTasks job sanitize trees runs).done ∧
      (t.action = .delete ∨ t.action = .conflictCopy) ∧ t.dest = s ∧ t.filePath = p := by
  refine runTasks_induction hu (P := fun x => fileAt job x.trees s p = none →
    ∃ t, (t, true) ∈ x.done ∧ (t.action = .delete ∨ t.action = .conflictCopy) ∧ t.dest = s ∧
      t.filePath = p) (fun h => ?_) (fun x run _ ih h => ?_)
    (fun x run w clock trees' hrun ih _ hperf h => ?_) hgone
  · rw [hf] at h
    cases h
  · obtain ⟨t, ht, h⟩ := ih h
    exact ⟨t, mem_append_left _ ht, h⟩
  · cases hx : fileAt job x.trees s p with
    | none =>
      obtain ⟨t, ht, h⟩ := ih hx
      exact ⟨t, mem_append_left _ ht, h⟩
    | some g =>
      -- this task took it away, so it is one for this path
      have htouch : run.1.Touches s p := by
        by_contra hnot
        rw [perform_file hperf hnot fun _ => .inl (by simp [hx]), hx] at h
        cases h
      refine ⟨run.1, mem_append_right _ mem_cons_self, ?_, htouch.2⟩
      obtain ⟨hmk, rfl, rfl⟩ := htouch
      cases ha : run.1.action with
      | upload | download =>
        obtain ⟨g, -, hg⟩ := (perform_transfer (by simp [ha]) hperf).copies
        rw [hg] at h
        cases h
      | delete => exact .inl rfl
      | mkdir => exact absurd ha hmk
      | conflictCopy => exact .inr rfl

end Lost

structure Pass (job : Job) (sanitize : Sanitizer) (st : State) where
  course : Course
  pl : Plan
  planned : plan job course st = some pl
  fits : course.Fits pl
  current : Current job course st

/-- A pass whose tasks nothing disturbs. -/
structure SmoothPass (job : Job) (sanitize : Sanitizer) (st : State) extends Pass job sanitize st where
  undisturbed : Undisturbed job sanitize { trees := st.trees } course.runs

theorem plan_eq
    (hpl : plan job course st = some pl) : pl = delta job (listings job course st) st.rows := by
  unfold plan at hpl
  split_ifs at hpl
  exact (Option.some.inj hpl).symm

def State.fileTasks (job : Job) (course : Course) (st : State) (p : Path) : List TaskToCreate :=
  Sync.fileTasks job p (entry (listings job course st) st.rows p)

theorem mem_completedOperations : t ∈ completedOperations done ↔ (t, true) ∈ done := by
  simp [completedOperations]

theorem mem_finalProtectedPaths :
    p ∈ finalProtectedPaths done ↔ ∃ t, (t, false) ∈ done ∧ t.filePath = p := by
  simp [finalProtectedPaths]

theorem Side.other_ne (s : Side) : s.other ≠ s := by cases s <;> simp [Side.other]

@[simp] theorem Side.other_other (s : Side) : s.other.other = s := by cases s <;> rfl

theorem Side.eq_or_other (s s' : Side) : s' = s ∨ s' = s.other := by
  cases s <;> cases s' <;> simp [Side.other]

theorem transfer_origin (ht : t ∈ fileTasks job p e)
    (hx : t.isTransfer = true) : ∃ fs, e.file t.dest.other = some fs := by
  cases fileTask_of_mem ht with
  | transfer hf => exact ⟨_, by rwa [transferTask_dest, Side.other_other]⟩
  | delete | copy => cases hx
  | upload ha => exact ⟨_, ha⟩

theorem exists_pass (hpl : plan job course st = some pl) (hcur : Current job course st) :
    ∃ x : Pass job sanitize st, x.pl = pl := by
  refine ⟨⟨{ course with runs := pl.tasks.map (·, .fails none) }, pl, hpl, ?_, hcur⟩, rfl⟩
  simp [Course.Fits, Function.comp_def]

namespace Pass

variable {job : Job} {sanitize : Sanitizer} {st : State} (x : Pass job sanitize st)
variable {t : TaskToCreate} {b : Bool} {s : Side} {p : Path} {f : File}

abbrev listed (s : Side) : Scan := (listings job x.course st).on s

abbrev tasksAt (p : Path) : List TaskToCreate := st.fileTasks job x.course p

abbrev exec : Execution := afterTasks job sanitize x.course st

abbrev cleaned : Cleanup := afterCleanup job sanitize x.course st x.pl

abbrev final : Snapshot := finalSnapshot job sanitize x.course st x.pl

abbrev result : State := finishPass job sanitize x.course st x.pl

abbrev after (s : Side) (p : Path) : Option File := fileAt job x.exec.trees s p

theorem tasks_eq : x.pl.tasks = (delta job (listings job x.course st) st.rows).tasks := by
  rw [plan_eq x.planned]

theorem scans_on : x.pl.scans.on s = x.listed s := by
  rw [plan_eq x.planned]
  rfl

/-! What is listed. -/

theorem listed_file (h : (x.listed s).files.get p = some fs) :
    ∃ f, fileAt job st.trees s p = some f ∧ f.state = fs :=
  map_eq_some_iff.1 (((x.current s).file p fs).1 h).2

theorem listed_file_eq (hscope : job.Scope s p) :
    (x.listed s).files.get p = (fileAt job st.trees s p).map File.state := by
  refine Option.ext fun fs => ?_
  rw [(x.current s).file]
  exact and_iff_right hscope

theorem listed_dir (h : p ∈ (x.listed s).dirs) : dirAt job st.trees s p = true :=
  (((x.current s).dir p).1 h).2

theorem listed_of_etag {e : String} (h : (x.listed s).etags.get p = some e) :
    p ∈ (x.listed s).dirs := by
  obtain ⟨hscope, hd, -⟩ := ((x.current s).etag p e).1 h
  exact ((x.current s).dir p).2 ⟨hscope, by rw [dirAt, Tree.isDir, hd]; rfl⟩

/-! The tasks of the pass. -/

theorem task_of_done (h : (t, b) ∈ x.exec.done) : t ∈ x.pl.tasks := by
  obtain ⟨o, ho⟩ := mem_runs_of_mem_done h
  exact x.fits.mem_iff.1 (List.mem_map_of_mem ho)

theorem done_of_task (h : t ∈ x.pl.tasks) : ∃ b, (t, b) ∈ x.exec.done := by
  obtain ⟨run, hrun, rfl⟩ := List.mem_map.1 (x.fits.mem_iff.2 h)
  exact mem_done_of_mem hrun

theorem task_of_run (h : run ∈ x.course.runs) : run.1 ∈ x.pl.tasks :=
  x.fits.mem_iff.1 (List.mem_map_of_mem h)

theorem runs_nodup : (x.course.runs.map Prod.fst).Nodup := by
  rw [x.fits.nodup_iff, tasks_eq]
  exact delta_tasks_nodup _ _ _

theorem not_failed_of_done (hdone : (t, true) ∈ x.exec.done) : (t, false) ∉ x.exec.done := by
  have hnodup : (x.exec.done.map Prod.fst).Nodup := by
    rw [exec, afterTasks, runTasks_done]
    exact x.runs_nodup
  intro hfail
  have := inj_on_of_nodup_map hnodup hfail hdone rfl
  simp at this

theorem mem_tasks_iff (ha : t.Touches s p) : t ∈ x.pl.tasks ↔ t ∈ x.tasksAt p := by
  rw [tasks_eq]
  exact ⟨fun h => mem_fileTasks_of_touches h ha, mem_tasks_of_mem_fileTasks⟩

theorem mem_tasks (h : t ∈ x.tasksAt p) : t ∈ x.pl.tasks := by
  rw [tasks_eq]
  exact mem_tasks_of_mem_fileTasks h

theorem mem_of_run (h : run ∈ x.course.runs) (ht : run.1.Touches s p) : run.1 ∈ x.tasksAt p :=
  (x.mem_tasks_iff ht).1 (x.task_of_run h)

theorem mem_of_done (h : (t, b) ∈ x.exec.done) (ht : t.Touches s p) : t ∈ x.tasksAt p :=
  (x.mem_tasks_iff ht).1 (x.task_of_done h)

theorem eq_mkdirTask (ht : t ∈ x.pl.tasks) (ha : t.action = .mkdir) :
    t = mkdirTask t.filePath t.dest := by
  rw [tasks_eq] at ht
  rcases mem_delta_tasks.1 ht with h | h
  · exact absurd ha (of_mem_fileTasks h).2
  · obtain ⟨p, s, rfl, -⟩ := mem_mkdirTasks.1 h
    rfl

theorem mem_mkdir : mkdirTask p s ∈ x.pl.tasks ↔ p ≠ [] ∧ p ∈ (x.listed s.other).dirs ∧
    p ∉ (x.listed s).dirs ∧ (p ∉ (prevDirs st.rows).on s ∧ job.direction = .twoWay ∨
      s = .target ∧ job.direction = .oneWay) := by
  have hdirs : ∀ s, p ∈ Sided.on ⟨(listings job x.course st).source.dirs.dedup,
      (listings job x.course st).target.dirs.dedup⟩ s ↔ p ∈ (x.listed s).dirs := by
    intro s
    cases s <;> exact mem_dedup
  rw [tasks_eq, mem_delta_tasks, or_iff_right fun h => (of_mem_fileTasks h).2 rfl, mem_mkdirTasks]
  constructor
  · rintro ⟨q, s', heq, h⟩
    cases heq
    rwa [hdirs, hdirs] at h
  · intro h
    rw [← hdirs, ← hdirs] at h
    exact ⟨p, s, rfl, h⟩

theorem mem_cleanup : (⟨p, s⟩ : CleanupCandidate) ∈ x.pl.cleanup ↔
    job.deletePropagation = true ∧ p ≠ [] ∧ p ∈ (x.listed s).dirs ∧ p ∉ (x.listed s.other).dirs ∧
      p ∈ (prevDirs st.rows).on s.other ∧ (job.direction = .oneWay → s = .target) := by
  rw [plan_eq x.planned, mem_delta_cleanup]

theorem no_copies (h : job.conflictStrategy ≠ .rename) :
    ∀ t ∈ x.pl.tasks, t.action ≠ .conflictCopy := by
  intro t ht ha
  refine h (rename_of_copy ((x.mem_tasks_iff ⟨?_, rfl, rfl⟩).1 ht) ha).1
  simp [ha]

theorem clear_of_no_copies (h : ∀ t ∈ x.pl.tasks, t.action ≠ .conflictCopy) :
    Clear job x.course.runs s p :=
  .inr fun run hrun hlands => h run.1 (x.task_of_run hrun) hlands.1

theorem transfer_listed (ht : t ∈ x.tasksAt p) (hx : t.isTransfer = true) :
    ∃ f, fileAt job st.trees t.dest.other p = some f := by
  obtain ⟨fs, h⟩ := transfer_origin ht hx
  have hfs : (x.listed t.dest.other).files.get p = some fs := by
    cases hs : t.dest.other <;> rw [hs] at h <;> exact h
  obtain ⟨f, hf, -⟩ := x.listed_file hfs
  exact ⟨f, hf⟩

/-! The listings at the end. -/

theorem final_files : (x.final.scans.on s).files
    = ((reconciled job sanitize x.course st x.pl).scans.on s).files := by
  unfold final finalSnapshot
  rw [applyCleanup_files, invalidateProtected_files]

theorem mem_final_dirs : p ∈ (x.final.scans.on s).dirs ↔
    p ∈ ((reconciled job sanitize x.course st x.pl).scans.on s).dirs ∧ ⟨p, s⟩ ∉ x.cleaned.removed := by
  unfold final finalSnapshot
  rw [mem_applyCleanup_dirs, invalidateProtected_dirs]

theorem final_etags {e : String} : (x.final.scans.on s).etags.get p = some e ↔
    ((reconciled job sanitize x.course st x.pl).scans.on s).etags.get p = some e ∧
      (∀ q ∈ x.final.protectedPaths, ¬ p <+: q.dropLast) ∧
      ∀ c ∈ x.cleaned.removed, ¬ c.Stales s p := by
  unfold final finalSnapshot
  rw [applyCleanup_etags, invalidateProtected_etags, and_assoc]
  rfl

theorem of_final_etag {e : String} (h : (x.final.scans.on s).etags.get p = some e) :
    (x.listed s).etags.get p = some e := by
  rw [← x.scans_on]
  exact reconcile_etag_some (x.final_etags.1 h).1

theorem of_final_dir (h : p ∈ (x.final.scans.on s).dirs) :
    p ∈ (x.listed s).dirs ∨ mkdirTask p s ∈ x.pl.tasks := by
  rcases reconcile_mem_dirs (x.mem_final_dirs.1 h).1 with h | ⟨op, hop, ha, rfl, rfl⟩
  · rw [x.scans_on] at h
    exact .inl h
  · have htask := x.task_of_done (mem_completedOperations.1 hop)
    rw [x.eq_mkdirTask htask ha] at htask
    exact .inr htask

theorem final_etag_ne_empty : (x.final.scans.on s).etags.get p ≠ some "" := by
  intro h
  exact (((x.current s).etag p "").1 (x.of_final_etag h)).2.2 rfl

theorem final_file_size (h : (x.final.scans.on s).files.get p = some fs) : 0 ≤ fs.size := by
  have hstate : ∀ f : File, 0 ≤ f.state.size := fun f => by simp [File.state]
  rw [final_files] at h
  rcases reconcile_file_cases h with h | ⟨f, -, rfl⟩
  · rw [x.scans_on] at h
    obtain ⟨f, -, rfl⟩ := x.listed_file h
    exact hstate f
  · exact hstate f

theorem of_dir_row {r : Row} (h : ((newBaseline st.rows x.final).on s).get p = some r)
    (hd : r.isDir = true) : (p ∈ (x.listed s).dirs ∨ mkdirTask p s ∈ x.pl.tasks) ∧
      ⟨p, s⟩ ∉ x.cleaned.removed := by
  rcases dir_row_after h hd (fun _ => x.final_file_size) x.final_etag_ne_empty with
    ⟨hmem, -⟩ | ⟨e, he, -⟩
  · exact ⟨x.of_final_dir hmem, (x.mem_final_dirs.1 hmem).2⟩
  · refine ⟨.inl (x.listed_of_etag (x.of_final_etag he)), fun hmem => ?_⟩
    exact (x.final_etags.1 he).2.2 _ hmem ⟨rfl, .inr rfl⟩

/-! The paths whose rows stay as they are. -/

theorem protected_of_failed (h : (t, false) ∈ x.exec.done) : t.filePath ∈ x.final.protectedPaths :=
  reconcile_protected (mem_finalProtectedPaths.2 ⟨t, h, rfl⟩)

theorem protected_cases (h : p ∈ x.final.protectedPaths) :
    ∃ t b, (t, b) ∈ x.exec.done ∧ t.filePath = p ∧
      (b = false ∨ t.isTransfer = true ∧ (x.course.inspects p = true → x.after t.dest p = none)) := by
  rcases reconcile_protected_cases h with h | ⟨op, hop, hx, rfl, hnone⟩
  · obtain ⟨t, ht, hp⟩ := mem_finalProtectedPaths.1 h
    exact ⟨t, false, ht, hp, .inl rfl⟩
  · exact ⟨op, true, mem_completedOperations.1 hop, rfl, .inr ⟨hx, hnone⟩⟩

theorem completed_of_free (hp : p ∉ x.final.protectedPaths) (ht : t ∈ x.tasksAt p) :
    (t, true) ∈ x.exec.done := by
  obtain ⟨b, hb⟩ := x.done_of_task (x.mem_tasks ht)
  cases b with
  | true => exact hb
  | false => exact absurd ((of_mem_fileTasks ht).1 ▸ x.protected_of_failed hb) hp

/-! The file of a path in the listings at the end. -/

theorem final_file_kept (h : ∀ t ∈ x.tasksAt p, ¬ t.Writes s p) :
    (x.final.scans.on s).files.get p = (x.listed s).files.get p := by
  rw [final_files, reconciled, reconcile_file_eq, x.scans_on]
  intro op hop hw
  exact h op (x.mem_of_done (mem_completedOperations.1 hop) hw.touches) hw

section

variable (hp : p ∉ x.final.protectedPaths)
include hp

theorem final_file_transfer (ht : t ∈ x.tasksAt p) (hx : t.isTransfer = true) :
    ∃ f, x.after t.dest p = some f ∧ (x.final.scans.on t.dest).files.get p = some f.state := by
  have hdone := x.completed_of_free hp ht
  obtain rfl := (of_mem_fileTasks ht).1
  rw [final_files]
  refine reconcile_transfer (mem_completedOperations.2 hdone) hx (fun op hop hw => ?_) hp
  have hop := x.mem_of_done (mem_completedOperations.1 hop) hw.touches
  rw [writes_unique hop ht hw ⟨.inl hx, rfl, rfl⟩]
  exact hx

theorem final_file_delete (ht : t ∈ x.tasksAt p) (ha : t.action = .delete) :
    (x.final.scans.on t.dest).files.get p = none := by
  have hdone := x.completed_of_free hp ht
  obtain rfl := (of_mem_fileTasks ht).1
  rw [final_files]
  refine reconcile_delete (mem_completedOperations.2 hdone) ha (fun op hop hw => ?_) hp
  have hop := x.mem_of_done (mem_completedOperations.1 hop) hw.touches
  rw [writes_unique hop ht hw ⟨.inr ha, rfl, rfl⟩]
  exact ha

theorem final_file_origin (h : ((x.final.scans.on s).files.get p).isSome) :
    ∃ s', (fileAt job st.trees s' p).isSome := by
  by_cases hw : ∀ t ∈ x.tasksAt p, ¬ t.Writes s p
  · rw [x.final_file_kept hw] at h
    obtain ⟨fs, hfs⟩ := isSome_iff_exists.1 h
    obtain ⟨f, hf, -⟩ := x.listed_file hfs
    exact ⟨s, by rw [hf]; rfl⟩
  · push Not at hw
    obtain ⟨t, ht, hx | ha, rfl, -⟩ := hw
    · obtain ⟨f, hf⟩ := x.transfer_listed ht hx
      exact ⟨t.dest.other, by rw [hf]; rfl⟩
    · rw [x.final_file_delete hp ht ha] at h
      cases h

end

theorem result_file : fileAt job x.result.trees s p = x.after s p := by
  rw [result, finishPass, afterCleanup, cleanup_file]

theorem result_rows (h : x.course.commits = true) : x.result.rows = newBaseline st.rows x.final :=
  if_pos h

end Pass

/-! The providers. -/

namespace SmoothPass

variable {job : Job} {sanitize : Sanitizer} {st : State} (x : SmoothPass job sanitize st)
variable {t : TaskToCreate} {s : Side} {p : Path} {f : File}

theorem not_touches_of_run (h : ∀ t ∈ x.tasksAt p, ¬ t.Touches s p) :
    ∀ run ∈ x.course.runs, ¬ run.1.Touches s p :=
  fun run hrun ht => h run.1 (x.mem_of_run hrun ht) ht

theorem file_kept (hf : fileAt job st.trees s p = some f) (h : ∀ t ∈ x.tasksAt p, ¬ t.Touches s p) :
    x.after s p = some f :=
  runTasks_present x.undisturbed hf (x.not_touches_of_run h)

theorem file_untouched (hc : Clear job x.course.runs s p)
    (h : ∀ t ∈ x.tasksAt p, ¬ t.Touches s p) : x.after s p = fileAt job st.trees s p :=
  runTasks_untouched x.undisturbed hc (x.not_touches_of_run h)

theorem not_touches_other (ht : t ∈ x.tasksAt p) :
    ∀ t' ∈ x.tasksAt p, ¬ t'.Touches t.dest.other p := by
  intro t' ht' htouch
  have hdest := fileTasks_dest ht ht'
  rw [htouch.2.1] at hdest
  exact t.dest.other_ne hdest

theorem file_transferred (ht : t ∈ x.tasksAt p) (hx : t.isTransfer = true)
    (hdone : (t, true) ∈ x.exec.done) : ∃ f, fileAt job st.trees t.dest.other p = some f ∧
      x.after t.dest.other p = some f ∧ ∃ w, x.after t.dest p = some (Written.file w f.content) := by
  obtain ⟨f, hf⟩ := x.transfer_listed ht hx
  have hother := x.not_touches_other ht
  refine ⟨f, hf, x.file_kept hf hother, ?_⟩
  obtain rfl := (of_mem_fileTasks ht).1
  have hcompanion : ∀ run ∈ x.course.runs, run.1.Touches t.dest t.filePath →
      run.1 = t ∨ run.1 = conflictCopyTask t.filePath ∧ t.prerequisite = true := by
    intro run hrun htouch
    exact (fileTasks_companion ht (.inl hx) (x.mem_of_run hrun htouch)).imp_right fun h =>
      ⟨h.1, h.2.2⟩
  obtain ⟨w, clock, -, hw⟩ := runTasks_transfer x.undisturbed hx x.runs_nodup hcompanion
    (x.not_touches_of_run hother) hf hdone
  exact ⟨w, hw⟩

theorem failed_of_protected (hins : ∀ p, x.course.inspects p = true)
    (h : p ∈ x.final.protectedPaths) : ∃ t, t.filePath = p ∧ (t, false) ∈ x.exec.done := by
  obtain ⟨t, b, hdone, rfl, rfl | ⟨hx, hnone⟩⟩ := x.protected_cases h
  · exact ⟨t, rfl, hdone⟩
  · cases b with
    | false => exact ⟨t, rfl, hdone⟩
    | true =>
      have hmem := x.mem_of_done (s := t.dest) hdone ⟨fun hmk => ?_, rfl, rfl⟩
      · obtain ⟨f, -, -, w, hw⟩ := x.file_transferred hmem hx hdone
        rw [hnone (hins _)] at hw
        cases hw
      · simp [TaskToCreate.isTransfer, hmk] at hx

theorem nothing_protected (hall : ∀ t ∈ x.pl.tasks, (t, true) ∈ x.exec.done)
    (hins : ∀ p, x.course.inspects p = true) : p ∉ x.final.protectedPaths := by
  intro h
  obtain ⟨t, -, hfail⟩ := x.failed_of_protected hins h
  exact x.not_failed_of_done (hall t (x.task_of_done hfail)) hfail

theorem file_deleted (ht : t ∈ x.tasksAt p) (ha : t.action = .delete)
    (hc : Clear job x.course.runs t.dest p) (hdone : (t, true) ∈ x.exec.done) :
    x.after t.dest p = none := by
  obtain rfl := (of_mem_fileTasks ht).1
  refine runTasks_delete x.undisturbed ha hc (fun run hrun htouch => ?_) hdone
  rcases fileTasks_companion ht (.inr ha) (x.mem_of_run hrun htouch) with h | ⟨-, hx, -⟩
  · exact h
  · simp [TaskToCreate.isTransfer, ha] at hx

theorem present_of_transfer (ht : t ∈ x.tasksAt p) (hx : t.isTransfer = true)
    (hdone : (t, true) ∈ x.exec.done) : (x.after s p).isSome := by
  obtain ⟨f, -, hother, w, hw⟩ := x.file_transferred ht hx hdone
  rcases Side.eq_or_other t.dest s with rfl | rfl
  · rw [hw]
    rfl
  · rw [hother]
    rfl

theorem present_of_final_file (hp : p ∉ x.final.protectedPaths)
    (h : ((x.final.scans.on s).files.get p).isSome) : (x.after s p).isSome := by
  by_cases hw : ∀ t ∈ x.tasksAt p, ¬ t.Writes s p
  · rw [x.final_file_kept hw] at h
    obtain ⟨fs, hfs⟩ := isSome_iff_exists.1 h
    obtain ⟨f, hf, -⟩ := x.listed_file hfs
    rw [x.file_kept hf (not_touches_of_not_writes hw)]
    rfl
  · push Not at hw
    obtain ⟨t, ht, hx | ha, rfl, -⟩ := hw
    · obtain ⟨f, hf, -⟩ := x.final_file_transfer hp ht hx
      rw [hf]
      rfl
    · rw [x.final_file_delete hp ht ha] at h
      cases h

/-! One-way passes. -/

section

variable (hone : job.direction = .oneWay)
include hone

theorem tasksAt_oneWay : x.tasksAt p
    = oneWayTasks job p (entry (listings job x.course st) st.rows p) := by
  rw [Pass.tasksAt, State.fileTasks, fileTasks, hone]

theorem oneWay_dest (ht : t ∈ x.pl.tasks) : t.dest = .target := by
  rw [x.tasks_eq] at ht
  rcases mem_delta_tasks.1 ht with h | h
  · exact ((fileTask_of_mem h).oneWay hone).1
  · rw [hone] at h
    obtain ⟨p, s, rfl, -, -, -, ⟨-, h⟩ | ⟨rfl, -⟩⟩ := mem_mkdirTasks.1 h
    · cases h
    · rfl

theorem oneWay_no_copies : ∀ t ∈ x.pl.tasks, t.action ≠ .conflictCopy := by
  intro t ht ha
  exact ((fileTask_of_mem ((x.mem_tasks_iff ⟨by simp [ha], rfl, rfl⟩).1 ht)).oneWay hone).2 ha

theorem oneWay_source_kept :
    (x.final.scans.on .source).files.get p = (x.listed .source).files.get p := by
  refine x.final_file_kept fun t ht hw => ?_
  have := x.oneWay_dest hone (x.mem_tasks ht)
  rw [hw.2.1] at this
  cases this

/-- A file of the source is on the target after a one-way pass in which its tasks completed. -/
theorem oneWay_present (hsrc : ((x.listed .source).files.get p).isSome)
    (hall : ∀ t ∈ x.tasksAt p, (t, true) ∈ x.exec.done) : (x.after .target p).isSome := by
  obtain ⟨a, ha⟩ := isSome_iff_exists.1 hsrc
  have htasks := x.tasksAt_oneWay hone (p := p)
  rw [entry, show (listings job x.course st).source.files.get p = some a from ha,
    oneWayTasks_source] at htasks
  split_ifs at htasks with hup
  · have ht : uploadTask p a false ∈ x.tasksAt p := by
      rw [htasks]
      exact mem_cons_self
    exact x.present_of_transfer ht rfl (hall _ ht)
  · rw [Bool.or_eq_true, not_or] at hup
    obtain ⟨b, hb⟩ := ne_none_iff_exists'.1 (by simpa using hup.2)
    obtain ⟨g, hg, -⟩ := x.listed_file (s := .target) hb
    rw [x.file_untouched (x.clear_of_no_copies (x.oneWay_no_copies hone)) (by simp [htasks]), hg]
    rfl

end

end SmoothPass

end Clumoove.Sync
