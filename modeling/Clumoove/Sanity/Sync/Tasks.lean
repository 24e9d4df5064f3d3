import Clumoove.Sanity.Sync.Baseline

/-! The tasks of a delta, path by path. -/

namespace Clumoove.Sync

open List Option

variable {tgt : Option FileState} {dirs prev : Sided (List Path)}

/-! The cases of the delta for one path. -/

section

variable {job : Job} {S : Path} {a b : FileState} {pa pb : Option Row}

theorem Entry.srcModified_eq (h : Entry.inSyncDirectMatch ⟨some a, tgt, pa, pb⟩ = false) :
    Entry.srcModified ⟨some a, tgt, pa, pb⟩ = pa.elim true (isFileModified a · .source) := by
  cases pa <;> simp [Entry.srcModified, Entry.modified, h]

theorem Entry.tgtModified_eq {src : Option FileState}
    (h : Entry.inSyncDirectMatch ⟨src, some b, pa, pb⟩ = false) :
    Entry.tgtModified ⟨src, some b, pa, pb⟩ = pb.elim true (isFileModified b · .target) := by
  cases pb <;> simp [Entry.tgtModified, Entry.modified, h]

theorem twoWayTasks_both : twoWayTasks job S ⟨some a, some b, pa, pb⟩ =
    if isFileMatchingTarget a b then []
    else if Entry.srcModified ⟨some a, some b, pa, pb⟩ && Entry.tgtModified ⟨some a, some b, pa, pb⟩
      then conflictTasks job.conflictStrategy S a
    else if Entry.srcModified ⟨some a, some b, pa, pb⟩ then [uploadTask S a false]
    else if Entry.tgtModified ⟨some a, some b, pa, pb⟩ then [downloadTask S b] else [] := by
  simp [twoWayTasks, Entry.inSyncDirectMatch, Entry.srcDeleted, Entry.tgtDeleted]

theorem twoWayTasks_source : twoWayTasks job S ⟨some a, none, pa, pb⟩ =
    if Entry.srcModified ⟨some a, none, pa, pb⟩ || pb.isNone then [uploadTask S a false]
    else if job.deletePropagation then [deleteTask S .source] else [] := by
  cases pb <;>
  cases h : Entry.srcModified ⟨some a, none, pa, _⟩ <;>
  simp [twoWayTasks, Entry.tgtDeleted, Entry.srcDeleted, h]

theorem twoWayTasks_target : twoWayTasks job S ⟨none, some b, pa, pb⟩ =
    if Entry.tgtModified ⟨none, some b, pa, pb⟩ || pa.isNone then [downloadTask S b]
    else if job.deletePropagation then [deleteTask S .target] else [] := by
  cases pa <;>
  cases h : Entry.tgtModified ⟨none, some b, _, pb⟩ <;>
  simp [twoWayTasks, Entry.tgtDeleted, Entry.srcDeleted, h]

theorem twoWayTasks_none : twoWayTasks job S ⟨none, none, pa, pb⟩ = [] := by
  simp [twoWayTasks, Entry.tgtDeleted, Entry.srcDeleted]

theorem oneWayTasks_source : oneWayTasks job S ⟨some a, tgt, pa, pb⟩ =
    if Entry.srcModified ⟨some a, tgt, pa, pb⟩ || tgt.isNone then [uploadTask S a false] else [] := by
  simp [oneWayTasks]

theorem oneWayTasks_none : oneWayTasks job S ⟨none, tgt, pa, pb⟩ =
    if pa.isSome && job.deletePropagation && tgt.isSome then [deleteTask S .target] else [] := by
  cases pa <;> simp [oneWayTasks]

def transferTask (S : Path) (f : FileState) : Side → TaskToCreate
  | .source => uploadTask S f false
  | .target => downloadTask S f

section

variable {f : FileState} {s : Side}

@[simp] theorem transferTask_dest : (transferTask S f s).dest = s.other := by cases s <;> rfl

end

section

variable {α : Type} (job : Job) (S : Path) (state : α → FileState) (file : Side → Option α)
  (row : Side → Option Row)

def changed (s : Side) (f : α) : Bool := (row s).elim true (isFileModified (state f) · s)

inductive TwoWayTasks : List TaskToCreate → Prop
  | absent : (∀ s, file s = none) → TwoWayTasks []
  | lone {s : Side} {f : α} : file s = some f → file s.other = none →
      TwoWayTasks (if changed state row s f || (row s.other).isNone then [transferTask S (state f) s]
        else if job.deletePropagation then [deleteTask S s] else [])
  | both {a b : α} : file .source = some a → file .target = some b →
      TwoWayTasks (if isFileMatchingTarget (state a) (state b) then []
        else if changed state row .source a && changed state row .target b then
          conflictTasks job.conflictStrategy S (state a)
        else if changed state row .source a then [uploadTask S (state a) false]
        else if changed state row .target b then [downloadTask S (state b)] else [])

theorem twoWayTasks_shape : TwoWayTasks job S state file row (twoWayTasks job S
    ⟨(file .source).map state, (file .target).map state, row .source, row .target⟩) := by
  cases hf : file .source with
  | none =>
    cases hg : file .target with
    | none =>
      rw [map_none, twoWayTasks_none]
      exact .absent fun s => by cases s <;> assumption
    | some b =>
      rw [map_none, map_some, twoWayTasks_target, Entry.tgtModified_eq rfl]
      exact .lone (s := .target) hg hf
  | some a =>
    cases hg : file .target with
    | none =>
      rw [map_none, map_some, twoWayTasks_source, Entry.srcModified_eq rfl]
      exact .lone (s := .source) hf hg
    | some b =>
      have h : TwoWayTasks job S state file row _ := .both hf hg
      rw [map_some, map_some, twoWayTasks_both]
      by_cases hmatch : isFileMatchingTarget (state a) (state b) = true
      · rwa [if_pos hmatch] at h ⊢
      · have hsync : Entry.inSyncDirectMatch ⟨some (state a), some (state b), row .source, row .target⟩ =
          false := Bool.not_eq_true _ ▸ hmatch
        rwa [Entry.srcModified_eq hsync, Entry.tgtModified_eq hsync]

end

def Entry.file (e : Entry) : Side → Option FileState
  | .source => e.src
  | .target => e.tgt

def Entry.row (e : Entry) : Side → Option Row
  | .source => e.pSrc
  | .target => e.pTgt

theorem twoWayTasks_cases (job : Job) (S : Path) (e : Entry) :
    TwoWayTasks job S id e.file e.row (twoWayTasks job S e) := by
  have h := twoWayTasks_shape job S id e.file e.row
  rwa [Option.map_id, id, id] at h

inductive FileTasks (job : Job) (S : Path) (e : Entry) : List TaskToCreate → Prop
  | nothing : FileTasks job S e []
  | transfer {s : Side} {f : FileState} : e.file s = some f → (job.direction = .oneWay → s = .source) →
      FileTasks job S e [transferTask S f s]
  | delete {s : Side} : e.file s.other = none → e.pSrc.isSome →
      (job.direction = .twoWay → e.pTgt.isSome) → (job.direction = .oneWay → s = .target) →
      FileTasks job S e [deleteTask S s]
  | rename {a : FileState} : job.direction = .twoWay → job.conflictStrategy = .rename → e.src = some a →
      FileTasks job S e [conflictCopyTask S, uploadTask S a true]

theorem fileTasks_shape (job : Job) (S : Path) (e : Entry) :
    FileTasks job S e (fileTasks job S e) := by
  unfold fileTasks
  cases hdir : job.direction with
  | oneWay =>
    obtain ⟨src, tgt, pa, pb⟩ := e
    cases src with
    | some a =>
      simp only [oneWayTasks_source]
      split_ifs
      · exact .transfer (s := .source) rfl fun _ => rfl
      · exact .nothing
    | none =>
      simp only [oneWayTasks_none]
      split_ifs with hc
      · simp only [Bool.and_eq_true] at hc
        exact .delete rfl hc.1.1 (by simp [hdir]) fun _ => rfl
      · exact .nothing
  | twoWay =>
    have h := twoWayTasks_cases job S e
    generalize twoWayTasks job S e = l at h ⊢
    cases h with
    | absent => exact .nothing
    | @lone s f hf hnone =>
      split_ifs with hm
      · exact .transfer hf (by simp [hdir])
      · rw [Bool.or_eq_true, not_or, Bool.not_eq_true, isNone_iff_eq_none] at hm
        obtain ⟨hsame, hrow⟩ := hm
        have hown : e.row s ≠ none := by
          intro hown
          rw [changed, hown] at hsame
          cases hsame
        rw [← ne_eq, ← isSome_iff_ne_none] at hrow
        rw [← isSome_iff_ne_none] at hown
        cases s
        · exact .delete hnone hown (fun _ => hrow) (by simp [hdir])
        · exact .delete hnone hrow (fun _ => hown) (by simp [hdir])
      · exact .nothing
    | both ha hb =>
      split_ifs
      · exact .nothing
      · cases hs : job.conflictStrategy
        · exact .transfer (s := .source) ha fun _ => rfl
        · exact .nothing
        · exact .rename hdir hs ha
        · exact .nothing
      · exact .transfer (s := .source) ha fun _ => rfl
      · exact .transfer (s := .target) hb (by simp [hdir])
      · exact .nothing

inductive FileTask (job : Job) (S : Path) (e : Entry) (l : List TaskToCreate) : TaskToCreate → Prop
  | transfer {s : Side} {f : FileState} : e.file s = some f → (job.direction = .oneWay → s = .source) →
      l = [transferTask S f s] → FileTask job S e l (transferTask S f s)
  | delete {s : Side} : e.file s.other = none → e.pSrc.isSome →
      (job.direction = .twoWay → e.pTgt.isSome) → (job.direction = .oneWay → s = .target) →
      l = [deleteTask S s] → FileTask job S e l (deleteTask S s)
  | copy {a : FileState} : job.direction = .twoWay → job.conflictStrategy = .rename → e.src = some a →
      l = [conflictCopyTask S, uploadTask S a true] → FileTask job S e l (conflictCopyTask S)
  | upload {a : FileState} : e.src = some a → l = [conflictCopyTask S, uploadTask S a true] →
      FileTask job S e l (uploadTask S a true)

theorem fileTask_of_mem (h : t ∈ fileTasks job S e) : FileTask job S e (fileTasks job S e) t := by
  have hs := fileTasks_shape job S e
  generalize fileTasks job S e = l at h hs
  cases hs with
  | nothing => cases h
  | transfer hf hone =>
    rw [mem_singleton.1 h]
    exact .transfer hf hone rfl
  | delete hnone hsrc htwo hone =>
    rw [mem_singleton.1 h]
    exact .delete hnone hsrc htwo hone rfl
  | rename hdir hs ha =>
    rcases mem_cons.1 h with rfl | h
    · exact .copy hdir hs ha rfl
    · rw [mem_singleton.1 h]
      exact .upload ha rfl

theorem FileTask.oneWay (h : FileTask job S e l t) (hone : job.direction = .oneWay) :
    t.dest = .target ∧ t.action ≠ .conflictCopy := by
  cases h with
  | transfer _ hs =>
    rw [hs hone]
    exact ⟨rfl, by simp [transferTask, uploadTask]⟩
  | delete _ _ _ hs => exact ⟨hs hone, by simp [deleteTask]⟩
  | copy htwo => cases hone.symm.trans htwo
  | upload => exact ⟨rfl, by simp [uploadTask]⟩

theorem of_mem_fileTasks (h : t ∈ fileTasks job S e) : t.filePath = S ∧ t.action ≠ .mkdir := by
  cases fileTask_of_mem h with
  | @transfer s => cases s <;> simp [transferTask, uploadTask, downloadTask]
  | _ => simp [deleteTask, conflictCopyTask, uploadTask]

/-- When a file is deleted: it is gone on the other side and the baseline knows it, on both sides
if the job is two-way. -/
theorem of_mem_delete (h : t ∈ fileTasks job S e)
    (ha : t.action = .delete) : e.file t.dest.other = none ∧ e.pSrc.isSome ∧
      (job.direction = .twoWay → e.pTgt.isSome) ∧ (job.direction = .oneWay → t.dest = .target) := by
  cases fileTask_of_mem h with
  | @transfer s => cases s <;> cases ha
  | delete hnone hsrc htwo hone => exact ⟨hnone, hsrc, htwo, hone⟩
  | copy | upload => cases ha

end

theorem fileTasks_unknown (job : Job) (S : Path) : fileTasks job S ⟨none, none, none, none⟩ = [] := by
  unfold fileTasks
  cases job.direction
  · rfl
  · exact twoWayTasks_none

section Delta

variable {job : Job} {scans : Sided Scan} {rows : Baseline} {t : TaskToCreate}

theorem entry_of_not_mem (h : S ∉ allKeys scans rows) :
    entry scans rows S = ⟨none, none, none, none⟩ := by
  rw [mem_allKeys, not_or] at h
  have hfile : ∀ s, (scans.on s).files.get S = none := by
    intro s
    by_contra hne
    exact h.1 ⟨s, isSome_iff_ne_none.2 hne⟩
  have hrow : ∀ s, (prevFiles (rows.on s)).get S = none := by
    intro s
    by_contra hne
    obtain ⟨r, hr⟩ := ne_none_iff_exists'.1 hne
    rw [prevFiles_eq_some] at hr
    exact h.2 ⟨s, r, hr⟩
  exact Entry.mk.injEq .. ▸ ⟨hfile .source, hfile .target, hrow .source, hrow .target⟩

theorem mem_delta_tasks : t ∈ (delta job scans rows).tasks ↔
    t ∈ fileTasks job t.filePath (entry scans rows t.filePath) ∨
      t ∈ mkdirTasks job.direction ⟨scans.source.dirs.dedup, scans.target.dirs.dedup⟩
        (prevDirs rows) := by
  have hfiles : t ∈ (allKeys scans rows).flatMap (fun S => fileTasks job S (entry scans rows S)) ↔
      t ∈ fileTasks job t.filePath (entry scans rows t.filePath) := by
    rw [mem_flatMap]
    constructor
    · rintro ⟨S, -, hS⟩
      rwa [(of_mem_fileTasks hS).1]
    · intro h
      refine ⟨t.filePath, ?_, h⟩
      by_contra hk
      rw [entry_of_not_mem hk, fileTasks_unknown] at h
      cases h
  simp only [delta, mem_append, mem_filter, decide_eq_true_eq, hfiles]
  tauto

theorem mem_mkdirTasks : t ∈ mkdirTasks direction dirs prev ↔ ∃ p s, t = mkdirTask p s ∧ p ≠ [] ∧
      p ∈ dirs.on s.other ∧ p ∉ dirs.on s ∧
      (p ∉ prev.on s ∧ direction = .twoWay ∨ s = .target ∧ direction = .oneWay) := by
  simp only [mkdirTasks, mem_append, List.mem_map, mem_filter, decide_eq_true_eq]
  constructor
  · rintro (⟨p, ⟨hp, hne, hnot, hdir⟩, rfl⟩ | ⟨p, ⟨hp, htwo, hne, hnot, hprev⟩, rfl⟩)
    · refine ⟨p, .target, rfl, hne, hp, hnot, ?_⟩
      cases direction
      · exact .inr ⟨rfl, rfl⟩
      · exact .inl ⟨hdir.resolve_left (by simp), rfl⟩
    · exact ⟨p, .source, rfl, hne, hp, hnot, .inl ⟨hprev, htwo⟩⟩
  · rintro ⟨p, s, rfl, hne, hp, hnot, hdir⟩
    cases s with
    | source =>
      rcases hdir with ⟨hprev, htwo⟩ | ⟨h, -⟩
      · exact .inr ⟨p, ⟨hp, htwo, hne, hnot, hprev⟩, rfl⟩
      · cases h
    | target =>
      refine .inl ⟨p, ⟨hp, hne, hnot, ?_⟩, rfl⟩
      rcases hdir with ⟨hprev, htwo⟩ | ⟨-, h⟩
      · exact .inr hprev
      · exact .inl h

theorem fileTasks_nodup (job : Job) (S : Path) (e : Entry) : (fileTasks job S e).Nodup := by
  have h := fileTasks_shape job S e
  generalize fileTasks job S e = l at h
  cases h with
  | nothing => exact nodup_nil
  | transfer | delete => exact nodup_singleton _
  | rename _ _ _ => simp [conflictCopyTask, uploadTask]

theorem mkdirTasks_nodup
    (hs : dirs.source.Nodup) (ht : dirs.target.Nodup) : (mkdirTasks direction dirs prev).Nodup := by
  have hinj : ∀ s, Function.Injective (mkdirTask · s) := by
    intro s p q h
    exact congrArg TaskToCreate.filePath h
  refine List.Nodup.append ((hs.filter _).map (hinj _)) ((ht.filter _).map (hinj _)) ?_
  intro t h₁ h₂
  obtain ⟨p, -, rfl⟩ := List.mem_map.1 h₁
  obtain ⟨q, -, h⟩ := List.mem_map.1 h₂
  cases congrArg TaskToCreate.side h

theorem delta_tasks_nodup (job : Job) (scans : Sided Scan) (rows : Baseline) :
    (delta job scans rows).tasks.Nodup := by
  have hfiles : ((allKeys scans rows).flatMap
      fun S => fileTasks job S (entry scans rows S)).Nodup := by
    refine nodup_flatMap.2 ⟨fun S _ => fileTasks_nodup job S _, ?_⟩
    refine (nodup_dedup _).imp ?_
    intro S S' hne t h₁ h₂
    exact hne ((of_mem_fileTasks h₁).1.symm.trans (of_mem_fileTasks h₂).1)
  refine List.Nodup.append (List.Nodup.append (hfiles.filter _) (hfiles.filter _) ?_)
    (mkdirTasks_nodup (nodup_dedup _) (nodup_dedup _)) ?_
  · intro t h₁ h₂
    have h₁ := (mem_filter.1 h₁).2
    have h₂ := (mem_filter.1 h₂).2
    rw [decide_eq_true_eq] at h₁ h₂
    exact h₂ h₁
  · intro t h₁ h₂
    obtain ⟨p, s, rfl, -⟩ := mem_mkdirTasks.1 h₂
    have hmem : mkdirTask p s ∈ (allKeys scans rows).flatMap
        fun S => fileTasks job S (entry scans rows S) :=
      (mem_append.1 h₁).elim (fun h => (mem_filter.1 h).1) fun h => (mem_filter.1 h).1
    obtain ⟨S, -, hS⟩ := mem_flatMap.1 hmem
    exact (of_mem_fileTasks hS).2 rfl

theorem mem_delta_cleanup : c ∈ (delta job scans rows).cleanup ↔
    job.deletePropagation = true ∧ c.relPath ≠ [] ∧ c.relPath ∈ (scans.on c.side).dirs ∧
      c.relPath ∉ (scans.on c.side.other).dirs ∧ c.relPath ∈ (prevDirs rows).on c.side.other ∧
      (job.direction = .oneWay → c.side = .target) := by
  obtain ⟨p, s⟩ := c
  simp only [delta, cleanupCandidates]
  cases job.deletePropagation with
  | false => simp
  | true =>
    cases job.direction <;> cases s <;>
      simp [Sided.on, Side.other, and_assoc] <;> tauto

end Delta

end Clumoove.Sync
