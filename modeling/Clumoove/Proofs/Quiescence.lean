import Clumoove.Sanity.Sync.Directories
import Clumoove.Sanity.Sync.Evaluation
import Clumoove.Sanity.Sync.Rows

/-! A finished sync is quiescent: if a pass has completed and nothing changes, the next one has
nothing to do. It takes that no deletion is waiting in a two-way job that does not propagate
deletions: the pass that ignores it also forgets it, and the next one undoes it. -/

namespace Clumoove.Sync

open PathTree List Option

/-! A path whose rows are what is listed has no task. -/

section Settled

variable {job : Job} {p : Path} {a b : Option FileState}

theorem timesDiffer_self (t : Option ℕ) : timesDiffer t t = false := by
  cases t <;> simp [timesDiffer]

theorem isFileModified_self (fs : FileState) (s : Side) : isFileModified fs (fs.row s) s = false := by
  have hhash : (fs.row s).modifiedHash s = fs.hash := by
    cases s with
    | source => rfl
    | target => by_cases h : fs.hash = "" <;> simp [FileState.row, Row.modifiedHash, h]
  have hrow : (fs.row s).size = fs.size ∧ (fs.row s).etag = fs.etag ∧
      (fs.row s).mtime = fs.lastModified := by
    cases s <;> exact ⟨rfl, rfl, rfl⟩
  unfold isFileModified
  rw [hhash, hrow.1, hrow.2.1, hrow.2.2]
  simp [timesDiffer_self]

theorem srcModified_settled :
    Entry.srcModified ⟨a, b, a.map (·.row .source), b.map (·.row .target)⟩ = false := by
  cases a with
  | none => rfl
  | some fs => simp [Entry.srcModified, Entry.modified, isFileModified_self]

theorem tgtModified_settled :
    Entry.tgtModified ⟨a, b, a.map (·.row .source), b.map (·.row .target)⟩ = false := by
  cases b with
  | none => rfl
  | some fs => simp [Entry.tgtModified, Entry.modified, isFileModified_self]

/-- In a two-way job the file is on both sides or on none, in a one-way job at least on the
target. -/
theorem fileTasks_settled (htwo : job.direction = .twoWay → a.isSome = b.isSome)
    (hone : job.direction = .oneWay → a.isSome → b.isSome) :
    fileTasks job p ⟨a, b, a.map (·.row .source), b.map (·.row .target)⟩ = [] := by
  have hsrc := srcModified_settled (a := a) (b := b)
  have htgt := tgtModified_settled (a := a) (b := b)
  unfold fileTasks
  cases hdir : job.direction with
  | oneWay =>
    cases a with
    | none => simp [oneWayTasks_none]
    | some fs =>
      have hb := hone hdir rfl
      rw [oneWayTasks_source, hsrc]
      cases b with
      | none => cases hb
      | some _ => rfl
  | twoWay =>
    have hab := htwo hdir
    cases a with
    | none =>
      cases b with
      | none => exact twoWayTasks_none
      | some _ => cases hab
    | some fs =>
      cases b with
      | none => cases hab
      | some _ =>
        rw [twoWayTasks_both, hsrc, htgt]
        simp

end Settled

/-- No deletion on one side waits to be carried over to the other. -/
def NothingPending (job : Job) (st : State) : Prop :=
  (∀ s p r, (st.rows.on s).get p = some r → r.isDir = false → fileAt job st.trees s p = none →
    fileAt job st.trees s.other p = none) ∧
  ∀ s p r, (st.rows.on s).get p = some r → r.isDir = true → dirAt job st.trees s p = false →
    dirAt job st.trees s.other p = false

/-- A two-way job sees the whole source, and carries deletions over unless none is waiting. -/
def Job.Settles (job : Job) (st : State) : Prop :=
  job.direction = .twoWay → [] ∈ job.startPaths .source ∧
    (job.deletePropagation = true ∨ NothingPending job st)

/-- A pass without a failure: its listings were current, all its tasks and the provider's other
calls succeeded, nothing disturbed it, directories that were to go could be deleted, and the baseline
was stored. Conflict copies are left out. -/
structure Finished (job : Job) (sanitize : Sanitizer) (course : Course) (st : State) (pl : Plan) :
    Prop where
  plan : plan job course st = some pl
  fits : course.Fits pl
  current : Current job course st
  noCopies : ∀ t ∈ pl.tasks, t.action ≠ .conflictCopy
  completed : ∀ t ∈ pl.tasks, (t, true) ∈ (afterTasks job sanitize course st).done
  inspects : ∀ p, course.inspects p = true
  cleans : ∀ c ∈ pl.cleanup, course.cleans c = true ∧
    (job.providers.on c.side).directoryDeletion = .deletes
  undisturbed : Undisturbed job sanitize { trees := st.trees } course.runs
  commits : course.commits = true

namespace SmoothPass

variable {job : Job} {sanitize : Sanitizer} {st : State} (x : SmoothPass job sanitize st)
variable {s : Side} {p : Path}

theorem presence_agrees (hd : Finished job sanitize x.course st x.pl)
    (htwo : job.direction = .twoWay) (hroot : [] ∈ job.startPaths .source)
    (hdel : job.deletePropagation = true ∨ NothingPending job st) :
    (x.after .source p).isSome = (x.after .target p).isSome := by
  have hscope : ∀ s p, job.Scope s p := fun _ _ => job.scope_of_root hroot
  rcases x.completed_cases (p := p) hscope (fun _ => x.clear_of_no_copies hd.noCopies) fun t ht =>
    hd.completed t (x.mem_tasks ht) with ⟨c, hc⟩ | hgone | ⟨hnil, hsame⟩
  · have hsome : ∀ s, (x.after s p).isSome = true := by
      intro s
      obtain ⟨f, hf, -⟩ := map_eq_some_iff.1 (hc s)
      rw [hf]
      rfl
    rw [hsome, hsome]
  · rw [hgone, hgone]
  · -- a path on one side only has a task, or a deletion of it is waiting
    have hpending : ¬ job.deletePropagation = true → ∀ s r,
        (prevFiles (st.rows.on s)).get p = some r → fileAt job st.trees s p = none →
        fileAt job st.trees s.other p = none := by
      intro hno s r hr
      obtain ⟨hrow, hfile⟩ := prevFiles_eq_some.1 hr
      exact (hdel.resolve_left hno).1 s p r hrow hfile
    rw [hsame, hsame]
    have hshape := x.twoWay_cases (p := p) htwo hscope
    generalize x.tasksAt p = l at hshape hnil
    cases hshape with
    | absent hnone => rw [hnone, hnone]
    | both hf hg =>
      rw [hf, hg]
      rfl
    | lone hf hnone =>
      split_ifs at hnil with hm hno
      rw [Bool.or_eq_true, not_or] at hm
      obtain ⟨r, hr⟩ := ne_none_iff_exists'.1 (by simpa using hm.2)
      have hgone := hpending hno _ r hr hnone
      rw [Side.other_other, hf] at hgone
      cases hgone

theorem final_file_listed (hcopy : ∀ t ∈ x.pl.tasks, t.action ≠ .conflictCopy)
    (hroot : job.direction = .twoWay → [] ∈ job.startPaths .source)
    (hfree : p ∉ x.final.protectedPaths) : (x.final.scans.on s).files.get p = some fs ↔
      job.Scope s p ∧ (x.after s p).map File.state = some fs := by
  by_cases hscope : job.Scope s p
  · rw [x.final_file_eq hscope (x.clear_of_no_copies hcopy) hfree]
    exact (and_iff_right hscope).symm
  · -- only the source of a one-way job has paths out of scope, and no task writes there
    refine ⟨fun h => ?_, fun h => absurd h.1 hscope⟩
    have hone : job.direction = .oneWay := by
      cases hd : job.direction with
      | oneWay => rfl
      | twoWay => exact absurd (job.scope_of_root (hroot hd)) hscope
    cases s with
    | target => exact absurd Job.scope_target hscope
    | source =>
      rw [x.oneWay_source_kept hone] at h
      exact absurd ((x.current _).file p fs |>.1 h).1 hscope

theorem rows_settled (hclash : NoClash job st) (hfree : p ∉ x.final.protectedPaths) :
    (prevFiles ((newBaseline st.rows x.final).on s)).get p
      = ((x.final.scans.on s).files.get p).map (·.row s) := by
  by_cases hdir : ∃ s, st.KnowsDir job s p
  · obtain ⟨s', hs'⟩ := hdir
    have hnofile : ∀ s, ¬ st.KnowsFile job s p := fun s hs => hclash p s s' ⟨hs, hs'⟩
    rw [x.no_file_row hnofile, eq_comm, map_eq_none_iff]
    by_contra hne
    obtain ⟨s'', h⟩ := x.final_file_origin hfree (isSome_iff_ne_none.2 hne)
    exact hnofile s'' (.inl h)
  · exact x.file_row_new (fun s hs => hdir ⟨s, hs⟩) hfree

theorem source_dirs_kept (hone : job.direction = .oneWay) (p : Path) :
    dirAt job x.cleaned.trees .source p = dirAt job st.trees .source p := by
  rw [Bool.eq_iff_iff]
  constructor
  · intro hd
    refine ((runTasks_dirs x.undisturbed .source p).1 (x.cleaned_dir.1 hd).1).resolve_right ?_
    rintro ⟨t, hdone, hdest, -⟩
    rw [x.oneWay_dest hone (x.task_of_done hdone)] at hdest
    cases hdest
  · intro hd
    refine x.dir_kept (x.dir_after_tasks hd) fun hc => ?_
    cases (x.mem_cleanup.1 hc).2.2.2.2.2 hone

end SmoothPass

section Next

variable {job : Job} {sanitize : Sanitizer} {course course' : Course} {st st' : State}
variable {pl pl' : Plan}

/-- The next pass sees the files and directories the last one left. -/
structure Unchanged (job : Job) (st st' : State) : Prop where
  rows : st'.rows = st.rows
  file : ∀ s p, fileAt job st'.trees s p = fileAt job st.trees s p
  dir : ∀ s p, dirAt job st'.trees s p = dirAt job st.trees s p

section

variable (x : SmoothPass job sanitize st) (hd : Finished job sanitize x.course st x.pl)
variable (hsame : Unchanged job x.result st') (hcur' : Current job course' st')
include hd hsame hcur'

theorem no_file_tasks (hclash : NoClash job st) (hsettles : job.Settles st) (p : Path) :
    st'.fileTasks job course' p = [] := by
  have hfree : p ∉ x.final.protectedPaths := x.nothing_protected hd.completed hd.inspects
  have hlisted : ∀ s, ((listings job course' st').on s).files.get p
      = (x.final.scans.on s).files.get p := by
    intro s
    refine Option.ext fun fs => ?_
    rw [(hcur' s).file, x.final_file_listed hd.noCopies (fun h => (hsettles h).1) hfree, hsame.file,
      x.result_file]
  have hentry : entry (listings job course' st') st'.rows p
      = ⟨(x.final.scans.on .source).files.get p, (x.final.scans.on .target).files.get p,
          ((x.final.scans.on .source).files.get p).map (·.row .source),
          ((x.final.scans.on .target).files.get p).map (·.row .target)⟩ := by
    have hprev : ∀ s, (prevFiles (st'.rows.on s)).get p
        = ((x.final.scans.on s).files.get p).map (·.row s) := by
      intro s
      rw [hsame.rows, x.result_rows hd.commits]
      exact x.rows_settled hclash hfree
    exact Entry.mk.injEq .. ▸ ⟨hlisted .source, hlisted .target, hprev .source, hprev .target⟩
  have hclear : ∀ s, Clear job x.course.runs s p := fun s => x.clear_of_no_copies hd.noCopies
  rw [State.fileTasks, hentry]
  refine fileTasks_settled (fun htwo => ?_) fun hone hsrc => ?_
  · obtain ⟨hr, hdel⟩ := hsettles htwo
    rw [x.final_file_eq (job.scope_of_root hr) (hclear _) hfree,
      x.final_file_eq (job.scope_of_root hr) (hclear _) hfree, isSome_map, isSome_map]
    exact x.presence_agrees hd htwo hr hdel
  · -- a file of the source is on the target, or was uploaded
    rw [x.oneWay_source_kept hone] at hsrc
    rw [x.final_file_eq Job.scope_target (hclear _) hfree, isSome_map]
    exact x.oneWay_present hone hsrc fun t ht => hd.completed t (x.mem_tasks ht)

theorem target_dirs_follow (hsan : ∀ s name, sanitize s name = name) (hone : job.direction = .oneWay)
    (hne : p ≠ []) (hp : p ∈ ((listings job course' st').on .source).dirs) :
    p ∈ ((listings job course' st').on .target).dirs := by
  obtain ⟨hscope, hdir⟩ := ((hcur' .source).dir p).1 hp
  rw [hsame.dir] at hdir
  have hlisted : p ∈ (x.listed .source).dirs :=
    ((x.current .source).dir p).2 ⟨hscope, (x.source_dirs_kept hone p).symm.trans hdir⟩
  refine ((hcur' .target).dir p).2 ⟨Job.scope_target, ?_⟩
  rw [hsame.dir]
  by_cases ht : p ∈ (x.listed .target).dirs
  · refine x.dir_kept (x.dir_after_tasks (x.listed_dir ht)) fun hc => ?_
    exact (x.mem_cleanup.1 hc).2.2.2.1 hlisted
  · have htask : mkdirTask p .target ∈ x.pl.tasks :=
      x.mem_mkdir.2 ⟨hne, hlisted, ht, .inr ⟨rfl, hone⟩⟩
    refine x.dir_kept (x.dir_of_mkdir (hd.completed _ htask) (mkdirPath_self hsan _ _)) fun hc => ?_
    exact ht (x.mem_cleanup.1 hc).2.2.1

theorem both_have_dir (hsan : ∀ s name, sanitize s name = name) (hsettles : job.Settles st)
    (htwo : job.direction = .twoWay) (hne : p ≠ [])
    (hp : p ∈ ((listings job course' st').on s).dirs) :
    p ∈ ((listings job course' st').on s.other).dirs := by
  obtain ⟨hr, hdel⟩ := hsettles htwo
  have hscope : ∀ s p, job.Scope s p := fun _ _ => job.scope_of_root hr
  have hagree := fun p => x.presence_agrees (p := p) hd htwo hr hdel
  have hfiles : ∀ s p, (x.after s p).isSome → (x.after s.other p).isSome := by
    intro s p hs
    cases s
    · exact hagree p ▸ hs
    · exact (hagree p).symm ▸ hs
  rw [(hcur' s).dir, hsame.dir] at hp
  refine ((hcur' _).dir p).2 ⟨hscope _ _, ?_⟩
  rw [hsame.dir]
  refine x.dirs_agree hscope htwo hsan hd.completed
    (hdel.imp (fun h => ⟨h, hd.cleans⟩) fun h s p hhere hno hmem => ?_) hfiles p hp.2 hne
  obtain ⟨r, hrow, hdir⟩ := mem_prevDirs_on.1 hmem
  have := h.2 s.other p r hrow hdir hno
  rw [Side.other_other, hhere] at this
  cases this

theorem source_dir_listed (hone : job.direction = .oneWay)
    (hp : p ∈ (prevDirs st'.rows).on .source) : p ∈ ((listings job course' st').on .source).dirs := by
  rw [hsame.rows, x.result_rows hd.commits] at hp
  obtain ⟨r, hr, hdir⟩ := mem_prevDirs_on.1 hp
  rcases (x.of_dir_row hr hdir).1 with hlisted | htask
  · obtain ⟨hscope, hdir⟩ := ((x.current .source).dir p).1 hlisted
    refine ((hcur' .source).dir p).2 ⟨hscope, ?_⟩
    rw [hsame.dir]
    exact (x.source_dirs_kept hone p).trans hdir
  · cases x.oneWay_dest hone htask

end

end Next

/-! Runs on fixed providers. -/

def noFile : Tree := .ofNodes [([], .dir "")] (Eq.refl true)

def someFile : Tree :=
  .ofNodes [([], .dir ""), (["a"], .file { content := [1], hash := "h1" })] (by decide)

def deletingJob : Job :=
  { direction := .twoWay, conflictStrategy := .overwrite, deletePropagation := true }

def newFile : State := { trees := ⟨someFile, noFile⟩, rows := ⟨[], []⟩ }

def newFilePass : Course :=
  { runs := [(uploadTask ["a"] ⟨1, none, "h1", ""⟩ false, .completes { hash := "h1" } "")] }

def newFilePlan : Plan :=
  delta deletingJob (listings deletingJob newFilePass newFile) newFile.rows

def uploaded : State := finishPass deletingJob keepNames newFilePass newFile newFilePlan

def ignoringJob : Job :=
  { direction := .twoWay, conflictStrategy := .overwrite, deletePropagation := false }

/-- Both sides have the file, and then the target loses it. -/
def ignoringHistory : History :=
  (({ st := { trees := ⟨someFile, someFile⟩, rows := ⟨[], []⟩ } } : History).pass ignoringJob
    keepNames {}).edit ignoringJob ⟨someFile, noFile⟩

def ignoringPlan : Plan :=
  delta ignoringJob (listings ignoringJob {} ignoringHistory.st) ignoringHistory.st.rows

def ignored : State :=
  finishPass ignoringJob keepNames {} ignoringHistory.st ignoringPlan

end Clumoove.Sync
