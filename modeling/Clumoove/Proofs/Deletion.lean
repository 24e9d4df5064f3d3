import Clumoove.Sanity.Sync.Directories
import Clumoove.Sanity.Sync.Evaluation
import Clumoove.Sanity.Sync.Rows

/-! Sync deletes what somebody deleted. A deletion is inferred from rows of the baseline and a
listing that lacks the path, so the rows of a path have to mean that a pass had it on both sides,
and a listing that lacks it has to mean that an outside party took it away. A scan of selected
paths only, together with downloads of the whole target directory, breaks the second half. -/

namespace Clumoove.Sync

open PathTree Option

def Job.Decides (job : Job) (s : Side) : Prop := s = .source ∨ job.direction = .twoWay

/-- A pass that commits, or does not take anything away. -/
def Recorded (job : Job) (sanitize : Sanitizer) (course : Course) (st : State) (pl : Plan) : Prop :=
  course.commits = true ∨ ((∀ t, (t, true) ∈ (afterTasks job sanitize course st).done →
        t.action ≠ .delete ∧ t.action ≠ .conflictCopy) ∧
      (afterCleanup job sanitize course st pl).removed = [])

/-- A pass whose listings are current, whose tasks nothing disturbs, whose directories are created
under their names, whose conflict copies are followed by the upload they make room for, and which
records what it takes away. -/
def Careful (job : Job) (sanitize : Sanitizer) (course : Course) (st : State) : Prop :=
  Current job course st ∧ ∀ pl, plan job course st = some pl →
    Undisturbed job sanitize { trees := st.trees } course.runs ∧ Recorded job sanitize course st pl ∧
    (∀ t ∈ pl.tasks, t.action = .mkdir → (t, true) ∈ (afterTasks job sanitize course st).done ∧
      mkdirPath sanitize t.dest (absPath (job.base t.dest) t.filePath)
        = absPath (job.base t.dest) t.filePath) ∧
    ∀ t ∈ pl.tasks, t.prerequisite = true →
      (conflictCopyTask t.filePath, true) ∈ (afterTasks job sanitize course st).done →
      (t, true) ∈ (afterTasks job sanitize course st).done

/-- The rows of a path on which deletions rest: those of a file on every side that decides. -/
def FileRows (job : Job) (rows : Baseline) (p : Path) : Prop :=
  ∀ s, job.Decides s → ∃ r, (rows.on s).get p = some r ∧ r.isDir = false

def DirRow (rows : Baseline) (s : Side) (p : Path) : Prop :=
  ∃ r, (rows.on s).get p = some r ∧ r.isDir = true

/-- The baseline remembers only what a pass had on both sides, and what a side lacks of it was
taken away by an outside party. -/
structure Remembers (job : Job) (h : History) : Prop where
  file : ∀ p, FileRows job h.st.rows p → h.shared (.file p) = true ∧
    ∀ s, job.Decides s → job.Scope s p ∧
      (h.st.holds job s (.file p) = false → h.dropped s (.file p) = true)
  dir : ∀ s p, job.Decides s → p ≠ [] → DirRow h.st.rows s p →
    h.shared (.dir p) = true ∧ job.Scope s p ∧
      (h.st.holds job s (.dir p) = false → h.dropped s (.dir p) = true)

section Observer

variable {job : Job} {h : History} {i : Item} {s : Side}

/-- Who looks at the providers learns which items are on both sides and forgets no deletion of one
that is not. -/
theorem observe_shared (hi : h.shared i = true ∨ h.st.both job i = true) :
    (h.observe job).shared i = true := by
  simpa [History.observe] using hi

theorem observe_dropped (hi : h.st.holds job s i = false) (hd : h.dropped s i = true) :
    (h.observe job).dropped s i = true := by
  have hboth : h.st.both job i = false := by
    cases s <;> simp [State.both, hi]
  simp [History.observe, hd, hboth]

theorem edit_dropped (hi : h.shared i = true)
    (hd : h.st.holds job s i = false → h.dropped s i = true)
    (hgone : State.holds job { h.st with trees := trees } s i = false) :
    (h.edit job trees).dropped s i = true := by
  cases hheld : h.st.holds job s i with
  | false => simp [History.edit, hd hheld]
  | true => simp [History.edit, hi, hheld, hgone]

theorem Remembers.observe (hr : Remembers job h) : Remembers job (h.observe job) where
  file p hp := by
    obtain ⟨hshared, hs⟩ := hr.file p hp
    refine ⟨observe_shared (.inl hshared), fun s hd => ⟨(hs s hd).1, fun hgone => ?_⟩⟩
    exact observe_dropped hgone ((hs s hd).2 hgone)
  dir s p hd hne hp := by
    obtain ⟨hshared, hscope, hdrop⟩ := hr.dir s p hd hne hp
    exact ⟨observe_shared (.inl hshared), hscope, fun hgone => observe_dropped hgone (hdrop hgone)⟩

theorem Remembers.edit (hr : Remembers job h) (trees : Sided Tree) :
    Remembers job (h.edit job trees) where
  file p hp := by
    obtain ⟨hshared, hs⟩ := hr.file p hp
    exact ⟨hshared, fun s hd => ⟨(hs s hd).1, edit_dropped hshared (hs s hd).2⟩⟩
  dir s p hd hne hp := by
    obtain ⟨hshared, hscope, hdrop⟩ := hr.dir s p hd hne hp
    exact ⟨hshared, hscope, edit_dropped hshared hdrop⟩

end Observer

section Pass

variable {job : Job} {sanitize : Sanitizer} {h : History} (x : SmoothPass job sanitize h.st)
variable (hroot : job.direction = .twoWay → [] ∈ job.startPaths .source)
variable (hcareful : Careful job sanitize x.course h.st) {s : Side} {p : Path}

include hcareful in
theorem SmoothPass.kept_of_protected (hprot : p ∈ x.final.protectedPaths)
    (hf : (fileAt job h.st.trees s p).isSome) : (x.after s p).isSome := by
  obtain ⟨-, -, hmkdir, hupload⟩ := hcareful.2 x.pl x.planned
  obtain ⟨f, hf⟩ := isSome_iff_exists.1 hf
  by_contra hgone
  rw [Bool.not_eq_true, isSome_eq_false_iff, isNone_iff_eq_none] at hgone
  obtain ⟨t, hdone, ha, rfl, rfl⟩ := runTasks_lost x.undisturbed hf hgone
  have htouch : t.Touches t.dest t.filePath := by
    refine ⟨?_, rfl, rfl⟩
    rcases ha with ha | ha <;> simp [ha]
  have ht := x.mem_of_done hdone htouch
  rcases ha with ha | ha
  · -- a delete has its path for itself, so nothing protects it
    obtain ⟨t', b, hdone', hpath, hb⟩ := x.protected_cases hprot
    by_cases hmk : t'.action = .mkdir
    · rcases hb with rfl | ⟨hx, -⟩
      · exact x.not_failed_of_done (hmkdir t' (x.task_of_done hdone') hmk).1 hdone'
      · simp [TaskToCreate.isTransfer, hmk] at hx
    · have ht' := x.mem_of_done hdone' ⟨hmk, rfl, hpath⟩
      rcases fileTasks_companion ht (.inr ha) ht' with rfl | ⟨-, hx, -⟩
      · rcases hb with rfl | ⟨hx, -⟩
        · exact x.not_failed_of_done hdone hdone'
        · simp [TaskToCreate.isTransfer, ha] at hx
      · simp [TaskToCreate.isTransfer, ha] at hx
  · -- a conflict copy is followed by its upload
    obtain ⟨-, hcopy, a, hup⟩ := rename_of_copy ht ha
    have := x.present_of_transfer (s := t.dest) hup rfl
      (hupload _ (x.mem_tasks hup) rfl (hcopy ▸ hdone))
    rw [hgone] at this
    cases this

/-- What a pass does to the files and rows, for an observer who looks again at its end. -/
theorem SmoothPass.holds_file : x.result.holds job s (.file p) = (x.after s p).isSome := by
  rw [State.holds, x.result_file]

theorem both_of_holds {st : State} (h₁ : st.holds job s i = true)
    (h₂ : st.holds job s.other i = true) : st.both job i = true := by
  cases s
  · exact Bool.and_eq_true_iff.2 ⟨h₁, h₂⟩
  · exact Bool.and_eq_true_iff.2 ⟨h₂, h₁⟩

include hroot hcareful

theorem file_rows_after (hr : Remembers job h) (hp : FileRows job (newBaseline h.st.rows x.final) p) :
    (h.shared (.file p) = true ∨ x.result.both job (.file p) = true) ∧
    ∀ s, job.Decides s → job.Scope s p ∧ (x.result.holds job s (.file p) = false →
      h.st.holds job s (.file p) = false ∧ h.dropped s (.file p) = true) := by
  by_cases hprot : p ∈ x.final.protectedPaths
  · -- the rows are those before
    have hold : FileRows job h.st.rows p := by
      intro s hs
      obtain ⟨r, hr, hfile⟩ := hp s hs
      rcases file_row_after hr hfile with ⟨-, hr⟩ | ⟨hfree, -⟩
      · exact ⟨r, hr, hfile⟩
      · exact absurd hprot hfree
    obtain ⟨hshared, hsides⟩ := hr.file p hold
    refine ⟨.inl hshared, fun s hs => ⟨(hsides s hs).1, fun hgone => ?_⟩⟩
    rw [x.holds_file] at hgone
    cases hheld : h.st.holds job s (.file p) with
    | false => exact ⟨rfl, (hsides s hs).2 hheld⟩
    | true =>
      rw [x.kept_of_protected hcareful hprot hheld] at hgone
      cases hgone
  · -- the rows are of files that were listed, and those are there
    have hlisted : ∀ s, job.Decides s → ((x.final.scans.on s).files.get p).isSome := by
      intro s hs
      obtain ⟨r, hr, hfile⟩ := hp s hs
      rcases file_row_after hr hfile with ⟨h, -⟩ | ⟨-, fs, hfs, -⟩
      · exact absurd h hprot
      · rw [hfs]
        rfl
    have hheld : ∀ s, job.Decides s → x.result.holds job s (.file p) = true := by
      intro s hs
      rw [x.holds_file]
      exact x.present_of_final_file hprot (hlisted s hs)
    have hgone : ∀ s, job.Decides s → x.result.holds job s (.file p) = false →
        h.st.holds job s (.file p) = false ∧ h.dropped s (.file p) = true := by
      intro s hs hno
      rw [hheld s hs] at hno
      cases hno
    cases hdir : job.direction with
    | twoWay =>
      refine ⟨.inr ?_, fun s hs => ⟨job.scope_of_root (hroot hdir), hgone s hs⟩⟩
      exact both_of_holds (hheld .source (.inr hdir)) (hheld _ (.inr hdir))
    | oneWay =>
      have hsrc := hlisted .source (.inl rfl)
      rw [x.oneWay_source_kept hdir] at hsrc
      have htgt := x.oneWay_present hdir hsrc fun t => x.completed_of_free hprot
      rw [← x.holds_file] at htgt
      refine ⟨.inr (both_of_holds (hheld .source (.inl rfl)) htgt), fun s hs => ⟨?_, hgone s hs⟩⟩
      obtain rfl : s = .source := by
        rcases hs with hs | hs
        · exact hs
        · rw [hdir] at hs
          cases hs
      obtain ⟨a, ha⟩ := isSome_iff_exists.1 hsrc
      exact ((x.current .source).file p a |>.1 ha).1

theorem dir_row_after_pass (hr : Remembers job h) (hs : job.Decides s) (hne : p ≠ [])
    (hp : DirRow (newBaseline h.st.rows x.final) s p) :
    (h.shared (.dir p) = true ∨ h.st.both job (.dir p) = true ∨
      x.result.both job (.dir p) = true) ∧ job.Scope s p ∧
      x.result.holds job s (.dir p) = true := by
  obtain ⟨-, -, hmkdir, -⟩ := hcareful.2 x.pl x.planned
  obtain ⟨r, hr', hdir⟩ := hp
  obtain ⟨hlisted, hkept⟩ := x.of_dir_row hr' hdir
  have hmade : ∀ s, mkdirTask p s ∈ x.pl.tasks → dirAt job x.exec.trees s p = true := by
    intro s hs
    obtain ⟨hdone, hname⟩ := hmkdir _ hs rfl
    exact x.dir_of_mkdir hdone hname
  have hpost : ∀ s, dirAt job x.exec.trees s p = true →
      (⟨p, s⟩ : CleanupCandidate) ∉ x.cleaned.removed → x.result.holds job s (.dir p) = true :=
    fun s hd hkept => x.cleaned_dir.2 ⟨hd, hkept⟩
  have hcandidate : ∀ s, (⟨p, s⟩ : CleanupCandidate) ∈ x.cleaned.removed →
      p ∈ (x.listed s).dirs ∧ p ∈ (prevDirs h.st.rows).on s.other := by
    intro s hmem
    have hc := x.mem_cleanup.1 (cleanup_removed hmem).1
    exact ⟨hc.2.2.1, hc.2.2.2.2.1⟩
  rcases hlisted with hl | htask
  · obtain ⟨hscope, hd⟩ := ((x.current s).dir p).1 hl
    have hhere := hpost s (x.dir_after_tasks hd) hkept
    refine ⟨?_, hscope, hhere⟩
    cases hother : dirAt job h.st.trees s.other p with
    | true => exact .inr (.inl (both_of_holds hd hother))
    | false =>
      have hlacks : p ∉ (x.listed s.other).dirs := by
        intro hmem
        rw [x.listed_dir hmem] at hother
        cases hother
      by_cases hprev : job.direction = .twoWay ∧ p ∈ (prevDirs h.st.rows).on s.other
      · exact .inl (hr.dir s.other p (.inr hprev.1) hne (mem_prevDirs_on.1 hprev.2)).1
      · -- the other side gets the directory in this pass
        have htask : mkdirTask p s.other ∈ x.pl.tasks := by
          refine x.mem_mkdir.2 ⟨hne, by rwa [Side.other_other], hlacks, ?_⟩
          cases hdir : job.direction with
          | twoWay => exact .inl ⟨fun hmem => hprev ⟨hdir, hmem⟩, rfl⟩
          | oneWay =>
            rcases hs with rfl | hs
            · exact .inr ⟨rfl, rfl⟩
            · rw [hdir] at hs
              cases hs
        have hthere := hpost s.other (hmade _ htask) fun hmem => hlacks (hcandidate _ hmem).1
        exact .inr (.inr (both_of_holds hhere hthere))
  · have hhere := hpost s (hmade s htask) hkept
    obtain ⟨-, hl, -, ⟨hprev, htwo⟩ | ⟨rfl, hone⟩⟩ := x.mem_mkdir.1 htask
    · refine ⟨.inr (.inr (both_of_holds hhere ?_)), job.scope_of_root (hroot htwo), hhere⟩
      refine hpost s.other (x.dir_after_tasks (x.listed_dir hl)) fun hmem => hprev ?_
      have := (hcandidate _ hmem).2
      rwa [Side.other_other] at this
    · rcases hs with hs | hs
      · cases hs
      · rw [hone] at hs
        cases hs

theorem Remembers.finishPass (hr : Remembers job h) : Remembers job (x.seen.observe job) := by
  have hr' := hr.observe
  by_cases hcommits : x.course.commits = true
  · have hrows := x.result_rows hcommits
    refine ⟨fun p hp => ?_, fun s p hs hne hp => ?_⟩
    · have hp : FileRows job x.result.rows p := hp
      rw [hrows] at hp
      obtain ⟨hshared, hsides⟩ := file_rows_after x hroot hcareful hr hp
      refine ⟨observe_shared (hshared.imp_left fun h => observe_shared (.inl h)), fun s hs => ?_⟩
      refine ⟨(hsides s hs).1, fun hgone => observe_dropped hgone ?_⟩
      obtain ⟨hpre, hdrop⟩ := (hsides s hs).2 hgone
      exact observe_dropped hpre hdrop
    · have hp : DirRow x.result.rows s p := hp
      rw [hrows] at hp
      obtain ⟨hshared, hscope, hheld⟩ := dir_row_after_pass x hroot hcareful hr hs hne hp
      refine ⟨observe_shared ?_, hscope, fun hgone => absurd hheld (Bool.eq_false_iff.1 hgone)⟩
      rcases hshared with h | h | h
      · exact .inl (observe_shared (.inl h))
      · exact .inl (observe_shared (.inr h))
      · exact .inr h
  · -- the rows are as they were, and nothing was taken away
    have hrows : x.result.rows = h.st.rows := if_neg hcommits
    obtain ⟨hfiles, hdirs⟩ := (hcareful.2 x.pl x.planned).2.1.resolve_left hcommits
    refine ⟨fun p hp => ?_, fun s p hs hne hp => ?_⟩
    · have hp : FileRows job x.result.rows p := hp
      rw [hrows] at hp
      obtain ⟨hshared, hsides⟩ := hr'.file p hp
      refine ⟨observe_shared (.inl hshared), fun s hs => ⟨(hsides s hs).1, fun hgone => ?_⟩⟩
      refine observe_dropped hgone ((hsides s hs).2 ?_)
      have hgone : x.result.holds job s (.file p) = false := hgone
      rw [x.holds_file, isSome_eq_false_iff, isNone_iff_eq_none] at hgone
      change (fileAt job h.st.trees s p).isSome = false
      cases hf : fileAt job h.st.trees s p with
      | none => rfl
      | some f =>
        obtain ⟨t, hdone, ha | ha, -⟩ := runTasks_lost x.undisturbed hf hgone
        · exact absurd ha (hfiles t hdone).1
        · exact absurd ha (hfiles t hdone).2
    · have hp : DirRow x.result.rows s p := hp
      rw [hrows] at hp
      obtain ⟨hshared, hscope, hdrop⟩ := hr'.dir s p hs hne hp
      refine ⟨observe_shared (.inl hshared), hscope, fun hgone => observe_dropped hgone (hdrop ?_)⟩
      refine Bool.eq_false_iff.2 fun hd => Bool.eq_false_iff.1 hgone ?_
      have hkept : (⟨p, s⟩ : CleanupCandidate) ∉ x.cleaned.removed := by simp [hdirs]
      exact x.cleaned_dir.2 ⟨x.dir_after_tasks hd, hkept⟩

end Pass

section Run

variable {job : Job} {sanitize : Sanitizer} {h : History}

theorem Reaches.remembers (hroot : job.direction = .twoWay → [] ∈ job.startPaths .source)
    (hrun : Reaches job sanitize (Careful job sanitize) h) : Remembers job h := by
  induction hrun with
  | start trees =>
    refine ⟨fun p hp => ?_, fun s p _ _ hp => ?_⟩
    · obtain ⟨r, hr, -⟩ := hp .source (.inl rfl)
      cases hr
    · obtain ⟨r, hr, -⟩ := hp
      cases s <;> cases hr
  | edit trees _ ih => exact ih.edit trees
  | @pass h course _ hfit hok ih =>
    unfold History.pass runSyncPass
    cases hpl : plan job course h.st with
    | none => exact ih.observe.observe
    | some pl => exact ih.finishPass ⟨⟨course, pl, hpl, hfit pl hpl, hok.1⟩, (hok.2 pl hpl).1⟩ hroot hok

end Run

/-! Runs on fixed providers. -/

/-- A pass of a job on providers without ETags that commits, creates no directory and makes no
conflict copy is careful. -/
theorem careful_of_untagged (htag : ∀ s, untagged (st.trees.on s) = true)
    (herr : ∀ s, (traversal job course st s).indexErrors = []) (hcommits : course.commits = true)
    (hu : Undisturbed job sanitize { trees := st.trees } course.runs)
    (htasks : ∀ t ∈ (delta job (listings job course st) st.rows).tasks,
      t.action ≠ .mkdir ∧ t.prerequisite = false) : Careful job sanitize course st := by
  refine ⟨current_of_untagged htag (plan_of_no_errors _ _ _ herr), fun pl hpl =>
    ⟨hu, .inl hcommits, fun t ht ha => ?_, fun t ht ha => ?_⟩⟩
  · rw [plan_eq hpl] at ht
    exact absurd ha (htasks t ht).1
  · rw [plan_eq hpl] at ht
    rw [(htasks t ht).2] at ha
    cases ha

def xFile : File := { content := [1], hash := "h1" }

def withoutX : Tree := .ofNodes [([], .dir ""), (["s"], .dir "")] (by decide)

def withX : Tree :=
  .ofNodes [([], .dir ""), (["s"], .dir ""), (["x"], .file xFile)] (by decide)

def wholeJob : Job :=
  { direction := .twoWay, conflictStrategy := .overwrite, deletePropagation := true }

def lossHistory : History :=
  (({ st := { trees := ⟨withX, withX⟩, rows := ⟨[], []⟩ } } : History).pass wholeJob
    keepNames {}).edit wholeJob ⟨withoutX, withX⟩

def scopedJob : Job := { wholeJob with selectedPaths := [["s"]] }

def downloadPass : Course :=
  { runs := [(downloadTask ["x"] xFile.state, .completes { hash := "h1" } "")] }

/-- The target has a file that is not below the selected directory. -/
def scopedHistory : History :=
  ({ st := { trees := ⟨withoutX, withX⟩, rows := ⟨[], []⟩ } } : History).pass scopedJob
    keepNames downloadPass

end Clumoove.Sync
