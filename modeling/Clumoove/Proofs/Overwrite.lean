import Clumoove.Sanity.Sync.Evaluation
import Clumoove.Sanity.Sync.Hashes
import Clumoove.Sanity.Sync.Rows

/-! Two-way sync replaces a version of a file only if the baseline describes it, and the baseline
describes the version both sides had last in common. A skipped conflict breaks the second half: its
two versions become the baseline although the sides never had the same. -/

namespace Clumoove.Sync

open PathTree List Option

variable (digest : List UInt8 → String)

/-- The row of a side describes the content both sides had last, and a side without a row has had
something else since. -/
def Tracks (s : Side) (common : Option (List UInt8)) (diverged : Bool) : Option Row → Prop
  | some r => ∃ c, common = some c ∧ r.Describes digest s c
  | none => common.isSome → diverged = true

def Informed (h : History) : Prop :=
  ∀ s p, Tracks digest s (h.common p) (h.diverged s p) ((prevFiles (h.st.rows.on s)).get p)

variable (job : Job)

/-- The sides agree only on what their rows describe. -/
def AgreesOnRows (st : State) : Prop :=
  ∀ p c, st.agreed job p = some c → ∀ s, ∃ r, (prevFiles (st.rows.on s)).get p = some r ∧
    r.Describes digest s c

/-- A pass that is recorded: its listings are current, files have the hashes of their contents, the
providers answer for what was transferred, nothing disturbs the tasks, the names of conflict copies
are new, no path is a file and a directory, and the baseline is written. -/
structure Recording (job : Job) (sanitize : Sanitizer) (digest : List UInt8 → String)
    (course : Course) (st : State) : Prop where
  clash : NoClash job st
  hashed : Hashed digest job st.trees
  hashedAfter : Hashed digest job (runSyncPass job sanitize course st).trees
  current : Current job course st
  inspects : ∀ p, course.inspects p = true
  undisturbed : Undisturbed job sanitize { trees := st.trees } course.runs
  fresh : ∀ run ∈ course.runs, ∀ p, Lands job run p → ∀ s, ¬ st.KnowsFile job s p
  listed : (plan job course st).isSome
  commits : course.commits = true

/-- A pass that is recorded, or one that is not and sees no agreement the rows do not describe. -/
def Watchful (sanitize : Sanitizer) (digest : List UInt8 → String) (course : Course) (st : State) : Prop :=
  Recording job sanitize digest course st ∨
    ((plan job course st = none ∨ course.commits = false) ∧ AgreesOnRows digest job st ∧
      AgreesOnRows digest job (runSyncPass job sanitize course st))

def Decided (course : Course) (st : State) : Prop :=
  job.conflictStrategy = .overwrite ∨ job.conflictStrategy = .rename ∨
    ∀ p, ¬ ((entry (listings job course st) st.rows p).srcModified = true ∧
      (entry (listings job course st) st.rows p).tgtModified = true)

section Observer

variable {job : Job} {digest : List UInt8 → String} {h : History} {s : Side} {p : Path}
variable {c : List UInt8} {f : File}

theorem agreed_eq_some {st : State} :
    st.agreed job p = some c ↔ ∀ s, st.content job s p = some c := by
  have hsides : (∀ s, st.content job s p = some c) ↔
      st.content job .source p = some c ∧ st.content job .target p = some c :=
    ⟨fun h => ⟨h _, h _⟩, fun h s => by cases s <;> [exact h.1; exact h.2]⟩
  rw [hsides]
  unfold State.agreed
  cases st.content job .source p <;> cases st.content job .target p <;> simp
  constructor <;> rintro ⟨rfl, rfl⟩ <;> exact ⟨rfl, rfl⟩

theorem agreed_eq_none_of {st : State} (h : st.content job s p = none) :
    st.agreed job p = none := by
  refine eq_none_iff_forall_ne_some.2 fun c hc => ?_
  rw [agreed_eq_some.1 hc s] at h
  cases h

theorem observe_common_of_none (ha : h.st.agreed job p = none) :
    (h.observe job).common p = h.common p := by
  simp [History.observe, ha]

theorem observe_common_of_some (ha : h.st.agreed job p = some c) :
    (h.observe job).common p = some c := by
  simp [History.observe, ha]

theorem observe_diverged (ha : h.st.agreed job p = none) : (h.observe job).diverged s p = true ↔
    h.diverged s p = true ∨ h.st.content job s p ≠ h.common p := by
  simp [History.observe, ha]

theorem Tracks.observe (ha : h.st.agreed job p = none)
    (ht : Tracks digest s (h.common p) (h.diverged s p) row) :
    Tracks digest s ((h.observe job).common p) ((h.observe job).diverged s p) row := by
  rw [observe_common_of_none ha]
  cases row with
  | some r => exact ht
  | none => exact fun hsome => (observe_diverged ha).2 (.inl (ht hsome))

/-- A row written from what the provider has keeps in step, if a file that is there is the common
version. -/
theorem tracks_of_file (hhash : ∀ f, fileAt job h.st.trees s p = some f → f.Hashed digest)
    (hcommon : ∀ f, fileAt job h.st.trees s p = some f →
      (h.observe job).common p = some f.content) :
    Tracks digest s ((h.observe job).common p) ((h.observe job).diverged s p)
      ((fileAt job h.st.trees s p).map (·.state.row s)) := by
  cases hf : fileAt job h.st.trees s p with
  | some f => exact ⟨f.content, hcommon f hf, (hhash f hf).describes s⟩
  | none =>
    have hnone : h.st.content job s p = none := by rw [State.content, hf]; rfl
    have ha := agreed_eq_none_of hnone
    intro hsome
    rw [observe_common_of_none ha] at hsome
    refine (observe_diverged ha).2 (.inr fun heq => ?_)
    rw [← heq, hnone] at hsome
    cases hsome

theorem Informed.observe (hi : Informed digest h) (ha : AgreesOnRows digest job h.st) :
    Informed digest (h.observe job) := by
  intro s p
  cases hag : h.st.agreed job p with
  | none => exact (hi s p).observe hag
  | some c =>
    obtain ⟨r, hr, hdesc⟩ := ha p c hag s
    change Tracks digest s _ _ ((prevFiles (h.st.rows.on s)).get p)
    rw [hr]
    exact ⟨c, observe_common_of_some hag, hdesc⟩

variable (hinj : Function.Injective digest)
include hinj

theorem common_of_unmodified (ht : Tracks digest s common d row) (hf : f.Hashed digest)
    (hm : row.elim true (isFileModified f.state · s) = false) : common = some f.content := by
  cases row with
  | none => cases hm
  | some r =>
    obtain ⟨c, rfl, hdesc⟩ := ht
    have hm : ¬ isFileModified f.state r s = true := by simpa using hm
    rw [modified_iff hinj hf hdesc, not_not] at hm
    rw [hm]

theorem diverged_of_modified
    (ht : Tracks digest s (h.common p) (h.diverged s p) ((prevFiles (h.st.rows.on s)).get p))
    (hf : fileAt job h.st.trees s p = some f) (hhash : f.Hashed digest)
    (ha : h.st.agreed job p = none)
    (hm : changed File.state (fun s => (prevFiles (h.st.rows.on s)).get p) s f = true) :
    (h.observe job).diverged s p = true := by
  have hcontent : h.st.content job s p = some f.content := by rw [State.content, hf]; rfl
  rw [observe_diverged ha, hcontent]
  cases hrow : (prevFiles (h.st.rows.on s)).get p with
  | none =>
    rw [hrow] at ht
    cases hc : h.common p with
    | none => exact .inr nofun
    | some c => exact .inl (ht (by rw [hc]; rfl))
  | some r =>
    rw [changed, hrow] at hm
    rw [hrow] at ht
    obtain ⟨c, hc, hdesc⟩ := ht
    rw [hc]
    exact .inr fun heq => (modified_iff hinj hhash hdesc).1 hm (Option.some.inj heq)

end Observer

/-- What makes it right to replace a version: both sides had it last, or both have changed since and
the strategy overwrites, or a conflict copy keeps it. -/
def Warranted (h : History) (tasks : List TaskToCreate) (t : TaskToCreate) (v : List UInt8) : Prop :=
  h.common t.filePath = some v ∨ (job.conflictStrategy = .overwrite ∧ t.action = .upload ∧
      ∀ s, h.diverged s t.filePath = true) ∨
    (t.prerequisite = true ∧ conflictCopyTask t.filePath ∈ tasks)

/-! The tasks of a path, for an informed baseline. -/

section Tasks

variable {job : Job} {sanitize : Sanitizer} {digest : List UInt8 → String} {h : History} {p : Path}
variable {t : TaskToCreate} {f g : File}

theorem content_of_file (hf : fileAt job h.st.trees s p = some f) :
    h.st.content job s p = some f.content := by
  rw [State.content, hf]
  rfl

theorem agreed_of_files (hf : fileAt job h.st.trees .source p = some f)
    (hg : fileAt job h.st.trees .target p = some g) (heq : f.content = g.content) :
    h.st.agreed job p = some f.content := by
  refine agreed_eq_some.2 fun s => ?_
  cases s with
  | source => exact content_of_file hf
  | target =>
    rw [heq]
    exact content_of_file hg

theorem warranted_of_conflict
    (ht : t ∈ conflictTasks job.conflictStrategy p a) (ha : t.isTransfer = true ∨ t.action = .delete)
    (hsub : ∀ t ∈ conflictTasks job.conflictStrategy p a, t ∈ tasks)
    (hdiv : ∀ s, h.diverged s p = true) : Warranted job h tasks t v := by
  unfold conflictTasks at ht hsub
  split at ht
  · next hs =>
    obtain rfl := mem_singleton.1 ht
    exact .inr (.inl ⟨hs, rfl, hdiv⟩)
  · cases ht
  · next hs =>
    rw [hs] at hsub
    rcases mem_cons.1 ht with rfl | ht
    · simp [TaskToCreate.isTransfer, conflictCopyTask] at ha
    · obtain rfl := mem_singleton.1 ht
      exact .inr (.inr ⟨rfl, hsub _ mem_cons_self⟩)
  · cases ht

section

variable (x : Pass job sanitize h.st) (hinj : Function.Injective digest)
variable (htwo : job.direction = .twoWay) (hscope : ∀ s p, job.Scope s p)
variable (hhash : Hashed digest job h.st.trees) (hi : Informed digest h)
include hinj htwo hscope hhash

theorem disagreed_of_task (ht : t ∈ x.tasksAt p) : h.st.agreed job p = none := by
  refine eq_none_iff_forall_ne_some.2 fun c hc => ?_
  obtain ⟨f, hf, hfc⟩ := map_eq_some_iff.1 (agreed_eq_some.1 hc .source)
  obtain ⟨g, hg, hgc⟩ := map_eq_some_iff.1 (agreed_eq_some.1 hc .target)
  have hmatch := (matching_iff hinj (hhash _ _ _ hf) (hhash _ _ _ hg)).2 (hfc.trans hgc.symm)
  rw [x.tasksAt_twoWay htwo hscope, hf, hg, map_some, map_some, twoWayTasks_both,
    if_pos hmatch] at ht
  cases ht

include hi

theorem warranted_of_task (ht : t ∈ x.tasksAt p)
    (ha : t.isTransfer = true ∨ t.action = .delete) (hv : h.st.content job t.dest p = some v) :
    Warranted job (h.observe job) (x.tasksAt p) t v := by
  have hpath := (of_mem_fileTasks ht).1
  have hag := disagreed_of_task x hinj htwo hscope hhash ht
  have hcommon : ∀ s f, fileAt job h.st.trees s p = some f → t.dest = s →
      changed File.state (fun s => (prevFiles (h.st.rows.on s)).get p) s f = false →
      Warranted job (h.observe job) (x.tasksAt p) t v := by
    intro s f hf hs hm
    left
    rw [hs, content_of_file hf] at hv
    rw [hpath, observe_common_of_none hag, ← hv]
    exact common_of_unmodified hinj (hi s p) (hhash s p f hf) hm
  have hdiverged : ∀ s f, fileAt job h.st.trees s p = some f →
      changed File.state (fun s => (prevFiles (h.st.rows.on s)).get p) s f = true →
      (h.observe job).diverged s p = true :=
    fun s f hf hm => diverged_of_modified hinj (hi s p) hf (hhash s p f hf) hag hm
  have habsent : ∀ s, fileAt job h.st.trees s p = none → t.dest ≠ s := by
    rintro s hs rfl
    rw [State.content, hs] at hv
    cases hv
  have hshape := x.twoWay_cases (p := p) htwo hscope
  generalize x.tasksAt p = l at hshape ht hcommon ⊢
  cases hshape with
  | absent => cases ht
  | lone hf hnone =>
    split_ifs at ht hcommon ⊢ with hm
    · rw [mem_singleton.1 ht] at habsent
      exact absurd transferTask_dest (habsent _ hnone)
    · rw [Bool.or_eq_true, not_or, Bool.not_eq_true] at hm
      exact hcommon _ _ hf (by rw [mem_singleton.1 ht]; rfl) hm.1
    · cases ht
  | both hf hg =>
    split_ifs at ht hcommon ⊢ with hmatch hboth hsrc htgt
    · cases ht
    · rw [Bool.and_eq_true] at hboth
      refine warranted_of_conflict ht ha (fun _ ht => ht) fun s => ?_
      cases s with
      | source => exact hdiverged .source _ hf hboth.1
      | target => exact hdiverged .target _ hg hboth.2
    · rw [hsrc, Bool.true_and, Bool.not_eq_true] at hboth
      exact hcommon .target _ hg (by rw [mem_singleton.1 ht]; rfl) hboth
    · exact hcommon .source _ hf (by rw [mem_singleton.1 ht]; rfl) (Bool.not_eq_true _ ▸ hsrc)
    · cases ht

theorem common_of_no_tasks (hdec : Decided job x.course h.st) (hnil : x.tasksAt p = [])
    {s : Side} (hs : fileAt job h.st.trees s p = some f) :
    (h.observe job).common p = some f.content := by
  have hcommon : ∀ s f, fileAt job h.st.trees s p = some f →
      changed File.state (fun s => (prevFiles (h.st.rows.on s)).get p) s f = false →
      h.common p = some f.content :=
    fun s f hf hm => common_of_unmodified hinj (hi s p) (hhash s p f hf) hm
  have hshape := x.twoWay_cases (p := p) htwo hscope
  generalize x.tasksAt p = l at hshape hnil
  cases hshape with
  | absent hnone =>
    rw [hnone] at hs
    cases hs
  | @lone s' f' hf hnone =>
    split_ifs at hnil with hm
    rw [Bool.or_eq_true, not_or, Bool.not_eq_true] at hm
    obtain rfl | rfl := Side.eq_or_other s' s
    · rw [observe_common_of_none (agreed_eq_none_of (s := s.other) (by rw [State.content, hnone]; rfl))]
      exact hcommon _ _ hs (by cases hf.symm.trans hs; exact hm.1)
    · rw [hnone] at hs
      cases hs
  | @both f' g hf hg =>
    have heq : f'.content = g.content := by
      by_cases hmatch : isFileMatchingTarget f'.state g.state = true
      · exact (matching_iff hinj (hhash _ _ _ hf) (hhash _ _ _ hg)).1 hmatch
      split_ifs at hnil with hboth hsrc htgt
      · -- a conflict that nobody decides
        rcases hdec with hs | hs | hdec
        · rw [hs] at hnil
          cases hnil
        · rw [hs] at hnil
          cases hnil
        · refine absurd ?_ (hdec p)
          rw [Bool.not_eq_true] at hmatch
          rw [x.entry_current hscope p, hf, hg, map_some, map_some,
            Entry.srcModified_eq (by exact hmatch), Entry.tgtModified_eq (by exact hmatch)]
          exact Bool.and_eq_true_iff.1 hboth
      · rw [Bool.not_eq_true] at hsrc htgt
        exact Option.some.inj ((hcommon _ _ hf hsrc).symm.trans (hcommon _ _ hg htgt))
    have hag := agreed_of_files hf hg heq
    rw [observe_common_of_some hag, ← agreed_eq_some.1 hag s, content_of_file hs]

end

end Tasks

section Pass

variable {job : Job} {sanitize : Sanitizer} {digest : List UInt8 → String} {st : State} {p : Path}
variable {t t' : TaskToCreate}

theorem no_transfer_of_failed (x : SmoothPass job sanitize st) (ht : t ∈ x.tasksAt p)
    (hfail : (t, false) ∈ x.exec.done) (ht' : t' ∈ x.tasksAt p) (hx : t'.isTransfer = true) :
    (t', true) ∉ x.exec.done := by
  intro hdone
  rcases fileTasks_companion ht' (.inl hx) ht with rfl | ⟨rfl, -, hpre⟩
  · exact x.not_failed_of_done hdone hfail
  · refine x.not_failed_of_done ?_ hfail
    rw [← (of_mem_fileTasks ht').1]
    exact prerequisite_done x.undisturbed x.runs_nodup hdone hpre

theorem disagreed_of_failed (x : SmoothPass job sanitize st)
    (hclear : ∀ s, Clear job x.course.runs s p) (ht : t ∈ x.tasksAt p)
    (hfail : (t, false) ∈ x.exec.done) (hag : st.agreed job p = none) :
    x.result.agreed job p = none := by
  refine eq_none_iff_forall_ne_some.2 fun c hc => ?_
  have hbefore : st.agreed job p = some c := by
    refine agreed_eq_some.2 fun s => ?_
    obtain ⟨f, hf, rfl⟩ := map_eq_some_iff.1 (agreed_eq_some.1 hc s)
    rw [x.result_file] at hf
    have hkept : fileAt job st.trees s p = some f := by
      refine runTasks_before x.undisturbed (hclear s) (fun t' hdone hx ⟨hs, hp⟩ => ?_) hf
      refine no_transfer_of_failed x ht hfail (x.mem_of_done hdone ⟨fun hmk => ?_, hs, hp⟩) hx hdone
      simp [TaskToCreate.isTransfer, hmk] at hx
    rw [State.content, hkept]
    rfl
  rw [hag] at hbefore
  cases hbefore

section

variable {h : History} (x : SmoothPass job sanitize h.st) (hinj : Function.Injective digest)
variable (htwo : job.direction = .twoWay) (hroot : [] ∈ job.startPaths .source)
variable (hi : Informed digest h) (hdec : Decided job x.course h.st)
include hinj htwo hroot hi hdec

theorem common_of_completed (hhash : Hashed digest job h.st.trees)
    (hclear : ∀ s, Clear job x.course.runs s p) (hall : ∀ t ∈ x.tasksAt p, (t, true) ∈ x.exec.done)
    (hf : fileAt job x.result.trees s p = some f) :
    (x.seen.observe job).common p = some f.content := by
  have hscope : ∀ s p, job.Scope s p := fun _ _ => job.scope_of_root hroot
  have hcontent : x.result.content job s p = some f.content := by
    rw [State.content, hf]
    rfl
  cases hag : x.result.agreed job p with
  | some c =>
    rw [observe_common_of_some (h := x.seen) hag, ← hcontent]
    exact (agreed_eq_some.1 hag s).symm
  | none =>
    rw [observe_common_of_none (h := x.seen) hag]
    rw [x.result_file] at hf
    rcases x.completed_cases hscope hclear hall with ⟨c, hc⟩ | hgone | ⟨hnil, hsame⟩
    · have hagreed : x.result.agreed job p = some c := by
        refine agreed_eq_some.2 fun s => ?_
        rw [State.content, x.result_file]
        exact hc s
      rw [hag] at hagreed
      cases hagreed
    · rw [hgone s] at hf
      cases hf
    · rw [hsame] at hf
      exact common_of_no_tasks x.toPass hinj htwo hscope hhash hi hdec hnil hf

theorem Informed.finishPass (hrec : Recording job sanitize digest x.course h.st) :
    Informed digest (x.seen.observe job) := by
  have hhash' : Hashed digest job x.result.trees := by
    have := hrec.hashedAfter
    rwa [runSyncPass, x.planned] at this
  have hscope : ∀ s p, job.Scope s p := fun _ _ => job.scope_of_root hroot
  have hrows := x.result_rows hrec.commits
  intro s p
  change Tracks digest s _ _ ((prevFiles (x.result.rows.on s)).get p)
  -- where the row stays and nobody sees an agreement, nothing changes
  have hsame : h.st.agreed job p = none → x.result.agreed job p = none →
      (prevFiles (x.result.rows.on s)).get p = (prevFiles (h.st.rows.on s)).get p →
      Tracks digest s ((x.seen.observe job).common p) ((x.seen.observe job).diverged s p)
        ((prevFiles (x.result.rows.on s)).get p) := by
    intro h₁ h₂ hrow
    rw [hrow]
    exact Tracks.observe (h := x.seen) h₂ ((hi s p).observe h₁)
  by_cases hknown : ∃ s, h.st.KnowsFile job s p
  · obtain ⟨s₀, hs₀⟩ := hknown
    have hclear : ∀ s, Clear job x.course.runs s p :=
      fun s => .inr fun run hrun hlands => hrec.fresh run hrun p hlands s₀ hs₀
    have hnodir : ∀ s, ¬ h.st.KnowsDir job s p := fun s hs => hrec.clash p s₀ s ⟨hs₀, hs⟩
    by_cases hprot : p ∈ x.final.protectedPaths
    · obtain ⟨t, rfl, hfail⟩ := x.failed_of_protected hrec.inspects hprot
      have ht := x.mem_of_done (s := t.dest) hfail ⟨fun hmk => ?_, rfl, rfl⟩
      · have hag := disagreed_of_task x.toPass hinj htwo hscope hrec.hashed ht
        refine hsame hag (disagreed_of_failed x hclear ht hfail hag) ?_
        rw [hrows, x.file_row_kept hnodir hprot]
      · obtain ⟨s', hs'⟩ := x.knowsDir_of_mkdir (x.task_of_done hfail) hmk
        exact hnodir s' hs'
    · have hnew : (prevFiles (x.result.rows.on s)).get p
          = (fileAt job x.result.trees s p).map (·.state.row s) := by
        rw [hrows, x.file_row_after_tasks hnodir hprot (hscope s p) (hclear s), x.result_file]
      rw [hnew]
      refine tracks_of_file (hhash' s p) fun f hf => ?_
      exact common_of_completed x hinj htwo hroot hi hdec hrec.hashed hclear
        (fun t => x.completed_of_free hprot) hf
  · -- a path without a file or row
    have hnofile : ∀ s, ¬ h.st.KnowsFile job s p := fun s hs => hknown ⟨s, hs⟩
    have hnone : ∀ s, fileAt job h.st.trees s p = none := by
      intro s
      cases hf : fileAt job h.st.trees s p with
      | none => rfl
      | some f => exact absurd (.inl (by rw [hf]; rfl)) (hnofile s)
    have htasks : x.tasksAt p = [] := by
      rw [x.tasksAt_twoWay htwo hscope, hnone, hnone]
      exact twoWayTasks_none
    refine hsame (agreed_eq_none_of (s := .source) ?_) (agreed_eq_none_of (s := .source) ?_) ?_
    · rw [State.content, hnone]
      rfl
    · rw [State.content, x.result_file, x.file_untouched (.inl rfl) (by simp [htasks]), hnone]
      rfl
    · rw [hrows, x.no_file_row hnofile, eq_comm]
      refine eq_none_iff_forall_ne_some.2 fun r hr => hnofile s (.inr ⟨r, ?_⟩)
      exact prevFiles_eq_some.1 hr

end

end Pass

section Run

variable {job : Job} {sanitize : Sanitizer} {digest : List UInt8 → String} {h : History}

theorem Reaches.informed (hinj : Function.Injective digest) (htwo : job.direction = .twoWay)
    (hroot : [] ∈ job.startPaths .source)
    (hrun : Reaches job sanitize (fun course st => Watchful job sanitize digest course st ∧
      Decided job course st) h) : Informed digest h := by
  induction hrun with
  | start trees =>
    intro s p
    cases s <;> exact nofun
  | edit trees _ ih => exact ih
  | @pass h course _ hfit hok ih =>
    obtain ⟨hrec | ⟨hkept, hbefore, hafter⟩, hdec⟩ := hok
    · obtain ⟨pl, hpl⟩ := isSome_iff_exists.1 hrec.listed
      unfold History.pass runSyncPass
      rw [hpl]
      exact Informed.finishPass ⟨⟨course, pl, hpl, hfit pl hpl, hrec.current⟩, hrec.undisturbed⟩ hinj htwo hroot
        ih hdec hrec
    · -- the rows are as they were
      have hrows : (runSyncPass job sanitize course h.st).rows = h.st.rows := by
        unfold runSyncPass
        cases hpl : plan job course h.st with
        | none => rfl
        | some pl =>
          refine if_neg ?_
          rw [hkept.resolve_left (by simp [hpl])]
          exact nofun
      refine Informed.observe (fun s p => ?_) hafter
      rw [hrows]
      exact ih.observe hbefore s p

end Run

/-! Runs on fixed providers. -/

instance (job : Job) (h : History) (tasks : List TaskToCreate) (t : TaskToCreate)
    (v : List UInt8) : Decidable (Warranted job h tasks t v) := by
  unfold Warranted
  infer_instance

/-- A pass of a job on providers without ETags that has nothing to do is recorded. -/
theorem recording_of_untagged {job : Job} {sanitize : Sanitizer} {digest : List UInt8 → String}
    {st : State} (hclash : NoClash job st) (hhash : Hashed digest job st.trees)
    (hhash' : Hashed digest job (runSyncPass job sanitize {} st).trees)
    (htag : ∀ s, untagged (st.trees.on s) = true)
    (herr : ∀ s, (traversal job {} st s).indexErrors = [])
    (hu : Undisturbed job sanitize { trees := st.trees } []) :
    Recording job sanitize digest {} st where
  clash := hclash
  hashed := hhash
  hashedAfter := hhash'
  current := current_of_untagged htag (plan_of_no_errors _ _ _ herr)
  inspects _ := rfl
  undisturbed := hu
  fresh run hrun := nomatch hrun
  listed := by
    rw [plan_of_no_errors _ _ _ herr]
    rfl
  commits := rfl

def holding (content : List UInt8) : Tree :=
  .ofNodes [([], .dir ""), (["a"], .file (hexFile content))] rfl

def conflictJob (strategy : ConflictStrategy) : Job :=
  { direction := .twoWay, conflictStrategy := strategy, deletePropagation := true }

def editedHistory (source target edited : List UInt8) : History :=
  (({ st := { trees := ⟨holding source, holding target⟩, rows := ⟨[], []⟩ } } : History).pass job
    keepNames {}).edit job ⟨holding edited, holding target⟩

def replacingHistory : History := editedHistory (conflictJob .overwrite) [1] [1] [2]

def skippingHistory : History := editedHistory (conflictJob .skip) [1] [2] [3]

end Clumoove.Sync
