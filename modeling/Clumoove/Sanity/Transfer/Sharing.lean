import Clumoove.Sanity.Transfer.Calls

/-! Several tasks over the same accounts. A set of transfers is orderly if no other task works under
their names, with one exception: tasks that ask before they write may share a target, whose lock
then keeps them apart. What each of them needs, and that every step of any task leaves it so. -/

namespace Clumoove.Transfer

open Sync

variable {k : Migration × Text} {l : Location} {lib : GoLib} {job : Job} {a : Accounts}
  {stored : Text}

def Migration.asksFirst (mig : Migration) : Bool :=
  !mig.targetProvider.nativeDuplicates &&
    (mig.conflictStrategy = .rename || mig.conflictStrategy = .skip)

namespace Job

def asksFirst : Job → Bool
  | .migration mig _ => mig.asksFirst
  | .sync _ _ => false

def stages : Job → Bool
  | .migration mig task => task.overwrites mig false && mig.targetProvider.supportsAtomicRename
  | .sync job task => (job.provider task.dest).supportsAtomicRename

def Transfers : Job → Prop
  | .migration _ task => task.resourceType = .files ∧
      ∀ metadata, task.metadata = some metadata → task.isDirectory metadata = false
  | .sync _ task => task.action = .upload ∨ task.action = .download

def final (job : Job) (row : Row) : Option Text :=
  match job with
  | .migration _ _ => if row.resolved = [] then none else some row.resolved
  | .sync job task => some (job.path task.dest task.filePath)

/-- What tasks have in common whose targets are guarded by the same lock. -/
def slot (lib : GoLib) : Job → Option (Migration × Text)
  | .migration mig task =>
    match task.metadata with
    | none => none
    | some metadata =>
      if mig.asksFirst ∧ task.target lib mig metadata ≠ ['/'] then
        some (mig, task.target lib mig metadata)
      else none
  | .sync _ _ => none

def Place (a : Accounts) (job : Job) (p : Text) (l : Location) : Prop :=
  l = a.locate job.dest p ∨ job.stages = true ∧ (l = a.locate job.dest (stagingPath p) ∨
      l = a.locate job.dest (overwriteBackupPath p job.task.id.text))

def Name (lib : GoLib) (a : Accounts) (job : Job) (l : Location) : Prop :=
  ∃ p ∈ job.targets lib, job.Place a p l

def Touches (lib : GoLib) (a : Accounts) (job : Job) (l : Location) : Prop :=
  match job with
  | .migration mig task => (Job.migration mig task).Name lib a l ∨
      mig.moves = true ∧ task.resourceType = .files ∧ l = a.locate .source task.filePath
  | .sync job task =>
    match task.action with
    | .mkdir => False
    | .delete => l = a.locate task.side (job.path task.side task.filePath)
    | .conflictCopy => l = a.locate .target (job.path .target task.filePath) ∨
        ∃ time, l = a.locate .target (conflictPath (job.path .target task.filePath) time)
    | .upload | .download => (Job.sync job task).Name lib a l

end Job

section Places

variable {lib : GoLib} {a : Accounts} {job : Job} {p : Text} {l : Location} {c : Call}

theorem place_of_route {route : Route} (htarget : route.target = job.dest)
    (hpath : route.targetPath = p)
    (hbackup : route.backupPath = overwriteBackupPath p job.task.id.text)
    (hupload : route.uploadPath = p ∨ job.stages = true ∧ route.uploadPath = stagingPath p)
    (hc : route.Makes c) (hl : c.Writes a l) : job.Place a p l := by
  have hplace : l = a.locate route.target route.uploadPath → job.Place a p l := by
    rintro rfl
    rw [htarget]
    rcases hupload with hup | ⟨hs, hup⟩
    · exact .inl (by rw [hup])
    · exact .inr ⟨hs, .inl (by rw [hup])⟩
  have hstages : route.staged = true → job.stages = true := by
    intro hs
    rcases hupload with hup | ⟨hs, -⟩
    · exact absurd (hup.trans hpath.symm) (of_decide_eq_true hs)
    · exact hs
  have htargetPlace : l = a.locate route.target route.targetPath → job.Place a p l := by
    rintro rfl
    exact .inl (by rw [htarget, hpath])
  have hbackupPlace : route.staged = true → l = a.locate route.target route.backupPath →
      job.Place a p l := by
    rintro hs rfl
    exact .inr ⟨hstages hs, .inr (by rw [htarget, hbackup])⟩
  cases hc with
  | asks hc =>
    cases c with
    | deleteFile | renameFile | streamUpload => cases hc
    | _ => exact hl.elim
  | complete | parents => exact hl.elim
  | upload | discard => exact hplace hl
  | preserve hs => exact hl.elim htargetPlace (hbackupPlace hs)
  | promote => exact hl.elim hplace htargetPlace
  | restore hs => exact hl.elim (hbackupPlace hs) htargetPlace
  | clear hs => exact hbackupPlace hs hl

theorem place_of_migration (hc : (task.route mig persisted p).Makes c) (hl : c.Writes a l) :
    (Job.migration mig task).Place a p l := by
  refine place_of_route rfl rfl rfl ?_ hc hl
  unfold Task.route
  split_ifs with hs
  · refine .inr ⟨?_, rfl⟩
    cases persisted with
    | true => simp [Task.overwrites] at hs
    | false => simpa [Job.stages] using hs
  · exact .inl rfl

theorem place_of_sync {job : SyncJob} (hc : (task.route job).Makes c)
    (hl : c.Writes a l) : (Job.sync job task).Place a (job.path task.dest task.filePath) l := by
  refine place_of_route rfl rfl rfl ?_ hc hl
  unfold SyncTask.route
  split_ifs with hs
  · exact .inr ⟨hs, rfl⟩
  · exact .inl rfl

theorem choices_subset {task : Task} (h : stored = [] ∨ stored ∈ task.targets lib mig) :
    task.choices lib mig stored ⊆ task.targets lib mig := by
  intro p hp
  unfold Task.choices at hp
  split_ifs at hp with hkeep
  · rw [List.mem_singleton.1 hp]
    exact h.resolve_left hkeep.2
  · exact hp

theorem touches_of_makes (h : stored = [] ∨ stored ∈ job.targets lib)
    (hc : job.Makes lib stored c) (hl : c.Writes a l) : job.Touches lib a l := by
  cases hc with
  | asks hc =>
    cases c with
    | deleteFile | renameFile | streamUpload => cases hc
    | _ => exact hl.elim
  | complete | directory | parents | store | syncDirectory => exact hl.elim
  | delete _ hp => exact .inl ⟨_, choices_subset h hp, .inl hl⟩
  | transfer hp hc => exact .inl ⟨_, choices_subset h hp, place_of_migration hc hl⟩
  | move hmoves hfiles => exact .inr ⟨hmoves, hfiles, hl⟩
  | syncDelete haction =>
    simp only [Job.Touches, haction]
    exact hl
  | conflictCopy time haction =>
    simp only [Job.Touches, haction]
    exact hl.imp_right fun hl => ⟨time, hl⟩
  | @syncTransfer job task _ _ haction hc =>
    have hname : (Job.sync job task).Name lib a l :=
      ⟨_, List.mem_singleton.2 rfl, place_of_sync hc hl⟩
    rcases haction with haction | haction
    · simp only [Job.Touches, haction]
      exact hname
    · simp only [Job.Touches, haction]
      exact hname

end Places

/-! What an orderly set of transfers keeps. -/

section Sharing

variable {ι : Type}

/-- Two tasks share a target, which both ask about before they write. -/
def Setting.Shares (s : Setting ι) (i j : ι) : Prop :=
  ∃ k, (s.job i).slot s.lib = some k ∧ (s.job j).slot s.lib = some k

def Setting.key (s : Setting ι) (i : ι) : Text :=
  (((s.job i).slot s.lib).map Prod.snd).getD []

def Setting.Shared (s : Setting ι) (i : ι) : Prop := ∃ j, j ≠ i ∧ s.Shares i j

def Setting.source (s : Setting ι) (i : ι) : Location := (s.job i).source s.accounts

def Setting.place (s : Setting ι) (i : ι) (p : Text) : Location :=
  s.accounts.locate (s.job i).dest p

/-- Another task stays away from the source of a transfer and from its names, or shares its
target. -/
structure Setting.Apart (s : Setting ι) (M : ι → Prop) (i j : ι) : Prop where
  source : ¬(s.job j).Touches s.lib s.accounts (s.source i)
  names : (s.Shares i j ∧ M j ∧ ¬(s.job i).Name s.lib s.accounts (s.source j)) ∨
    ∀ l, (s.job i).Name s.lib s.accounts l → ¬(s.job j).Touches s.lib s.accounts l

/-- A set of transfers that every other task stays away from, and whose members stay away from
their own sources where they do not ask before they write. -/
structure Setting.Orderly (s : Setting ι) (M : ι → Prop) : Prop where
  transfers : ∀ i, M i → (s.job i).Transfers
  own : ∀ i, M i → (s.job i).asksFirst = false →
    ∀ l, (s.job i).Name s.lib s.accounts l → l ≠ s.source i
  apart : ∀ i, M i → ∀ j, j ≠ i → s.Apart M i j

/-- A task that writes to `p`, or has done so. A skipped task only keeps what it has moved. -/
structure Setting.Claims (s : Setting ι) (old : GoMap Location Content) (i : ι) (w : World ι)
    (p : Text) : Prop where
  final : (s.job i).final (w.rows i) = some p
  active : (w.rows i).progress ≠ .skipped ∨ w.objects.get (s.source i) ≠ old.get (s.source i)

structure Setting.Kept (s : Setting ι) (old : GoMap Location Content) (i : ι) (w : World ι) :
    Prop where
  present : s.Shared i → ∀ p, s.Claims old i w p →
    (w.objects.get (s.place i p)).isSome ∨ w.locks.get (s.key i) = some i
  source : w.objects.get (s.source i) = old.get (s.source i) ∨
    ∃ p c, (s.job i).final (w.rows i) = some p ∧ w.objects.get (s.source i) = none ∧
      old.get (s.source i) = some c ∧ w.objects.get (s.place i p) = some c
  apart : ∀ p, (s.job i).final (w.rows i) = some p → (old.get (s.source i)).isSome →
    s.place i p ≠ s.source i
  done : (w.rows i).progress = .completed → ∃ p c, (s.job i).final (w.rows i) = some p ∧
    old.get (s.source i) = some c ∧ w.objects.get (s.place i p) = some c

/-- What a transfer relies on: its row, its source and the places it claims stay as they are, its
lock stays taken, and free names stay free as long as it has the lock. -/
structure Setting.Relies (s : Setting ι) (old : GoMap Location Content) (i : ι) (w v : World ι) :
    Prop where
  row : v.rows i = w.rows i
  source : v.objects.get (s.source i) = w.objects.get (s.source i)
  own : ∀ p l, s.Claims old i w p → (s.job i).Place s.accounts p l →
    v.objects.get l = w.objects.get l
  lock : w.locks.get (s.key i) = some i → v.locks.get (s.key i) = some i
  free : s.Shared i → w.locks.get (s.key i) = some i → ∀ p ∈ (s.job i).targets s.lib,
    w.objects.get (s.place i p) = none → v.objects.get (s.place i p) = none

variable {s : Setting ι} {M : ι → Prop} {old : GoMap Location Content} {i j : ι} {w v : World ι} {p : Text}

theorem Setting.Claims.congr (h : s.Claims old i w p) (hrow : v.rows i = w.rows i)
    (hsource : v.objects.get (s.source i) = w.objects.get (s.source i)) : s.Claims old i v p := by
  obtain ⟨hfinal, hactive⟩ := h
  rw [← hrow] at hfinal hactive
  rw [← hsource] at hactive
  exact ⟨hfinal, hactive⟩

theorem Setting.Relies.claims (h : s.Relies old i w v) (hp : s.Claims old i v p) :
    s.Claims old i w p :=
  hp.congr h.row.symm h.source.symm

theorem Setting.Relies.refl (w : World ι) : s.Relies old i w w :=
  ⟨rfl, rfl, fun _ _ _ _ => rfl, fun h => h, fun _ _ _ _ h => h⟩

theorem Setting.Relies.trans (h : s.Relies old i w v) (h' : s.Relies old i v u) :
    s.Relies old i w u where
  row := h'.row.trans h.row
  source := h'.source.trans h.source
  own p l hp hl := (h'.own p l (hp.congr h.row h.source) hl).trans (h.own p l hp hl)
  lock hl := h'.lock (h.lock hl)
  free hs hl p hp hfree := h'.free hs (h.lock hl) p hp (h.free hs hl p hp hfree)

theorem Setting.Relies.get_place (h : s.Relies old i w v) (hp : s.Claims old i w p) :
    v.objects.get (s.place i p) = w.objects.get (s.place i p) :=
  h.own p _ hp (.inl rfl)

theorem Setting.Kept.of_relies (hk : s.Kept old i w) (h : s.Relies old i w v) : s.Kept old i v where
  present hs p hp := by
    have hp' := h.claims hp
    rw [h.get_place hp']
    exact (hk.present hs p hp').imp_right h.lock
  source := by
    rcases hk.source with hsame | ⟨p, c, hfinal, hgone, hold, hget⟩
    · exact .inl (h.source.trans hsame)
    · have hclaims : s.Claims old i w p := by
        refine ⟨hfinal, .inr ?_⟩
        rw [hgone, hold]
        exact nofun
      refine .inr ⟨p, c, ?_, h.source.trans hgone, hold, (h.get_place hclaims).trans hget⟩
      rw [h.row]
      exact hfinal
  apart p hp := by
    rw [h.row] at hp
    exact hk.apart p hp
  done hdone := by
    rw [h.row] at hdone ⊢
    obtain ⟨p, c, hfinal, hold, hget⟩ := hk.done hdone
    have hclaims : s.Claims old i w p := ⟨hfinal, .inl (by simp [hdone])⟩
    exact ⟨p, c, hfinal, hold, (h.get_place hclaims).trans hget⟩

theorem shares_symm (h : s.Shares i j) : s.Shares j i := by
  obtain ⟨k, hi, hj⟩ := h
  exact ⟨k, hj, hi⟩

theorem key_of_shares (h : s.Shares i j) : s.key i = s.key j := by
  obtain ⟨k, hi, hj⟩ := h
  simp [Setting.key, hi, hj]

theorem slot_migration (h : job.slot lib = some k) :
    ∃ mig task metadata, job = .migration mig task ∧ task.metadata = some metadata ∧
      mig.asksFirst = true ∧ k = (mig, task.target lib mig metadata) ∧
      task.target lib mig metadata ≠ ['/'] := by
  cases job with
  | sync job task => cases h
  | migration mig task =>
    simp only [Job.slot] at h
    split at h
    · cases h
    · rename_i metadata hmeta
      split_ifs at h with hasks
      cases h
      exact ⟨mig, task, metadata, rfl, hmeta, hasks.1, rfl, hasks.2⟩

theorem not_stages_of_asksFirst (h : job.asksFirst = true) : job.stages = false := by
  cases job with
  | sync job task => cases h
  | migration mig task =>
    simp only [Job.asksFirst, Migration.asksFirst, Bool.and_eq_true, Bool.or_eq_true,
      decide_eq_true_eq] at h
    rcases h.2 with hmode | hmode
    · simp [Job.stages, Task.overwrites, hmode]
    · simp [Job.stages, Task.overwrites, hmode]

theorem not_stages_of_slot (h : job.slot lib = some k) : job.stages = false := by
  obtain ⟨mig, task, metadata, rfl, -, hasks, -, -⟩ := slot_migration h
  exact not_stages_of_asksFirst hasks

theorem place_of_slot (h : job.slot lib = some k) (hl : job.Place a p l) : l = a.locate job.dest p := by
  rcases hl with hl | ⟨hs, -⟩
  · exact hl
  · rw [not_stages_of_slot h] at hs
    cases hs

/-- The invariant of all tasks: stored paths are among those a task may choose, and the transfers of
the set keep what is theirs. -/
structure Setting.Inv (s : Setting ι) (M : ι → Prop) (old : GoMap Location Content) (w : World ι) :
    Prop where
  stored : ∀ i, (w.rows i).resolved = [] ∨ (w.rows i).resolved ∈ (s.job i).targets s.lib
  kept : ∀ i, M i → s.Kept old i w
  distinct : ∀ i j, M i → M j → i ≠ j → s.Shares i j → ∀ p q, s.Claims old i w p →
    s.Claims old j w q → s.place i p ≠ s.place j q

/-- A source stays, or its content is at the target, which lies elsewhere. -/
abbrev Setting.SourceKept (s : Setting ι) (i : ι) (w v : World ι) : Prop :=
  v.objects.get (s.source i) = w.objects.get (s.source i) ∨
    ∃ p c, (s.job i).final (w.rows i) = some p ∧ w.objects.get (s.source i) = some c ∧
      w.objects.get (s.place i p) = some c ∧ s.place i p ≠ s.source i

def Setting.SourcesKept (s : Setting ι) (M : ι → Prop) (w v : World ι) : Prop :=
  ∀ i, M i → s.SourceKept i w v

def Setting.Reaches (s : Setting ι) (M : ι → Prop) (old : GoMap Location Content) (i : ι)
    (w : World ι) (l : Location) : Prop :=
  (M i ∧ ∃ p, s.Claims old i w p ∧ (s.job i).Place s.accounts p l) ∨
  (M i ∧ (s.job i).moves = true ∧ l = s.source i) ∨
  (¬M i ∧ (s.job i).Touches s.lib s.accounts l)

theorem mem_targets_of_final (hi : s.Inv M old w) (hp : (s.job i).final (w.rows i) = some p) :
    p ∈ (s.job i).targets s.lib := by
  have hstored := hi.stored i
  cases hjob : s.job i with
  | sync job task =>
    rw [hjob] at hp
    cases hp
    exact List.mem_singleton.2 rfl
  | migration mig task =>
    rw [hjob] at hp hstored
    simp only [Job.final] at hp
    split_ifs at hp with hnil
    cases hp
    exact hstored.resolve_left hnil

theorem touches_of_name (ht : job.Transfers) (h : job.Name lib a l) : job.Touches lib a l := by
  cases job with
  | migration mig task => exact .inl h
  | sync job task =>
    rcases ht with haction | haction
    · simp only [Job.Touches, haction]
      exact h
    · simp only [Job.Touches, haction]
      exact h

theorem touches_of_moves (ht : job.Transfers)
    (h : job.moves = true) : job.Touches lib a (job.source a) := by
  cases job with
  | migration mig task => exact .inr ⟨h, ht.1, rfl⟩
  | sync job task => cases h

theorem touches_of_reaches (h : s.Orderly M) (hi : s.Inv M old w)
    (hl : s.Reaches M old i w l) : (s.job i).Touches s.lib s.accounts l := by
  rcases hl with ⟨hM, p, hp, hl⟩ | ⟨hM, hmoves, rfl⟩ | ⟨-, hl⟩
  · exact touches_of_name (h.transfers i hM) ⟨p, mem_targets_of_final hi hp.final, hl⟩
  · exact touches_of_moves (h.transfers i hM) hmoves
  · exact hl

theorem claims_of_reaches (hshares : s.Shares j i) (hM : M i)
    (hsource : ¬(s.job j).Name s.lib s.accounts (s.source i))
    (hp : p ∈ (s.job j).targets s.lib) (hl : (s.job j).Place s.accounts p l)
    (hreach : s.Reaches M old i w l) : ∃ q, s.Claims old i w q ∧ s.place j p = s.place i q := by
  obtain ⟨k, hsj, hsi⟩ := hshares
  rcases hreach with ⟨-, q, hq, hl'⟩ | ⟨-, -, rfl⟩ | ⟨hnot, -⟩
  · exact ⟨q, hq, (place_of_slot hsj hl).symm.trans (place_of_slot hsi hl')⟩
  · exact absurd ⟨p, hp, hl⟩ hsource
  · exact absurd hM hnot

theorem relies_of_reaches (h : s.Orderly M) (hi : s.Inv M old w)
    (hrows : ∀ j, j ≠ i → v.rows j = w.rows j)
    (hlocks : ∀ j p, j ≠ i → w.locks.get p = some j → v.locks.get p = some j)
    (hobjects : ∀ l, ¬s.Reaches M old i w l → v.objects.get l = w.objects.get l)
    (hj : M j) (hne : j ≠ i) : s.Relies old j w v := by
  have hapart := h.apart j hj i hne.symm
  refine ⟨hrows j hne, ?_, fun p l hp hl => ?_, hlocks j _ hne, fun hs hlock p hp hfree => ?_⟩
  · exact hobjects _ fun hreach => hapart.source (touches_of_reaches h hi hreach)
  · refine hobjects l fun hreach => ?_
    have hmem := mem_targets_of_final hi hp.final
    rcases hapart.names with ⟨hshares, hM, hsource⟩ | hnames
    · obtain ⟨q, hq, heq⟩ := claims_of_reaches hshares hM hsource hmem hl hreach
      exact hi.distinct j i hj hM hne hshares p q hp hq heq
    · exact hnames l ⟨p, hmem, hl⟩ (touches_of_reaches h hi hreach)
  · rw [← hfree]
    refine hobjects _ fun hreach => ?_
    rcases hapart.names with ⟨hshares, hM, hsource⟩ | hnames
    · obtain ⟨q, hq, heq⟩ := claims_of_reaches hshares hM hsource hp (.inl rfl) hreach
      -- the other one has an object there already, for the lock is not its own
      rcases (hi.kept i hM).present ⟨j, hne, shares_symm hshares⟩ q hq with hsome | hlock'
      · rw [← heq, hfree] at hsome
        cases hsome
      · rw [key_of_shares (shares_symm hshares), hlock] at hlock'
        exact hne (Option.some.inj hlock')
    · exact hnames _ ⟨p, hp, .inl rfl⟩ (touches_of_reaches h hi hreach)

/-- What every step of a task does to the others and to the whole. -/
structure Setting.Step (s : Setting ι) (M : ι → Prop) (old : GoMap Location Content) (i : ι)
    (w v : World ι) : Prop where
  inv : s.Inv M old v
  relies : ∀ j, j ≠ i → M j → s.Relies old j w v
  sources : s.SourcesKept M w v

theorem Setting.Step.of_reaches (h : s.Orderly M) (hi : s.Inv M old w)
    (hrows : ∀ j, j ≠ i → v.rows j = w.rows j)
    (hlocks : ∀ j p, j ≠ i → w.locks.get p = some j → v.locks.get p = some j)
    (hobjects : ∀ l, ¬s.Reaches M old i w l → v.objects.get l = w.objects.get l)
    (hstored : (v.rows i).resolved = [] ∨ (v.rows i).resolved ∈ (s.job i).targets s.lib)
    (hkept : M i → s.Kept old i v) (hclaims : M i → ∀ p, s.Claims old i v p → s.Claims old i w p ∨
      ∀ j q, M j → j ≠ i → s.Shares i j → s.Claims old j w q → s.place i p ≠ s.place j q)
    (hsource : M i → s.SourceKept i w v) : s.Step M old i w v := by
  have hrelies : ∀ j, j ≠ i → M j → s.Relies old j w v :=
    fun j hne hj => relies_of_reaches h hi hrows hlocks hobjects hj hne
  -- a pair that the task belongs to, seen from the task
  have hpair : ∀ j, M i → M j → j ≠ i → s.Shares i j → ∀ p q, s.Claims old i v p →
      s.Claims old j v q → s.place i p ≠ s.place j q := by
    intro j hMi hMj hne hs p q hp hq
    have hq := (hrelies j hne hMj).claims hq
    rcases hclaims hMi p hp with hp | hnew
    · exact hi.distinct i j hMi hMj hne.symm hs p q hp hq
    · exact hnew j q hMj hne hs hq
  refine ⟨⟨fun j => ?_, fun j hj => ?_, fun j k hj hk hjk hs p q hp hq => ?_⟩, hrelies, fun j hj => ?_⟩
  · by_cases hne : j = i
    · rw [hne]
      exact hstored
    · rw [hrows j hne]
      exact hi.stored j
  · by_cases hne : j = i
    · subst hne
      exact hkept hj
    · exact (hi.kept j hj).of_relies (hrelies j hne hj)
  · by_cases hji : j = i
    · subst hji
      exact hpair k hj hk hjk.symm hs p q hp hq
    · by_cases hki : k = i
      · subst hki
        exact (hpair j hk hj hji (shares_symm hs) q p hq hp).symm
      · exact hi.distinct j k hj hk hjk hs p q ((hrelies j hji hj).claims hp)
          ((hrelies k hki hk).claims hq)
  · by_cases hne : j = i
    · subst hne
      exact hsource hj
    · exact .inl (hrelies j hne hj).source

/-- A transfer at work: it has its path, it is not finished, and its source is there. -/
structure Setting.Doing (s : Setting ι) (old : GoMap Location Content) (i : ι) (p : Text)
    (w : World ι) : Prop where
  final : (s.job i).final (w.rows i) = some p
  unfinished : (w.rows i).progress = .unfinished
  source : w.objects.get (s.source i) = old.get (s.source i)

theorem Setting.Doing.claims (h : s.Doing old i p w) : s.Claims old i w p :=
  ⟨h.final, .inl (by simp [h.unfinished])⟩

theorem Setting.Doing.of_relies (h : s.Doing old i p w) (hr : s.Relies old i w v) :
    s.Doing old i p v := by
  obtain ⟨hfinal, hunfinished, hsource⟩ := h
  rw [← hr.row] at hfinal hunfinished
  exact ⟨hfinal, hunfinished, hr.source.trans hsource⟩

section

variable (h : s.Orderly M) (hi : s.Inv M old w) (hM : M i) (hd : s.Doing old i p w)
  (hsome : (old.get (s.source i)).isSome)
include h hi hM hd hsome

theorem place_ne_source (hl : (s.job i).Place s.accounts p l) : l ≠ s.source i := by
  cases hasks : (s.job i).asksFirst with
  | false => exact h.own i hM hasks l ⟨p, mem_targets_of_final hi hd.final, hl⟩
  | true =>
    rcases hl with rfl | ⟨hs, -⟩
    · exact (hi.kept i hM).apart p hd.final hsome
    · rw [not_stages_of_asksFirst hasks] at hs
      cases hs

/-- A transfer changes its own places; one that shares its target only ever fills it. -/
theorem step_own (hrows : v.rows = w.rows) (hlocks : v.locks = w.locks)
    (hobjects : ∀ l, ¬(s.job i).Place s.accounts p l → v.objects.get l = w.objects.get l)
    (hpresent : s.Shared i → (v.objects.get (s.place i p)).isSome ∨
      v.objects.get (s.place i p) = w.objects.get (s.place i p)) :
    s.Step M old i w v ∧ s.Doing old i p v := by
  have hsource : v.objects.get (s.source i) = w.objects.get (s.source i) :=
    hobjects _ fun hl => place_ne_source h hi hM hd hsome hl rfl
  have hdoing : s.Doing old i p v := by
    obtain ⟨hfinal, hunfinished, hsame⟩ := hd
    rw [← hrows] at hfinal hunfinished
    exact ⟨hfinal, hunfinished, hsource.trans hsame⟩
  refine ⟨.of_reaches h hi (fun j _ => by rw [hrows]) (fun j q _ hq => by rw [hlocks]; exact hq)
    (fun l hl => hobjects l fun hplace => hl (.inl ⟨hM, p, hd.claims, hplace⟩)) ?_ (fun _ => ?_)
    (fun _ q hq => .inl (hq.congr (by rw [hrows]) hsource.symm)) fun _ => .inl hsource, hdoing⟩
  · rw [hrows]
    exact hi.stored i
  · refine ⟨fun hs q hq => ?_, .inl (hdoing.source), fun q hq => ?_, fun hdone => ?_⟩
    · have hqp : q = p := Option.some.inj (hq.final.symm.trans hdoing.final)
      rw [hqp, hlocks]
      rcases hpresent hs with hsome | hsame
      · exact .inl hsome
      · rw [hsame]
        exact (hi.kept i hM).present hs p hd.claims
    · rw [hrows] at hq
      exact (hi.kept i hM).apart q hq
    · rw [hdoing.unfinished] at hdone
      cases hdone

end

end Sharing

/-! The steps of a task, one call at a time. -/

section Steps

variable {ι : Type} [DecidableEq ι] {s : Setting ι} {M : ι → Prop} {old : GoMap Location Content} {i : ι}
  {w v : World ι} {c : Call} {o : Outcome}

theorem mem_targets_of_makes
    (h : job.Makes lib stored (.updateResolvedTargetPath p)) : p ∈ job.targets lib := by
  cases h with
  | asks h => cases h
  | store _ hp => exact hp
  | transfer _ h | syncTransfer _ h =>
    cases h with
    | asks h => cases h

theorem step_outsider (h : s.Orderly M) (hi : s.Inv M old w) (hM : ¬M i)
    (hstored : stored = [] ∨ stored ∈ (s.job i).targets s.lib)
    (hc : (s.job i).Makes s.lib stored c) (hx : exec s.accounts i c o w = some (r, v)) :
    s.Step M old i w v := by
  refine .of_reaches h hi (fun j hj => exec_rows_ne hx hj) (fun j p _ hp => exec_locks hx hp)
    (fun l hl => exec_objects hx fun hwrite => ?_) ?_ (fun hM' => absurd hM' hM)
    (fun hM' => absurd hM' hM) fun hM' => absurd hM' hM
  · exact hl (.inr (.inr ⟨hM, touches_of_makes hstored hc hwrite⟩))
  · rcases exec_resolved hx i with hsame | ⟨-, rfl⟩
    · rw [hsame]
      exact hi.stored i
    · exact .inr (mem_targets_of_makes hc)

theorem query_row (hc : c.isHarmless = true) (hne : c ≠ .complete)
    (hx : exec s.accounts i c o w = some (r, v)) :
    v.rows i = w.rows i ∨ v.rows i = { w.rows i with progress := .skipped } := by
  cases exec_effect hx with
  | none | lock | delete | rename | upload => exact .inl rfl
  | resolved => cases hc
  | skip => exact .inr (World.rows_setRow _)
  | complete => exact absurd rfl hne

theorem final_congr (h : row.resolved = row'.resolved) : job.final row = job.final row' := by
  cases job with
  | migration mig task => simp only [Job.final, h]
  | sync job task => rfl

theorem step_query (h : s.Orderly M) (hi : s.Inv M old w) (hc : c.isHarmless = true)
    (hne : c ≠ .complete) (hx : exec s.accounts i c o w = some (r, v)) : s.Step M old i w v := by
  obtain ⟨hobjects, hresolved⟩ := harmless_frame hc hx
  have hfinal : (s.job i).final (v.rows i) = (s.job i).final (w.rows i) := final_congr (hresolved i)
  have hclaims : ∀ p, s.Claims old i v p → s.Claims old i w p := by
    rintro p ⟨hp, hactive⟩
    refine ⟨hfinal ▸ hp, ?_⟩
    rw [hobjects] at hactive
    rcases query_row hc hne hx with hrow | hrow
    · rwa [hrow] at hactive
    · rw [hrow] at hactive
      exact .inr (hactive.resolve_left fun hn => hn rfl)
  refine .of_reaches h hi (fun j hj => exec_rows_ne hx hj) (fun j p _ hp => exec_locks hx hp)
    (fun l _ => by rw [hobjects]) ?_ (fun hM => ?_) (fun _ p hp => .inl (hclaims p hp))
    (fun _ => .inl (by rw [hobjects]))
  · rw [hresolved]
    exact hi.stored i
  · have hk := hi.kept i hM
    refine ⟨fun hs p hp => ?_, ?_, ?_, fun hdone => ?_⟩
    · rw [hobjects]
      exact (hk.present hs p (hclaims p hp)).imp_right fun hl => exec_locks hx hl
    · rw [hobjects, hfinal]
      exact hk.source
    · rw [hfinal]
      exact hk.apart
    · rw [hobjects, hfinal]
      rcases query_row hc hne hx with hrow | hrow
      · rw [hrow] at hdone
        exact hk.done hdone
      · rw [hrow] at hdone
        cases hdone

theorem step_store (h : s.Orderly M) (hi : s.Inv M old w) (hM : M i)
    (hrow : w.rows i = {}) (hp : p ∈ (s.job i).targets s.lib) (hne : p ≠ [])
    (hfinal : ∀ row : Row, row.resolved = [] → (s.job i).final row = none)
    (hsome : (old.get (s.source i)).isSome → s.place i p ≠ s.source i)
    (hshared : s.Shared i → w.locks.get (s.key i) = some i ∧ w.objects.get (s.place i p) = none) :
    s.Step M old i w (w.setRow i { w.rows i with resolved := p }) := by
  have hk := hi.kept i hM
  have hsame : w.objects.get (s.source i) = old.get (s.source i) := by
    rcases hk.source with hsame | ⟨q, c, hq, -⟩
    · exact hsame
    · rw [hfinal _ (by rw [hrow])] at hq
      cases hq
  have hfinal' : ∀ q, (s.job i).final { w.rows i with resolved := p } = some q → q = p := by
    intro q hq
    cases hjob : s.job i with
    | sync job task =>
      have hnone := hfinal {} rfl
      rw [hjob] at hnone
      cases hnone
    | migration mig task =>
      rw [hjob] at hq
      simp only [Job.final, if_neg hne] at hq
      exact (Option.some.inj hq).symm
  refine .of_reaches h hi (fun j hj => World.rows_setRow_ne _ hj) (fun j q _ hq => hq)
    (fun l _ => rfl) ?_ (fun _ => ⟨fun hs q hq => ?_, .inl hsame, fun q hq hold => ?_, fun hdone => ?_⟩)
    (fun _ q hq => .inr fun j q' hj hji hs hq' heq => ?_) fun _ => .inl rfl
  · rw [World.rows_setRow]
    exact .inr hp
  · exact .inr (hshared hs).1
  · rw [World.rows_setRow] at hq
    rw [hfinal' q hq]
    exact hsome hold
  · rw [World.rows_setRow, hrow] at hdone
    cases hdone
  · have hqp : q = p := hfinal' q (by simpa using hq.final)
    obtain ⟨hlock, hfree⟩ := hshared ⟨j, hji, hs⟩
    -- the other one would have an object there, for it does not have the lock
    rcases (hi.kept j hj).present ⟨i, hji.symm, shares_symm hs⟩ q' hq' with hpres | hlock'
    · rw [← heq, hqp, hfree] at hpres
      cases hpres
    · rw [key_of_shares (shares_symm hs), hlock] at hlock'
      exact hji (Option.some.inj hlock').symm

omit [DecidableEq ι] in
theorem step_move (h : s.Orderly M) (hi : s.Inv M old w) (hM : M i) (hd : s.Doing old i p w)
    (hmoves : (s.job i).moves = true) (hold : old.get (s.source i) = some content)
    (hget : w.objects.get (s.place i p) = some content) :
    s.Step M old i w (w.remove (s.source i)) := by
  have hk := hi.kept i hM
  have hne : s.place i p ≠ s.source i := hk.apart p hd.final (by rw [hold]; rfl)
  have hplace : (w.remove (s.source i)).objects.get (s.place i p) = some content := by
    rw [World.get_remove, if_neg hne, hget]
  have hgone : (w.remove (s.source i)).objects.get (s.source i) = none := by simp
  refine .of_reaches h hi (fun j _ => rfl) (fun j q _ hq => hq) (fun l hl => by
      rw [World.get_remove, if_neg]
      exact fun heq => hl (.inr (.inl ⟨hM, hmoves, heq⟩)))
    (hi.stored i) (fun _ => ⟨fun hs q hq => ?_, ?_, hk.apart, fun hdone => ?_⟩)
    (fun _ q hq => .inl ⟨hq.final, .inl (by simp [hd.unfinished])⟩)
    (fun _ => .inr ⟨p, content, hd.final, hd.source.trans hold, hget, hne⟩)
  · have hqp : q = p := Option.some.inj (hq.final.symm.trans hd.final)
    rw [hqp, hplace]
    exact .inl rfl
  · exact .inr ⟨p, content, hd.final, hgone, hold, hplace⟩
  · rw [World.rows_remove, hd.unfinished] at hdone
    cases hdone

theorem step_complete (h : s.Orderly M) (hi : s.Inv M old w) (hM : M i)
    (hunfinished : (w.rows i).progress = .unfinished)
    (hfinal : (s.job i).final (w.rows i) = some p) (hold : old.get (s.source i) = some content)
    (hget : w.objects.get (s.place i p) = some content) :
    s.Step M old i w (w.setRow i { w.rows i with progress := .completed }) := by
  have hk := hi.kept i hM
  have hsame : (s.job i).final { w.rows i with progress := .completed } =
      (s.job i).final (w.rows i) := final_congr rfl
  have hclaims : ∀ q, (s.job i).final (w.rows i) = some q → s.Claims old i w q :=
    fun q hq => ⟨hq, .inl (by simp [hunfinished])⟩
  refine .of_reaches h hi (fun j hj => World.rows_setRow_ne _ hj) (fun j q _ hq => hq)
    (fun l _ => rfl) ?_ (fun _ => ?_) (fun _ q hq => .inl (hclaims q ?_)) fun _ => .inl rfl
  · rw [World.rows_setRow]
    exact hi.stored i
  · refine ⟨fun hs q hq => ?_, ?_, fun q hq => ?_, fun _ => ?_⟩
    · have hq := hq.final
      rw [World.rows_setRow, hsame] at hq
      exact hk.present hs q (hclaims q hq)
    · rw [World.rows_setRow, hsame]
      exact hk.source
    · rw [World.rows_setRow, hsame] at hq
      exact hk.apart q hq
    · rw [World.rows_setRow, hsame]
      exact ⟨p, content, hfinal, hold, hget⟩
  · have hq := hq.final
    rwa [World.rows_setRow, hsame] at hq

/-- An attempt may end when a shared target is filled, if one is stored. -/
theorem step_leave (h : s.Orderly M) (hi : s.Inv M old w)
    (hfilled : M i → s.Shared i → (w.rows i).progress ≠ .skipped →
      ∀ p, (s.job i).final (w.rows i) = some p → (w.objects.get (s.place i p)).isSome) :
    s.Step M old i w (w.unlock i) := by
  refine .of_reaches h hi (fun j _ => rfl) (fun j q hj hq => unlock_locks hj hq) (fun l _ => rfl)
    (hi.stored i) (fun hM => ?_) (fun _ q hq => .inl ⟨hq.final, hq.active⟩) fun _ => .inl rfl
  have hk := hi.kept i hM
  refine ⟨fun hs p hp => .inl ?_, hk.source, hk.apart, hk.done⟩
  rcases hp.active with hactive | hgone
  · exact hfilled hM hs hactive p hp.final
  · rcases hk.source with hsame | ⟨q, c, hq, -, -, hget⟩
    · exact absurd hsame hgone
    · have hpq : p = q := Option.some.inj (hp.final.symm.trans hq)
      rw [hpq, World.objects_unlock, hget]
      rfl

end Steps

end Clumoove.Transfer
