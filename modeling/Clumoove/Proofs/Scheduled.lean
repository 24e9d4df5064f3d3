import Clumoove.Sanity.Queue.Calls
import Clumoove.Sanity.Queue.Lifecycle

/-! A migration that waits for its schedule has one that will come due. Its row and the row of its
schedule are written by separate statements. It takes that a recovery which has made a migration
SCHEDULED gets to the schedule as well, and that no schedule is deactivated while its migration waits
for it. -/

namespace Clumoove.Queue

open Prog

variable [DecidableEq ι]

/-- The processes that schedule and index a migration and recover it, and the passing of time. -/
def MigrationRole.schedules : MigrationRole → Bool
  | scheduler | recoverIndexing | indexer | clock => true
  | _ => false

structure Standing where
  reactivates : Bool := false
  discovered : Bool := false
  deriving DecidableEq

def Standing.next (f : Standing) : (s : MigrationStmt) → Except DbError s.Val → Standing
  | .recoverScheduledMigrations _, .ok true => { f with reactivates := true }
  | .schedule .reactivateSchedules, .ok _ => { f with reactivates := false }
  | .transitionMigrationIndexingToRunningClaim _, .ok _ => { f with discovered := true }
  | _, _ => f

/-- An observer's record: where the processes stand, the generations that were claimed from
SCHEDULED, and those that a recovery has come upon with an expired lease. -/
structure Watch (ι : Type) where
  standing : ι → Standing := fun _ => {}
  claimed : List ℕ := []
  lost : List ℕ := []

variable {v v' : MigrationDb ι × Watch ι} {s : MigrationStmt} {f : Standing} {errors : List IndexingError}
  {x : MigrationWork α} {p : Schedule → Bool} {o : Outcome} {w' : MigrationDb ι} {i : ι} {now : ℕ}
  {r : Except DbError s.Val}

namespace Watch

def note (i : ι) (s : MigrationStmt) (r : Except DbError s.Val) (w w' : MigrationDb ι) (h : Watch ι) :
    Watch ι where
  standing j := if j = i then (h.standing i).next s r else h.standing j
  claimed :=
    match s, r with
    | .claimScheduledMigrationForIndexing, .ok true =>
      (w'.parent.map (·.discoveryGeneration)).toList ++ h.claimed
    | _, _ => h.claimed
  lost :=
    match s, r with
    | .recoverScheduledMigrations _, .ok _ =>
      ((w.parent.filter (Migration.indexerLost w.now)).map (·.discoveryGeneration)).toList ++ h.lost
    | _, _ => h.lost

def forget (i : ι) (h : Watch ι) : Watch ι :=
  { h with standing := fun j => if j = i then {} else h.standing j }

end Watch

def watchedCrew (role : ι → MigrationRole) :
    Crew.Parts ι MigrationStmt (fun s => Except DbError s.Val) (MigrationDb ι × Watch ι) Outcome :=
  (migrationCrew role).watched Watch.note Watch.forget

def sparesWaiting (_ : ι) (s : MigrationStmt) (w : MigrationDb ι × Watch ι) : Bool :=
  match s with
  | .schedule (.deactivateSchedule _) => w.1.parent.all (·.status ≠ .scheduled)
  | _ => true

/-- A recovery between its two statements is not stopped, and the database answers it. -/
def Uninterrupted (w : MigrationDb ι × Watch ι) : Crew.Label ι Outcome → Prop
  | .exec i o => (w.2.standing i).reactivates = true → o ≠ .unavailable
  | .stop i => (w.2.standing i).reactivates = false
  | _ => True

instance (v : MigrationDb ι × Watch ι) : (l : Crew.Label ι Outcome) → Decidable (Uninterrupted v l)
  | .exec i o => inferInstanceAs (Decidable ((v.2.standing i).reactivates = true → o ≠ .unavailable))
  | .stop i => inferInstanceAs (Decidable ((v.2.standing i).reactivates = false))
  | .start _ | .finish _ => inferInstanceAs (Decidable True)

def Timetable.awaited (t : Timetable) : Bool := t.schedules.any fun s => s.isActive ∧ s.nextRunAt.isSome

/-! What the processes do next. -/

/-- A recovery that has made the migration SCHEDULED goes on to its schedules, and an indexer
reconciles the migration after the end of the discovery only. -/
def watchProtocol (role : MigrationRole) :
    Protocol MigrationStmt (fun s => Except DbError s.Val) Standing where
  next := Standing.next
  allowed f s := role.calls s ∧ (f.reactivates = true ↔ s = .schedule .reactivateSchedules) ∧
    (role = .indexer → s = .reconcileMigrationProgress none → f.discovered = true)
  answers s r :=
    match s, r with
    | .schedule .reactivateSchedules, .error _ => False
    | _, _ => True

section Protocol

variable {role : MigrationRole}

def MigrationStmt.plain : MigrationStmt → Bool
  | .recoverScheduledMigrations _ | .schedule .reactivateSchedules
  | .transitionMigrationIndexingToRunningClaim _ | .reconcileMigrationProgress _ => false
  | _ => true

theorem Standing.next_of_plain (h : s.plain = true) : f.next s r = f := by
  unfold Standing.next
  split <;> first | rfl | cases h

theorem not_reactivating (hf : f.reactivates = false) (hs : s ≠ .schedule .reactivateSchedules) :
    f.reactivates = true ↔ s = .schedule .reactivateSchedules :=
  iff_of_false (by simp [hf]) hs

theorem plain_follows
    (hx : Within (fun s => role.calls s ∧ s.plain = true) x) (hf : f.reactivates = false) :
    x.run.Follows (watchProtocol role) (fun _ g => g = f) f := by
  apply Uses.follows hx
  · rintro s ⟨hcalls, hplain⟩
    refine ⟨hcalls, not_reactivating hf ?_, ?_⟩
    · rintro rfl
      cases hplain
    · rintro - rfl
      cases hplain
  · rintro s r ⟨-, hplain⟩
    exact Standing.next_of_plain hplain

@[local simp] theorem watchProtocol_next : (watchProtocol role).next = Standing.next := rfl

@[local simp] theorem watchProtocol_allowed : (watchProtocol role).allowed f s ↔ role.calls s ∧
    (f.reactivates = true ↔ s = .schedule .reactivateSchedules) ∧
      (role = .indexer → s = .reconcileMigrationProgress none → f.discovered = true) := Iff.rfl

@[local simp] theorem watchProtocol_answers : (watchProtocol role).answers s r ↔
    (s = .schedule .reactivateSchedules → r.toOption.isSome) := by
  cases s with
  | schedule s => cases s <;> cases r <;> simp [watchProtocol, Except.toOption]
  | _ => simp [watchProtocol]

attribute [local simp] Queue.call tryCall Standing.next MigrationRole.calls reads indexerCalls
  failMigration Except.toOption

theorem follows_recoverIndexing (hf : f.reactivates = false) :
    recoverOrphanedMigrationIndexing.run.Follows (watchProtocol .recoverIndexing)
      (fun _ g => g.reactivates = false) f := by
  refine Abides.follows ?_
  simp [recoverOrphanedMigrationIndexing, recoverScheduledMigrations, hf]

theorem plain_of_traversal
    (h : traversalCalls generation s = true) : MigrationRole.indexer.calls s ∧ s.plain = true := by
  refine ⟨.inr ⟨generation, indexerCalls_of_traversal h⟩, ?_⟩
  cases s <;> first | rfl | cases h

theorem follows_traversal (hx : ByTraversal generation x) (hf : f.reactivates = false) :
    x.run.Follows (watchProtocol .indexer) (fun _ g => g = f) f :=
  plain_follows (hx.mono fun _ => plain_of_traversal) hf

theorem abides_finishIndexing (hf : f.reactivates = false) :
    Abides (watchProtocol .indexer) (finishIndexing generation errors)
      (fun _ g => g.reactivates = false) f := by
  have hstop (e : String) (err : DbError) : Abides (watchProtocol .indexer)
      (indexingStopped generation e err) (fun _ g => g.reactivates = false) f :=
    (follows_traversal (byTraversal_indexingStopped err) hf).mono fun _ g hg => by rw [hg, hf]
  cases errors <;> simp [finishIndexing, recordErrors, hstop, hf]

/-- An indexer reconciles the migration after the end of the discovery only. -/
theorem follows_startIndexer (hf : f.reactivates = false) :
    startIndexer.run.Follows (watchProtocol .indexer) (fun _ g => g.reactivates = false) f := by
  refine Abides.follows ?_
  simp only [startIndexer, indexMigration]
  simp [hf]
  intro mig _ _ failed
  cases failed with
  | some e => simp [hf]
  | none =>
    simp [hf]
    intro keys
    refine (follows_traversal (byTraversal_indexSelections _ _) hf).mono ?_
    rintro r g rfl
    cases r with
    | error e => exact hf
    | ok done =>
      cases done with
      | none => exact hf
      | some done => exact abides_finishIndexing hf

theorem follows_program (hrole : role.schedules = true) (hf : f.reactivates = false) :
    role.program.run.Follows (watchProtocol role) (fun _ g => g.reactivates = false) f := by
  cases role with
  | indexer => exact follows_startIndexer hf
  | recoverIndexing => exact follows_recoverIndexing hf
  | scheduler =>
    refine (plain_follows (byScheduler_processDueSchedules.mono ?_) hf).mono fun _ g hg => by
      rw [hg, hf]
    intro s hs
    refine ⟨hs, ?_⟩
    cases s with
    | schedule s => cases s <;> first | rfl | cases hs
    | _ => first | rfl | cases hs
  | clock =>
    have htick : Within (fun s => MigrationRole.clock.calls s ∧ s.plain = true) (call .tick) :=
      within_call ⟨rfl, rfl⟩
    exact (plain_follows htick hf).mono fun _ g hg => by rw [hg, hf]
  | _ => cases hrole

end Protocol

/-! What the calls do to the migration and its schedules. -/

def MigrationStmt.scheduling : MigrationStmt → Bool
  | .schedule .getDueSchedules | .schedule (.tryClaimScheduleLock _)
  | .schedule (.updateNextRunAtIfUnchanged _ _ _) | .schedule (.deactivateSchedule _)
  | .schedule .reactivateSchedules | .getMigration | .claimScheduledMigrationForIndexing
  | .nextRun _ | .verifyMigrationOwnership _ | .isOrphanedImmediate | .choice
  | .recoverScheduledMigrations _ | .failStaleIndexingMigration _
  | .failMigrationWhileIndexingClaim _ _ | .renewMigrationIndexingLease _ _
  | .transitionMigrationIndexingToRunningClaim _ | .transitionMigrationIndexingToCompletedClaim _
  | .createMigrationTaskWhileIndexingClaim _ _ | .bulkCreateMigrationTasksWhileIndexingClaim _ _
  | .updateMigrationTotalsWhileIndexingClaim _ _ _ | .noteTraversed _ _ _ | .migrationTaskTotals
  | .migrationIndexedTaskKeys | .recordIndexingErrors _ | .reconcileMigrationProgress none
  | .renewals | .visit _ | .connectSource | .tick => true
  | _ => false

theorem scheduling_of_calls {role : MigrationRole} (hrole : role.schedules = true)
    (h : role.calls s) : s.scheduling = true := by
  cases role with
  | scheduler =>
    cases s with
    | schedule s => cases s <;> first | rfl | cases h
    | _ => first | rfl | cases h
  | recoverIndexing =>
    rcases h with h | ⟨e, rfl⟩ | rfl | ⟨e, rfl⟩
    · cases s <;> first | rfl | cases h
    · rfl
    · rfl
    · rfl
  | indexer =>
    rcases h with rfl | ⟨g, h⟩
    · rfl
    · cases s with
      | reconcileMigrationProgress k => cases k <;> first | rfl | cases h
      | _ => first | rfl | cases h
  | clock =>
    cases h
    rfl
  | _ => cases hrole

/-! The migration, its schedules and the record fit together. -/

structure InOrder (m : Stage) (t : Timetable) (h : Watch ι) : Prop where
  waits : m.status = .scheduled → t.awaited = true ∨ ∃ i, (h.standing i).reactivates = true
  planned : m.status = .scheduled ∨ h.claimed ≠ [] → t.schedules ≠ []
  discovery : m.discoveryComplete = true → m.status ≠ .scheduled ∧ m.status ≠ .indexing
  discovered : ∀ i, (h.standing i).discovered = true → m.discoveryComplete = true
  claimed : ∀ g ∈ h.claimed, g ≤ m.discoveryGeneration
  lost : ∀ g ∈ h.lost, g ≤ m.discoveryGeneration
  found : m.discoveryGeneration ∈ h.claimed → m.discoveryGeneration ∈ h.lost →
    m.status = .scheduled ∨ m.status = .failed

section Calls

variable {i : ι} {o : Outcome} {w w' : MigrationDb ι} {m : Migration} {m' : Stage} {t t' : Timetable}
  {h : Watch ι}

def Ordered (w : MigrationDb ι × Watch ι) : Prop :=
  ∃ m, w.1.parent = some m ∧ InOrder m.stage w.1.timetable w.2

theorem Watch.note_eq (hstanding : (h.standing i).next s r = h.standing i)
    (hclaimed : (Watch.note i s r w w' h).claimed = h.claimed)
    (hlost : (Watch.note i s r w w' h).lost = h.lost) : Watch.note i s r w w' h = h := by
  have hfun : (Watch.note i s r w w' h).standing = h.standing := by
    funext j
    simp only [Watch.note]
    split_ifs with hj
    · rw [hstanding, hj]
    · rfl
  cases h
  cases hnote : Watch.note i s r w w' _
  simp_all

theorem Watch.note_of_plain (hs : s.plain = true)
    (hc : s ≠ .claimScheduledMigrationForIndexing) : Watch.note i s r w w' h = h := by
  apply Watch.note_eq (Standing.next_of_plain hs)
  · cases s <;> first | rfl | exact absurd rfl hc
  · cases s <;> first | rfl | cases hs

theorem Watch.discovered_of_note (hs : ∀ g, s ≠ .transitionMigrationIndexingToRunningClaim g)
    (hj : (if j = i then (h.standing i).next s r else h.standing j).discovered = true) :
    (h.standing j).discovered = true := by
  split_ifs at hj with hji
  · subst hji
    unfold Standing.next at hj
    split at hj
    · exact hj
    · exact hj
    · exact absurd rfl (hs _)
    · exact hj
  · exact hj

omit [DecidableEq ι] in
/-- Other schedules, as long as they are there and one that was awaited still is. -/
theorem InOrder.reschedule (hin : InOrder m' t h) (hsched : t.schedules ≠ [] → t'.schedules ≠ [])
    (hawait : m'.status = .scheduled → t.awaited = true → t'.awaited = true) : InOrder m' t' h :=
  { hin with
    waits := fun hs => (hin.waits hs).imp_left (hawait hs)
    planned := fun hs => hsched (hin.planned hs) }

theorem Timetable.update_ne_nil {f : Schedule → Schedule}
    (ht : t.schedules ≠ []) : (t.update p f).schedules ≠ [] := by
  simpa [Timetable.update, Table.updateWhere] using ht

theorem Timetable.awaited_advance (ht : t.awaited = true) :
    (t.update p fun s => { s with nextRunAt := some next }).awaited = true := by
  obtain ⟨s, hs, hawait⟩ := List.any_eq_true.1 ht
  obtain ⟨hactive, hnext⟩ := of_decide_eq_true hawait
  apply List.any_eq_true.2
  refine ⟨_, Table.mem_updateWhere.2 ⟨s, hs, rfl⟩, ?_⟩
  split_ifs
  · exact decide_eq_true ⟨hactive, rfl⟩
  · exact hawait

theorem Timetable.awaited_reactivate (ht : t.schedules ≠ []) :
    (t.update (fun _ => true) fun s => { s.activate with nextRunAt := some now }).awaited = true := by
  obtain ⟨s, hs⟩ := List.exists_mem_of_ne_nil _ ht
  exact List.any_eq_true.2 ⟨_, Table.updateWhere_hit hs rfl, decide_eq_true ⟨rfl, rfl⟩⟩

omit [DecidableEq ι] in
theorem InOrder.schedule (hin : InOrder m' t h)
    (hq : MigrationStmt.scheduling (.schedule q) = true) (hr : q ≠ .reactivateSchedules)
    (hspare : ∀ id, q = .deactivateSchedule id → m'.status ≠ .scheduled) :
    InOrder m' (q.run now t).2 h := by
  cases q with
  | getDueSchedules => exact hin
  | tryClaimScheduleLock id =>
    simp only [ScheduleStmt.run]
    split_ifs
    · exact hin
    · exact hin.reschedule (fun ht => ht) fun _ ha => ha
  | updateNextRunAtIfUnchanged id expected next =>
    exact hin.reschedule Timetable.update_ne_nil fun _ => Timetable.awaited_advance
  | deactivateSchedule id =>
    exact hin.reschedule Timetable.update_ne_nil fun hs => absurd hs (hspare id rfl)
  | reactivateSchedules => exact absurd rfl hr
  | _ => cases hq

theorem InOrder.reactivate (hin : InOrder m' t h) (w w' : MigrationDb ι) :
    InOrder m' (ScheduleStmt.reactivateSchedules.run now t).2
      (Watch.note i (.schedule .reactivateSchedules) (.ok u) w w' h) :=
  { hin with
    waits := fun hs => .inl (Timetable.awaited_reactivate (hin.planned (.inl hs)))
    planned := fun hs => Timetable.update_ne_nil (hin.planned hs)
    discovered := fun j hj => hin.discovered j (Watch.discovered_of_note (by simp) hj) }

/-- A SCHEDULED migration is claimed: a new generation, which nobody has found lost. -/
theorem Ordered.claim {r : Except DbError Bool} (hm : w.parent = some m)
    (hin : InOrder m.stage w.timetable h)
    (hx : MigrationDb.run i .claimScheduledMigrationForIndexing o w = some (r, w')) :
    Ordered (w', Watch.note i .claimScheduledMigrationForIndexing r w w' h) := by
  rcases Outcome.sql_cases hx with hr | ⟨rfl, rfl⟩
  · unfold MigrationDb.claimScheduledMigrationForIndexing at hr
    by_cases hs : m.status = .scheduled
    · rw [MigrationDb.update_of_guard hm (decide_eq_true hs)] at hr
      cases hr
      refine ⟨_, rfl, ?_⟩
      exact
        { waits := nofun
          planned := fun _ => hin.planned (.inl hs)
          discovery := nofun
          discovered := fun j hj =>
            absurd hs (hin.discovery (hin.discovered j (Watch.discovered_of_note (by simp) hj))).1
          claimed := List.forall_mem_cons.2 ⟨le_rfl, fun g hg => Nat.le_succ_of_le (hin.claimed g hg)⟩
          lost := fun g hg => Nat.le_succ_of_le (hin.lost g hg)
          found := fun _ hg => absurd (hin.lost _ hg) (Nat.not_succ_le_self _) }
    · rw [MigrationDb.update_of_not_guard hm (decide_eq_false hs)] at hr
      cases hr
      exact ⟨m, hm, by rwa [Watch.note_eq rfl rfl rfl]⟩
  · exact ⟨m, hm, by rwa [Watch.note_eq rfl rfl rfl]⟩

theorem Ordered.recover {r : Except DbError Bool} (hm : w.parent = some m)
    (hin : InOrder m.stage w.timetable h)
    (hx : MigrationDb.run i (.recoverScheduledMigrations e) o w = some (r, w')) :
    Ordered (w', Watch.note i (.recoverScheduledMigrations e) r w w' h) := by
  rcases Outcome.sql_cases hx with hr | ⟨rfl, rfl⟩
  · unfold MigrationDb.recoverScheduledMigrations at hr
    by_cases hlost : m.indexerLost w.now = true
    · have hlostNow : (w.parent.filter (Migration.indexerLost w.now)).map (·.discoveryGeneration) =
          some m.discoveryGeneration := by
        simp [hm, hlost]
      have hindexing := m.indexing_of_indexerLost hlost
      by_cases hplan : w.hasSchedule = true
      · rw [MigrationDb.update_of_guard hm (decide_eq_true ⟨hlost, hplan⟩)] at hr
        cases hr
        refine ⟨_, rfl, ?_⟩
        exact
          { waits := fun _ => .inr ⟨i, by simp [Watch.note, Standing.next]⟩
            planned := fun _ => of_decide_eq_true hplan
            discovery := fun hd => absurd hindexing (hin.discovery hd).2
            discovered := fun j hj => hin.discovered j (Watch.discovered_of_note (by simp) hj)
            claimed := hin.claimed
            lost := by simpa [Watch.note, hlostNow, Migration.stage] using hin.lost
            found := fun _ _ => .inl rfl }
      · rw [MigrationDb.update_of_not_guard hm (decide_eq_false fun hp => hplan hp.2)] at hr
        cases hr
        -- a migration that was claimed from SCHEDULED has a schedule
        have hclaimed : h.claimed = [] := by
          by_contra hne
          exact hplan (decide_eq_true (hin.planned (.inr hne)))
        refine ⟨m, hm, ?_⟩
        exact { hin with
            waits := fun hs => absurd (hindexing.symm.trans hs) (by decide)
            discovered := fun j hj => hin.discovered j (Watch.discovered_of_note (by simp) hj)
            lost := by simpa [Watch.note, hlostNow, Migration.stage] using hin.lost
            found := fun hg => absurd hg (by simp [Watch.note, hclaimed]) }
    · rw [MigrationDb.update_of_not_guard hm (decide_eq_false fun hp => hlost hp.1)] at hr
      cases hr
      refine ⟨m, hm, ?_⟩
      rwa [Watch.note_eq rfl rfl (by simp [Watch.note, hm, hlost])]
  · exact ⟨m, hm, by rwa [Watch.note_eq rfl rfl rfl]⟩

theorem Ordered.discover {r : Except DbError Unit} (hm : w.parent = some m)
    (hin : InOrder m.stage w.timetable h)
    (hx : MigrationDb.run i (.transitionMigrationIndexingToRunningClaim g) o w = some (r, w')) :
    Ordered (w', Watch.note i (.transitionMigrationIndexingToRunningClaim g) r w w' h) := by
  rcases Outcome.sql_cases hx with hr | ⟨rfl, rfl⟩
  · unfold MigrationDb.transitionMigrationIndexingToRunningClaim at hr
    by_cases hg : m.indexedBy g = true
    · have hindexing := (m.indexed_of_indexedBy hg).1
      rw [MigrationDb.update_of_guard hm hg] at hr
      cases hr
      refine ⟨_, rfl, ?_⟩
      exact
        { waits := nofun
          planned := fun hs => hin.planned (hs.imp_left nofun)
          discovery := fun _ => ⟨nofun, nofun⟩
          discovered := fun _ _ => rfl
          claimed := hin.claimed
          lost := hin.lost
          found := fun hc hl => by simpa [hindexing] using hin.found hc hl }
    · rw [MigrationDb.update_of_not_guard hm (Bool.eq_false_of_not_eq_true hg)] at hr
      cases hr
      exact ⟨m, hm, by rwa [Watch.note_eq rfl rfl rfl]⟩
  · exact ⟨m, hm, by rwa [Watch.note_eq rfl rfl rfl]⟩

omit [DecidableEq ι] in
theorem InOrder.leave (hin : InOrder m' t h) (hgen : n.discoveryGeneration = m'.discoveryGeneration)
    (hdone : m'.discoveryComplete = true → n.discoveryComplete = true)
    (hn : n.status ≠ .scheduled ∧ n.status ≠ .indexing)
    (hfailed : m'.status = .scheduled ∨ m'.status = .failed → n.status = .failed) : InOrder n t h where
  waits hs := absurd hs hn.1
  planned hs := hin.planned (hs.imp_left fun hs => absurd hs hn.1)
  discovery _ := hn
  discovered j hj := hdone (hin.discovered j hj)
  claimed := hgen ▸ hin.claimed
  lost := hgen ▸ hin.lost
  found hc hl := .inr (hfailed (hin.found (hgen ▸ hc) (hgen ▸ hl)))

omit [DecidableEq ι] in
theorem InOrder.reconcile (hin : InOrder m' t h)
    (hd : m'.discoveryComplete = true) : InOrder (m'.reconcile tasks errors) t h := by
  obtain ⟨hs, hi⟩ := hin.discovery hd
  apply hin.leave (n := m'.reconcile tasks errors) rfl (fun hd => hd)
  · simp only [Stage.reconcile, Stage.reconciled]
    split_ifs
    · exact ⟨hs, hi⟩
    · exact absurd hd (And.right ‹_›)
    all_goals exact ⟨by decide, by decide⟩
  · rintro (hs' | hf)
    · exact absurd hs' hs
    · simp [Stage.reconcile, Stage.reconciled, hf, MigrationStatus.isTerminal]

omit [DecidableEq ι] in
/-- Any other call fails the discovery, finds nothing to do, or leaves the stage. -/
theorem InOrder.other (hin : InOrder m' t h) (hs : s.scheduling = true) (hplain : s.plain = true)
    (hc : s ≠ .claimScheduledMigrationForIndexing) (hmoves : m'.Moves now tasks errors s n) :
    InOrder n t h := by
  rcases hmoves with rfl | hstep
  · exact hin
  · cases hstep with
    | failIndexing | failStale => exact hin.leave rfl (fun hd => hd) ⟨nofun, nofun⟩ fun _ => rfl
    | nothingToDo hi =>
      apply hin.leave (n := { m'.renew .completed with discoveryComplete := true }) rfl (fun _ => rfl)
        ⟨nofun, nofun⟩
      simp [hi.1]
    | trigger _ => exact absurd rfl hc
    | reschedule | discovered | reconcile => cases hplain
    | _ => cases hs

theorem Ordered.schedule {r : Except DbError q.Val} (hv : Ordered v)
    (hq : MigrationStmt.scheduling (.schedule q) = true)
    (hspare : sparesWaiting i (.schedule q) v = true)
    (hanswer : (watchProtocol role).answers (.schedule q) r)
    (hx : MigrationDb.run i (.schedule q) o v.1 = some (r, w')) :
    Ordered (w', Watch.note i (.schedule q) r v.1 w' v.2) := by
  obtain ⟨m, hm, hin⟩ := hv
  by_cases hr : q = .reactivateSchedules
  · subst hr
    rcases Outcome.sql_cases hx with hr | ⟨rfl, rfl⟩
    · cases hr
      exact ⟨m, hm, hin.reactivate v.1 v.1⟩
    · exact absurd hanswer id
  · have hplain : (MigrationStmt.schedule q).plain = true := by
      cases q <;> first | rfl | exact absurd rfl hr
    rw [Watch.note_of_plain hplain (by intro h; cases h)]
    rcases Outcome.sql_cases hx with hr' | ⟨rfl, rfl⟩
    · cases hr'
      refine ⟨m, hm, hin.schedule hq hr ?_⟩
      rintro id rfl hs
      simp [sparesWaiting, hm] at hspare
      exact hspare hs
    · exact ⟨m, hm, hin⟩

theorem Ordered.exec {role : MigrationRole} (hrole : role.schedules = true) (hv : Ordered v)
    (hallowed : (watchProtocol role).allowed (v.2.standing i) s)
    (hanswer : (watchProtocol role).answers s r) (hspare : sparesWaiting i s v = true)
    (hx : MigrationDb.run i s o v.1 = some (r, w')) :
    Ordered (w', Watch.note i s r v.1 w' v.2) := by
  obtain ⟨hcalls, -, hdisc⟩ := hallowed
  have hs := scheduling_of_calls hrole hcalls
  by_cases hq : ∃ q, s = .schedule q
  · obtain ⟨q, rfl⟩ := hq
    exact hv.schedule hs hspare hanswer hx
  obtain ⟨m, hm, hin⟩ := hv
  have hstays : ¬ s.deletes := by
    rintro (rfl | rfl) <;> cases hs
  have hplans : s.plans = false := by
    cases s <;> first | rfl | exact absurd ⟨_, rfl⟩ hq | cases hs
  have htime := (run_follows hx hstays).timetable hplans
  obtain ⟨m', hm', hmoves, -⟩ := run_moved hx hm hstays
  by_cases hc : s = .claimScheduledMigrationForIndexing
  · subst hc
    exact .claim hm hin hx
  by_cases hplain : s.plain = true
  · refine ⟨m', hm', ?_⟩
    rw [Watch.note_of_plain hplain hc, htime]
    exact hin.other hs hplain hc hmoves
  cases s with
  | schedule q => exact absurd ⟨q, rfl⟩ hq
  | recoverScheduledMigrations e => exact .recover hm hin hx
  | transitionMigrationIndexingToRunningClaim g => exact .discover hm hin hx
  | reconcileMigrationProgress k =>
    obtain rfl : k = none := by
      cases k <;> first | rfl | cases hs
    have hindexer : role = .indexer := by
      cases role with
      | indexer => rfl
      | recoverIndexing => rcases hcalls with h | ⟨e, h⟩ | h | ⟨e, h⟩ <;> cases h
      | scheduler | clock => cases hcalls
      | _ => cases hrole
    have hdone := hin.discovered i (hdisc hindexer rfl)
    refine ⟨m', hm', ?_⟩
    rw [Watch.note_eq rfl rfl rfl, htime]
    rcases hmoves with hsame | hstep
    · rwa [hsame]
    · generalize m'.stage = n at hstep ⊢
      cases hstep with
      | reconcile _ => exact hin.reconcile hdone
  | _ => exact absurd rfl hplain

end Calls

/-! Whole runs. -/

section Runs

variable {role : ι → MigrationRole}

def sparingCrew (role : ι → MigrationRole) :
    Crew.Parts ι MigrationStmt (fun s => Except DbError s.Val) (MigrationDb ι × Watch ι) Outcome :=
  (watchedCrew role).restrict sparesWaiting

theorem exec_sparing (h : (sparingCrew role).exec i s o v = some (r, v')) :
    sparesWaiting i s v = true ∧ MigrationDb.run i s o v.1 = some (r, v'.1) ∧
      v' = (v'.1, Watch.note i s r v.1 v'.1 v.2) := by
  obtain ⟨hspare, hx⟩ := Crew.Parts.exec_restrict.1 h
  obtain ⟨hx, hnote⟩ := Crew.Parts.exec_watched.1 hx
  exact ⟨hspare, exec_run hx, Prod.ext rfl hnote⟩

theorem forget_self : ((sparingCrew role).leave i v).2.standing i = {} := if_pos rfl

theorem answers_of_uninterrupted (hok : Uninterrupted v (.exec i o))
    (hallowed : (watchProtocol (role i)).allowed (v.2.standing i) s)
    (hx : MigrationDb.run i s o v.1 = some (r, v'.1)) : (watchProtocol (role i)).answers s r := by
  simp only [watchProtocol]
  split
  · have ho := hok (hallowed.2.1.2 rfl)
    cases o with
    | unavailable => exact ho rfl
    | _ => cases hx
  · trivial

/-- A migration as it is created, before anybody has worked on it: when it is SCHEDULED, its
schedule will come due. -/
def Created (v : MigrationDb ι × Watch ι) : Prop :=
  v.2 = {} ∧ ∃ m, v.1.parent = some m ∧ (m.status = .scheduled → v.1.timetable.awaited = true) ∧
    (m.discoveryComplete = true → m.status ≠ .scheduled ∧ m.status ≠ .indexing)

omit [DecidableEq ι] in
theorem Created.ordered (hv : Created v) : Ordered v := by
  obtain ⟨hrecord, m, hm, hawait, hdone⟩ := hv
  refine ⟨m, hm, ?_⟩
  rw [hrecord]
  exact
    { waits := fun hs => .inl (hawait hs)
      planned := by
        rintro (hs | hc)
        · intro hnil
          have hnone := hawait hs
          rw [Timetable.awaited, hnil] at hnone
          cases hnone
        · exact absurd rfl hc
      discovery := hdone
      discovered := nofun
      claimed := nofun
      lost := nofun
      found := nofun }

theorem Ordered.leave (hv : Ordered v)
    (hi : (v.2.standing i).reactivates = false) : Ordered ((sparingCrew role).leave i v) := by
  obtain ⟨m, hm, hin⟩ := hv
  refine ⟨m, hm, ?_⟩
  exact { hin with
      waits := fun hs => by
        refine (hin.waits hs).imp_right ?_
        rintro ⟨j, hj⟩
        have hne : j ≠ i := by
          rintro rfl
          rw [hi] at hj
          cases hj
        exact ⟨j, (congrArg Standing.reactivates (if_neg hne)).trans hj⟩
      discovered := fun j hj => by
        by_cases hji : j = i
        · subst hji
          rw [forget_self] at hj
          cases hj
        · exact hin.discovered j ((congrArg Standing.discovered (if_neg hji)).symm.trans hj) }

theorem Standing.reactivates_of_next (h : (f.next s r).reactivates = true) :
    f.reactivates = true ∨ ∃ e, s = .recoverScheduledMigrations e := by
  unfold Standing.next at h
  split at h
  · exact .inr ⟨_, rfl⟩
  · cases h
  · exact .inl h
  · exact .inl h

theorem calls_recoverScheduled {role : MigrationRole} (hrole : role.schedules = true)
    (h : role.calls (.recoverScheduledMigrations e)) : role = .recoverIndexing := by
  cases role with
  | recoverIndexing => rfl
  | indexer => rcases h with h | ⟨g, h⟩ <;> cases h
  | scheduler | clock => cases h
  | _ => cases hrole

def Recovering (role : ι → MigrationRole) (v : MigrationDb ι × Watch ι) : Prop :=
  ∀ i, (v.2.standing i).reactivates = true → role i = .recoverIndexing

theorem Recovering.exec (hrole : ∀ i, (role i).schedules = true)
    (hv : Recovering role v) (hallowed : (watchProtocol (role i)).allowed (v.2.standing i) s) :
    Recovering role (w', Watch.note i s r v.1 w' v.2) := by
  intro j hj
  simp only [Watch.note] at hj
  split_ifs at hj with hji
  · subst hji
    rcases Standing.reactivates_of_next hj with hj | ⟨e, rfl⟩
    · exact hv j hj
    · exact calls_recoverScheduled (hrole j) hallowed.1
  · exact hv j hj

theorem Recovering.leave (hv : Recovering role v) :
    Recovering role ((sparingCrew role).leave i v) := by
  intro j hj
  by_cases hji : j = i
  · subst hji
    rw [forget_self] at hj
    cases hj
  · exact hv j ((congrArg Standing.reactivates (if_neg hji)).symm.trans hj)

def watchSession (hrole : ∀ i, (role i).schedules = true) :
    Crew.Session (sparingCrew role) Uninterrupted Standing where
  T i := watchProtocol (role i)
  state i v := v.2.standing i
  idle _ f := f.reactivates = false
  inv v := Ordered v ∧ Recovering role v
  program i _ hf := .bind ((follows_program (hrole i) hf).mono fun _ _ hg => hg)
  answers hok _ hallowed hx := answers_of_uninterrupted hok hallowed (exec_sparing hx).2.1
  next hx := by
    obtain ⟨-, -, hv'⟩ := exec_sparing hx
    rw [hv']
    exact ⟨if_pos rfl, fun j hj => if_neg hj⟩
  keep _ hv hallowed hans hx := by
    obtain ⟨hspare, hx, hv'⟩ := exec_sparing hx
    rw [hv']
    exact ⟨hv.1.exec (hrole _) hallowed hans hspare hx, hv.2.exec hrole hallowed⟩
  finish _ _ _ := congrArg Standing.reactivates forget_self
  stop _ _ _ := congrArg Standing.reactivates forget_self
  others i j v hj := if_neg hj
  leave i v hidle hv := ⟨hv.1.leave (hidle.elim id id), hv.2.leave⟩

theorem watchSession_holds (hrole : ∀ i, (role i).schedules = true)
    (hreach : Crew.Reach (sparingCrew role) Uninterrupted Created c) :
    (watchSession hrole).Holds c := by
  apply Crew.Session.sound _ _ hreach
  · intro v hv
    refine ⟨hv.ordered, ?_⟩
    intro i hi
    rw [hv.1] at hi
    cases hi
  · intro i v hv
    exact congrArg (fun h : Watch ι => (h.standing i).reactivates) hv.1

/-- In every state in which no step of the scheduler is under way, a SCHEDULED migration has a
schedule that will come due; and a migration that was claimed from SCHEDULED and whose indexer a
recovery has found lost is SCHEDULED again, or has ended, or is paused. -/
theorem scheduled_never_stranded (hrole : ∀ i, (role i).schedules = true)
    {c : Crew.Config ι MigrationStmt (fun s => Except DbError s.Val) (MigrationDb ι × Watch ι)}
    (hreach : Crew.Reach (sparingCrew role) Uninterrupted Created c)
    (hquiet : ∀ i, role i = .scheduler ∨ role i = .recoverIndexing → c.running i = none) :
    ∃ m, c.world.1.parent = some m ∧ (m.status = .scheduled → c.world.1.timetable.awaited = true) ∧
      (m.discoveryGeneration ∈ c.world.2.claimed → m.discoveryGeneration ∈ c.world.2.lost →
        (m.status = .scheduled ∧ c.world.1.timetable.awaited = true) ∨ m.status.isTerminal = true ∨
          m.status = .paused ∨ m.status = .pausedConnectionLoss) := by
  have hholds := watchSession_holds hrole hreach
  obtain ⟨⟨m, hm, hin⟩, hrecovers⟩ := hholds.inv
  have hawait : m.status = .scheduled → c.world.1.timetable.awaited = true := by
    intro hs
    rcases hin.waits hs with ht | ⟨i, hi⟩
    · exact ht
    · have hidle := hholds.resting i (hquiet i (.inr (hrecovers i hi)))
      exact absurd (hi.symm.trans hidle) (by decide)
  refine ⟨m, hm, hawait, ?_⟩
  intro hclaimed hlost
  rcases hin.found hclaimed hlost with hs | hf
  · exact .inl ⟨hs, hawait hs⟩
  · have hf : m.status = .failed := hf
    rw [hf]
    exact .inr (.inl rfl)

/-! A recovery that does not get to the schedule, and a scheduler that is late. -/

def strandingRoles : Fin 3 → MigrationRole
  | 0 => .scheduler
  | 1 => .recoverIndexing
  | 2 => .clock

def waitingMigration : MigrationDb (Fin 3) × Watch (Fin 3) :=
  ({ parent := some { status := .scheduled, userID := some 1, selectedPaths := [['/']] }
     timetable := { schedules := [{ id := 7, userID := 1, nextRunAt := some 0 }] } }, {})

theorem created_waitingMigration : Created waitingMigration := by
  refine ⟨rfl, _, rfl, fun _ => rfl, ?_⟩
  intro hd
  cases hd

def claimDue : List (Crew.Label (Fin 3) Outcome) :=
  [.start 0, .exec 0 .done, .exec 0 .done, .exec 0 .done, .exec 0 .done]

def deactivateDue : List (Crew.Label (Fin 3) Outcome) := [.exec 0 .done, .finish 0]

def recoverLost : List (Crew.Label (Fin 3) Outcome) :=
  [.start 2, .exec 2 (.number 1200), .finish 2, .start 1, .exec 1 .done]

def reactivateLost : List (Crew.Label (Fin 3) Outcome) :=
  [.exec 1 .done, .exec 1 .done, .finish 1]

/-- After the recovery of an indexer that was lost. -/
theorem recovered_waits_again :
    ∃ c, Crew.Reach (sparingCrew strandingRoles) Uninterrupted Created c ∧
      c.world.1.parent.map (·.status) = some .scheduled ∧ c.world.1.timetable.awaited = true := by
  have hrun : (Crew.runIf (sparingCrew strandingRoles) (fun v l => decide (Uninterrupted v l))
      (claimDue ++ deactivateDue ++ recoverLost ++ reactivateLost) { world := waitingMigration }).map
      (fun c => (c.world.1.parent.map (·.status), decide (∀ i, (c.running i).isNone = true))) =
      some (some .scheduled, true) := by decide +kernel
  obtain ⟨c, hreach, h⟩ := Crew.Reach.runIf_map (fun _ _ => of_decide_eq_true)
    created_waitingMigration hrun
  obtain ⟨hstatus, hidle⟩ := Prod.mk.inj h
  have hquiet (i : Fin 3) : c.running i = none :=
    Option.isNone_iff_eq_none.1 (of_decide_eq_true hidle i)
  have hrole : ∀ i, (strandingRoles i).schedules = true := by decide
  obtain ⟨m, hm, hawait, -⟩ := scheduled_never_stranded hrole hreach fun i _ => hquiet i
  refine ⟨c, hreach, hstatus, hawait ?_⟩
  rw [hm] at hstatus
  exact Option.some.inj hstatus

/-- Nobody is at work, and a SCHEDULED migration has no schedule that will come due. -/
def Stranded (c : Crew.Config (Fin 3) MigrationStmt (fun s => Except DbError s.Val)
    (MigrationDb (Fin 3) × Watch (Fin 3))) : Bool :=
  (decide (∀ i, (c.running i).isNone = true)) &&
    (c.world.1.parent.any (·.status = .scheduled) && !c.world.1.timetable.awaited)

/-- The recovery is stopped after its first statement; or the scheduler deactivates the schedule of
a migration that has been recovered in the meantime. -/
theorem scheduled_migration_stranded :
    (∃ c, Crew.Reach (watchedCrew strandingRoles) (fun _ _ => True) Created c ∧
      Stranded c = true ∧ c.world.1.timetable.schedules.map (·.isActive) = [false]) ∧
    ∃ c, Crew.Reach (watchedCrew strandingRoles) Uninterrupted Created c ∧
      Stranded c = true ∧ c.world.1.timetable.schedules.map (·.isActive) = [false] := by
  constructor
  · have hrun : (Crew.run (watchedCrew strandingRoles)
        (claimDue ++ deactivateDue ++ recoverLost ++ [.stop 1]) { world := waitingMigration }).map
        (fun c => (Stranded c, c.world.1.timetable.schedules.map (·.isActive))) =
        some (true, [false]) := by decide +kernel
    obtain ⟨c, hreach, h⟩ := Crew.Reach.run_map created_waitingMigration hrun
    exact ⟨c, hreach, Prod.mk.inj h⟩
  · have hrun : (Crew.runIf (watchedCrew strandingRoles) (fun v l => decide (Uninterrupted v l))
        (claimDue ++ recoverLost ++ reactivateLost ++ deactivateDue)
        { world := waitingMigration }).map
        (fun c => (Stranded c, c.world.1.timetable.schedules.map (·.isActive))) =
        some (true, [false]) := by decide +kernel
    obtain ⟨c, hreach, h⟩ := Crew.Reach.runIf_map (fun _ _ => of_decide_eq_true)
      created_waitingMigration hrun
    exact ⟨c, hreach, Prod.mk.inj h⟩

end Runs

end Clumoove.Queue
