import Clumoove.Sanity.Queue.Calls
import Clumoove.Sanity.Queue.Lifecycle

/-! A migration that has come to its end stays as it is until its owner asks for another run or it is
deleted, provided that the updates which set a status or start a new discovery meet a row they are
meant for. The handlers check that in an earlier call, or not at all. -/

namespace Clumoove.Queue

open Prog

variable {ι : Type} [DecidableEq ι]

/-- An update of the status does not meet a migration at its end, a new discovery not one that was
cancelled. -/
def inTime (_ : ι) (s : MigrationStmt) (w : MigrationDb ι) : Bool :=
  match s with
  | .updateMigrationStatus _ _ => !w.parent.any (·.status.isTerminal)
  | .resetMigrationForReindex => !w.parent.any (·.status = .cancelled)
  | _ => true

def MigrationDb.status (w : MigrationDb ι) : Option MigrationStatus := w.parent.map (·.status)

/-- The ways out of a terminal status, with who takes them. -/
inductive Leaves (role : MigrationRole) (s : MigrationStmt) (before : MigrationStatus) :
    Option MigrationStatus → Prop
  | retry {user : ℕ} : role = .retryFailed user ∨ role = .reauth user →
      s = .resetFailedTasksForRetry → before ≠ .cancelled → Leaves role s before (some .running)
  | reindex {user : ℕ} : role = .reindex user → s = .resetMigrationForReindex →
      before ≠ .cancelled → Leaves role s before (some .indexing)
  | delete {user : ℕ} : role = .delete user → s = .deleteMigrationCascade → Leaves role s before none
  | expire : role = .retention → s = .deleteOldMigrations → Leaves role s before none

attribute [local simp] MigrationRole.calls workerCalls indexerCalls verifierCalls schedulerCalls reads

theorem calls_retry {role : MigrationRole} (h : role.calls .resetFailedTasksForRetry) :
    ∃ user, role = .retryFailed user ∨ role = .reauth user := by
  cases role with
  | retryFailed user => exact ⟨user, .inl rfl⟩
  | reauth user => exact ⟨user, .inr rfl⟩
  | _ => simp at h

theorem calls_reindex {role : MigrationRole} (h : role.calls .resetMigrationForReindex) :
    ∃ user, role = .reindex user := by
  cases role with
  | reindex user => exact ⟨user, rfl⟩
  | _ => simp at h

theorem calls_delete {role : MigrationRole} (h : role.calls .deleteMigrationCascade) :
    ∃ user, role = .delete user := by
  cases role with
  | delete user => exact ⟨user, rfl⟩
  | _ => simp at h

theorem calls_expire {role : MigrationRole} (h : role.calls .deleteOldMigrations) :
    role = .retention := by
  cases role with
  | retention => rfl
  | _ => simp at h

theorem leaves_of_exec
    {w w' : MigrationDb ι} (hx : ((migrationCrew role).restrict inTime).exec i s o w = some (r, w'))
    (hcalls : (role i).calls s) (hm : w.parent = some m) (hterm : m.status.isTerminal = true)
    (hchange : w'.status ≠ some m.status) : Leaves (role i) s m.status w'.status := by
  obtain ⟨htime, hexec⟩ := Crew.Parts.exec_restrict.1 hx
  have hrun := exec_run hexec
  by_cases hdel : s.deletes
  · rcases run_deletes hrun hdel with hsame | hnone
    · exact absurd (by rw [MigrationDb.status, (Prod.mk.inj hsame).1, hm]; rfl) hchange
    · have hw' : w'.status = none := by rw [MigrationDb.status, hnone]; rfl
      rw [hw']
      rcases hdel with rfl | rfl
      · obtain ⟨user, hrole⟩ := calls_delete hcalls
        exact .delete hrole rfl
      · exact .expire (calls_expire hcalls) rfl
  · obtain ⟨m', hm', hmoves, -⟩ := run_moved hrun hm hdel
    have hw' : w'.status = some m'.status := by rw [MigrationDb.status, hm']; rfl
    rw [hw'] at hchange ⊢
    rcases hmoves with hsame | hstep
    · exact absurd (congrArg some (congrArg Stage.status hsame)) hchange
    · have hne : m'.stage.status ≠ m.stage.status := fun h => hchange (congrArg some h)
      rcases hstep.of_terminal hterm hne with ⟨st, e, rfl⟩ | ⟨rfl, hnc, hrunning⟩ | ⟨rfl, hindexing⟩
      · simp [inTime, hm, hterm] at htime
      · obtain ⟨user, hrole⟩ := calls_retry hcalls
        have hst : m'.status = .running := hrunning
        rw [hst]
        exact .retry hrole rfl hnc
      · obtain ⟨user, hrole⟩ := calls_reindex hcalls
        have hst : m'.status = .indexing := hindexing
        rw [hst]
        refine .reindex hrole rfl ?_
        simpa [inTime, hm] using htime

/-- In every run whose calls come in time, a migration leaves a terminal status by a call that its
owner has asked for, or by its deletion; it is never paused or cancelled then, and one that was
cancelled does not run again. -/
theorem terminal_left_only_on_request {role : ι → MigrationRole}
    {c c' : Crew.Config ι MigrationStmt (fun s => Except DbError s.Val) (MigrationDb ι)}
    {l : Crew.Label ι Outcome} {m : Migration}
    (hreach : Crew.Reach ((migrationCrew role).restrict inTime) (fun _ _ => True) (fun _ => True) c)
    (hstep : Crew.step ((migrationCrew role).restrict inTime) c l = some c')
    (hm : c.world.parent = some m) (hterm : m.status.isTerminal = true)
    (hchange : c'.world.status ≠ some m.status) :
    (∃ i o s k, l = .exec i o ∧ c.running i = some (.call s k) ∧
      Leaves (role i) s m.status c'.world.status) ∧
    c'.world.status ≠ some .paused ∧ c'.world.status ≠ some .cancelled ∧
    (m.status = .cancelled → c'.world.status ≠ some .running ∧ c'.world.status ≠ some .indexing) := by
  have hleaves : ∃ i o s k, l = .exec i o ∧ c.running i = some (.call s k) ∧
      Leaves (role i) s m.status c'.world.status := by
    rcases Crew.step_cases hstep with ⟨i, -, -, -, rfl⟩ | ⟨i, o, s, k, r, w, hl, hrun, hx, rfl⟩ |
      ⟨i, p, -, -, rfl⟩
    · exact absurd (by rw [MigrationDb.status]; simp [Crew.Config.set, hm]) hchange
    · have hprogram : ∀ i, (((migrationCrew role).restrict inTime).program i).Uses (role i).calls :=
        migrationCrew_uses role
      have hcalls := hreach.allowed hprogram hrun
      exact ⟨i, o, s, k, hl, hrun, leaves_of_exec hx hcalls hm hterm hchange⟩
    · refine absurd ?_ hchange
      show Option.map _ c.world.parent = _
      rw [hm]
      rfl
  refine ⟨hleaves, ?_⟩
  obtain ⟨i, o, s, k, -, -, hl⟩ := hleaves
  generalize c'.world.status = after at hl
  cases hl with
  | retry _ _ hnc | reindex _ _ hnc => exact ⟨by decide, by decide, fun h => absurd h hnc⟩
  | delete | expire => exact ⟨by decide, by decide, fun _ => ⟨by decide, by decide⟩⟩

def failedMigration : MigrationDb Unit where
  parent := some { status := .failed, userID := some 1 }
  tasks := [{ id := 1, status := .failed }]

/-- Its owner asks for another try. -/
theorem retry_leaves_failed :
    ∃ c c', Crew.Reach ((migrationCrew fun _ : Unit => .retryFailed 1).restrict inTime)
        (fun _ _ => True) (fun _ => True) c ∧
      Crew.step ((migrationCrew fun _ : Unit => .retryFailed 1).restrict inTime) c (.exec () .done) =
        some c' ∧ c'.world.status = some .running ∧ c'.world.status ≠ some .cancelled := by
  have hrun := Crew.Reach.run_step_map (P := fun _ => True) (w := failedMigration)
    (x := some .failed) (y := some .running)
    ((migrationCrew fun _ : Unit => .retryFailed 1).restrict inTime) (fun c => c.world.status) trivial
    [.start (), .exec () .done, .exec () .done] (.exec () .done) (by decide +kernel)
  obtain ⟨c, c', hreach, hstep, hbefore, hafter⟩ := hrun
  obtain ⟨m, hm, hst⟩ := Option.map_eq_some_iff.1 hbefore
  have h := terminal_left_only_on_request hreach hstep hm (by rw [hst]; rfl)
    (by rw [hafter, hst]; decide)
  exact ⟨c, c', hreach, hstep, hafter, h.2.2.1⟩

/-! What happens without that. -/

def requests : Fin 4 → MigrationRole
  | 0 => .indexer
  | 1 => .pause 1
  | 2 => .cancel 1
  | 3 => .reindex 1

def newMigration : MigrationDb (Fin 4) where
  parent := some
    { status := .indexing, userID := some 1, selectedPaths := [['/']]
      indexingLeaseUntil := some indexingLeaseDuration }

def indexingNothing : List (Crew.Label (Fin 4) Outcome) :=
  [.start 0, .exec 0 .done, .exec 0 .done, .exec 0 (.source none), .exec 0 .done,
    .exec 0 (.number 0), .exec 0 (.visit (.folder none [] [])), .exec 0 .done, .exec 0 .done,
    .exec 0 .done, .exec 0 .done]

def indexingFails : List (Crew.Label (Fin 4) Outcome) :=
  [.start 0, .exec 0 .done, .exec 0 .done, .exec 0 (.source (some "no connection")), .exec 0 .done]

/-- A finished migration is cancelled, one that finishes after the check of the pause handler is
paused, and one that is cancelled after the check of the re-index handler is indexed again. -/
theorem terminal_status_overwritten :
    (∃ c c', Crew.Reach (migrationCrew requests) (fun _ _ => True) (· = newMigration) c ∧
      Crew.step (migrationCrew requests) c (.exec 2 .done) = some c' ∧
      c.world.status = some .completed ∧ c'.world.status = some .cancelled) ∧
    (∃ c c', Crew.Reach (migrationCrew requests) (fun _ _ => True) (· = newMigration) c ∧
      Crew.step (migrationCrew requests) c (.exec 1 .done) = some c' ∧
      c.world.status = some .completed ∧ c'.world.status = some .paused) ∧
    ∃ c c', Crew.Reach (migrationCrew requests) (fun _ _ => True) (· = newMigration) c ∧
      Crew.step (migrationCrew requests) c (.exec 3 .done) = some c' ∧
      c.world.status = some .cancelled ∧ c'.world.status = some .indexing := by
  refine ⟨?_, ?_, ?_⟩
  · apply Crew.Reach.run_step_map (P := (· = newMigration)) (migrationCrew requests)
      (fun c => c.world.status) rfl (indexingNothing ++ [.start 2, .exec 2 .done])
    decide +kernel
  · apply Crew.Reach.run_step_map (P := (· = newMigration)) (migrationCrew requests)
      (fun c => c.world.status) rfl ([.start 1, .exec 1 .done, .exec 1 .done] ++ indexingNothing)
    decide +kernel
  · apply Crew.Reach.run_step_map (P := (· = newMigration)) (migrationCrew requests)
      (fun c => c.world.status) rfl (indexingFails ++ [.start 3, .exec 3 .done, .exec 3 .done,
        .start 2, .exec 2 .done, .exec 2 .done])
    decide +kernel

end Clumoove.Queue
