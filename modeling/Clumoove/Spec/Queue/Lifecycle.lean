import Clumoove.Spec.Queue.Indexer

/-! The life of a migration, seen from above: the stages it goes through, and which call may take it
from one stage to the next. Counters, messages and the lease of the indexer do not matter here. -/

namespace Clumoove.Queue

structure Stage where
  status : MigrationStatus
  selections : List Selection
  discoveryComplete : Bool
  discoveryGeneration : ℕ
  verificationGeneration : ℕ
  verificationLeaseUntil : Option ℕ
  notificationGeneration : ℕ
  deriving DecidableEq

def Migration.stage (m : Migration) : Stage where
  status := m.status
  selections := m.selections
  discoveryComplete := m.discoveryComplete
  discoveryGeneration := m.discoveryGeneration
  verificationGeneration := m.verificationGeneration
  verificationLeaseUntil := m.verificationLeaseUntil
  notificationGeneration := m.notificationGeneration

namespace Stage

/-- Back to work after a pause. -/
def goOn (s : Stage) : Stage :=
  if s.discoveryComplete then { s with status := .running }
  else { s with status := .indexing, discoveryGeneration := s.discoveryGeneration + 1 }

def indexed (generation : ℕ) (s : Stage) : Prop :=
  s.status = .indexing ∧ (generation = 0 ∨ s.discoveryGeneration = generation)

def verified (generation now : ℕ) (s : Stage) : Prop :=
  s.status = .verifying ∧ s.verificationGeneration = generation ∧
    s.verificationLeaseUntil.any (now < ·) = true

/-- The status that the tasks and the indexing errors call for. -/
def reconciled (tasks : List Task) (errors : List IndexingError) (s : Stage) : MigrationStatus :=
  if s.status.isTerminal ∨ s.status = .paused ∨ s.status = .pausedConnectionLoss then s.status
  else if s.status = .indexing ∧ ¬ s.discoveryComplete then .indexing
  else if tasks.any Task.isOpen then .running
  else if tasks.any Task.isUnverified then .verifying
  else if countOf .failed tasks + countOf .cancelled tasks + errors.length > 0 then
    .completedWithErrors
  else .completed

/-- A status that somebody sets; leaving an announced end begins a new generation of
notifications. -/
def setStatus (status : MigrationStatus) (s : Stage) : Stage :=
  { s with
    status
    notificationGeneration :=
      if isTerminalMigrationStatus s.status ∧ ¬ isTerminalMigrationStatus status then
        s.notificationGeneration + 1
      else s.notificationGeneration }

/-- The way to or from an end that is announced under a generation of its own. -/
def renew (status : MigrationStatus) (s : Stage) : Stage :=
  { s with status, notificationGeneration := s.notificationGeneration + 1 }

def reconcile (tasks : List Task) (errors : List IndexingError) (s : Stage) : Stage :=
  { s with
    status := s.reconciled tasks errors
    notificationGeneration :=
      if (s.status = .running ∨ s.status = .verifying) ∧ ¬ tasks.any Task.isOpen ∧
          ¬ tasks.any Task.isUnverified then s.notificationGeneration + 1
      else s.notificationGeneration }

variable (now : ℕ) (tasks : List Task) (errors : List IndexingError)

/-- The calls that take a migration to another stage, with what they ask of the stage before. -/
inductive Step : MigrationStmt → Stage → Stage → Prop
  | setStatus {s st e} : Step (.updateMigrationStatus st e) s (s.setStatus st)
  | lose {s} : s.status.isActive →
      Step .pauseMigrationForConnectionLoss s { s with status := .pausedConnectionLoss }
  | suspend {s user} : s.status.isActive → Step (.suspendUser user) s { s with status := .paused }
  | recover {s} : s.status = .pausedConnectionLoss → Step .recoverConnectionLostMigration s s.goOn
  | resume {s} : s.status = .paused ∨ s.status = .pausedConnectionLoss →
      Step .resumeMigration s s.goOn
  | failIndexing {s g e} : s.indexed g →
      Step (.failMigrationWhileIndexingClaim g e) s (s.renew .failed)
  | failStale {s e} : s.status = .indexing →
      Step (.failStaleIndexingMigration e) s (s.renew .failed)
  | reschedule {s e} : s.status = .indexing →
      Step (.recoverScheduledMigrations e) s { s with status := .scheduled }
  | trigger {s} : s.status = .scheduled → Step .claimScheduledMigrationForIndexing s { s with
          status := .indexing, discoveryComplete := false
          discoveryGeneration := s.discoveryGeneration + 1 }
  | discovered {s g} : s.indexed g → Step (.transitionMigrationIndexingToRunningClaim g) s
        { s with status := .running, discoveryComplete := true }
  | nothingToDo {s g} : s.indexed g → Step (.transitionMigrationIndexingToCompletedClaim g) s
        { s.renew .completed with discoveryComplete := true }
  | reconcile {s g} : (∀ k, g = some k → s.verified k now) →
      Step (.reconcileMigrationProgress g) s (s.reconcile tasks errors)
  | authFailed {s t e} : s.status.isActive →
      Step (.failMigrationForAuthentication t e) s (s.renew .failed)
  | retry {s} : s.status = .completed ∨ s.status = .failed ∨ s.status = .completedWithErrors →
      Step .resetFailedTasksForRetry s (s.renew .running)
  | reindex {s} : Step .resetMigrationForReindex s { s.renew .indexing with
          discoveryComplete := false
          discoveryGeneration := s.discoveryGeneration + 1 }
  | claim {s} : s.status = .verifying → s.verificationLeaseUntil.all (· ≤ now) = true →
      Step .claimMigrationVerification s { s with
          verificationGeneration := s.verificationGeneration + 1
          verificationLeaseUntil := some (now + verificationLease) }
  | renew {s g} : s.verified g now → Step (.renewMigrationVerificationLease g) s
        { s with verificationLeaseUntil := some (now + verificationLease) }
  | release {s g} : s.verificationGeneration = g → s.status = .verifying →
      Step (.releaseMigrationVerificationLease g) s { s with verificationLeaseUntil := none }
  | mismatch {s copy g} : s.verified g now → Step (.markMigrationTaskChecksumMismatch copy g) s
        { s with status := if copy.nextRetryAt.isSome then .running else s.status }

/-- What a call does to the stage of a migration that stays. -/
def Moves (c : MigrationStmt) (s s' : Stage) : Prop := s' = s ∨ Step now tasks errors c s s'

end Stage

/-- The calls that may write an event of the end they bring the migration to. -/
def MigrationStmt.announces : MigrationStmt → Bool
  | .updateMigrationStatus _ _ | .failMigrationWhileIndexingClaim _ _
  | .failStaleIndexingMigration _ | .transitionMigrationIndexingToCompletedClaim _
  | .reconcileMigrationProgress _ | .failMigrationForAuthentication _ _
  | .createMigrationNotificationEvent => true
  | _ => false

/-- The calls that delete the migration. -/
def MigrationStmt.deletes (c : MigrationStmt) : Prop :=
  c = .deleteMigrationCascade ∨ c = .deleteOldMigrations

end Clumoove.Queue
