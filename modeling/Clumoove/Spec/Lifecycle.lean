import Clumoove.Spec.Catalog
import Clumoove.Spec.Runs

/-! One job under any sequence of the operations that touch its status, its runs or the state
of its snapshots. The arguments are arbitrary: a worker may come with a generation, a run or an
expected state that is long out of date. -/

namespace Clumoove

/-- A job as `CreateBackupJobAndScheduleContext` leaves it. -/
def newBackupJob (config : Job) : Db where
  job := some { config with
    status := .idle, runGeneration := 0, lastRunStatus := none, totals := {}, errorCode := none
    deletionState := .active }

/-- The database after a transaction; a refused one leaves it as it was. -/
def Tx.commit {α : Type} (tx : Tx α) (db : Db) : Db :=
  match tx db with
  | .ok (_, db') => db'
  | .error _ => db

inductive LifecycleOp
  | claimPass (trigger : Trigger) (scheduledLocalKey : Option String)
  | claimQueued
  | transition (generation runId : ℕ) (expected next : RunState)
  | finalize (generation runId : ℕ) (expected terminal : RunState) (totals : Totals)
      (errorCode : Option String)
  | fail (generation runId : ℕ) (expected : RunState) (errorCode : String)
  | createDraft (runId : ℕ) (selectedRoots : List Path)
  | discardDraft (snapshotId runId : ℕ)
  | publish (generation runId snapshotId : ℕ) (c : PublishCounts)
  | touch (generation runId : ℕ)
  | recoverStale
  | pause
  | resume
  | suspend
  | requestDeletion
  | expire (keep : ℕ)
  | packDamaged (packId : ℕ)
  | tick (seconds : ℕ)

/-- The states a worker publishes: a run that left out unstable files is partial. -/
def publishStates (c : PublishCounts) : SnapshotState × RunState :=
  if c.unstableFiles > 0 then (.partially, .partially) else (.ready, .completed)

def LifecycleOp.apply : LifecycleOp → Db → Db
  | .claimPass trigger key => (claimBackupJobPass trigger key).commit
  | .claimQueued => claimNextQueuedBackupRun.commit
  | .transition generation runId expected next =>
    (transitionBackupRun generation runId expected next).commit
  | .finalize generation runId expected terminal totals errorCode =>
    (finalizeBackupRun generation runId expected terminal totals errorCode).commit
  | .fail generation runId expected errorCode =>
    (failBackupRun generation runId expected errorCode).commit
  | .createDraft runId selectedRoots => (createBackupSnapshotDraft runId selectedRoots).commit
  | .discardDraft snapshotId runId => (discardBackupSnapshotDraft snapshotId runId).commit
  | .publish generation runId snapshotId c =>
    (publishBackupSnapshotAndFinalize generation runId snapshotId (publishStates c).1
      (publishStates c).2 c).commit
  | .touch generation runId => (touchBackupRun generation runId).commit
  | .recoverStale => recoverStaleBackupRuns.commit
  | .pause => pauseBackup.commit
  | .resume => resumeBackup.commit
  | .suspend => suspendUser.commit
  | .requestDeletion => requestBackupRepositoryDeletion.commit
  | .expire keep => (expireBackupSnapshots keep).commit
  | .packDamaged packId => (markBackupPackDamaged packId).commit
  | .tick seconds => fun db => { db with now := db.now + seconds }

def runLifecycle (db : Db) (ops : List LifecycleOp) : Db := ops.foldl (fun db op => op.apply db) db

end Clumoove
