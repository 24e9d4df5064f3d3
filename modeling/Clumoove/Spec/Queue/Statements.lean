import Clumoove.Spec.Queue.Migrations

/-! The calls of the processes that work on a migration. A database call runs as one statement or
does not get through. Everything the processes learn from elsewhere (the providers, the caches, the
passing of time) is an answer that nothing is assumed about. -/

namespace Clumoove.Queue

open Prog
open Transfer (Text ResourceType)

/-- An error of a transfer, as the failure handler tells them apart. -/
structure Failure where
  message : String := ""
  /-- The context was cancelled, or the worker shuts down. -/
  cancelled : Bool := false
  network : Bool := false
  permanent : Bool := false
  auth : Bool := false
  /-- `oauthAuthFailureRole` finds a side whose token can be refreshed. -/
  refreshable : Bool := false
  /-- The delay that a `RetryAfterError` asks for. -/
  retryAfter : ℕ := 0
  deriving DecidableEq

/-- What becomes of a task before its transfer. -/
inductive Resolution
  | failed (f : Failure)
  | skip (reason : String)
  | collision (name : String)
  | directory
  | target (resolved : Option Text)
  deriving DecidableEq

inductive Beat
  | bytes (n : ℕ)
  | heartbeat
  deriving DecidableEq

structure Upload where
  workerHash : String := "DYNAMIC"
  targetHash : String := "DYNAMIC"
  /-- The ID an Immich server gave to the upload, as new metadata. -/
  metadata : Option Text := none
  verified : Bool := false
  /-- The source of a move could not be deleted. -/
  sourceKept : Option Failure := none
  deriving DecidableEq

inductive Transferred
  | failed (f : Failure)
  | skip (reason : String)
  | done (u : Upload)
  deriving DecidableEq

/-- A transfer, with what the goroutines beside it do meanwhile. -/
structure Stream where
  beats : List Beat := []
  result : Transferred
  deriving DecidableEq

/-- What an indexer finds at a selection. The tasks are those for the resources it came upon, whether
they have been indexed before or not. -/
inductive Visit
  | failed (errorMessage : String)
  | ignored
  | file (t : Task)
  | folder (root : Option Task) (found : List Task) (errors : List IndexingError)
  deriving DecidableEq

inductive Comparison
  | undecided
  | matching (targetHash : String)
  | mismatch (errorMessage targetHash : String)
  deriving DecidableEq

/-- What the goroutines of a verification pass come to next: all are done, the pass is cancelled, or
one of them has compared a task. -/
inductive Verification
  | finished
  | aborted
  | compared (k : ℕ) (c : Comparison)
  deriving DecidableEq

inductive MigrationStmt
  | dequeue (d : DequeueStmt)
  | verifyMigrationOwnership (user : ℕ)
  | getMigration
  | getTask (id : ℕ)
  | updateMigrationStatus (status : MigrationStatus) (errMsg : Option String)
  | pauseMigrationForConnectionLoss
  | recoverConnectionLostMigration
  | resumeMigration
  | failMigrationWhileIndexingClaim (generation : ℕ) (errMsg : String)
  | failStaleIndexingMigration (errMsg : String)
  | recoverScheduledMigrations (errMsg : String)
  | isOrphanedImmediate
  | claimScheduledMigrationForIndexing
  | renewMigrationIndexingLease (generation duration : ℕ)
  | transitionMigrationIndexingToRunningClaim (generation : ℕ)
  | transitionMigrationIndexingToCompletedClaim (generation : ℕ)
  | maybeRetryFailedMigrationTasks
  | createMigrationTaskWhileIndexingClaim (t : Task) (generation : ℕ)
  | bulkCreateMigrationTasksWhileIndexingClaim (generation : ℕ) (ts : List Task)
  | updateMigrationTotalsWhileIndexingClaim (generation totalFiles totalBytes : ℕ)
  | migrationTaskTotals
  | migrationIndexedTaskKeys
  | recordIndexingErrors (errors : List IndexingError)
  | noteTraversed (generation : ℕ) (selection : Selection) (errors : List IndexingError)
  | updateMigrationThreads (threads : ℕ)
  | addLiveBytes (bytesDelta : ℕ)
  | resetLiveBytes
  | reconcileMigrationProgress (generation : Option ℕ)
  | updateClaimedTaskStatus (t : Task)
  | heartbeatTaskClaim (id claimEpoch : ℕ)
  | transitionClaimedTask (id claimEpoch : ℕ) (status : TaskStatus)
  | updateClaimedTaskResolvedTargetPath (id claimEpoch : ℕ) (targetPath : Text)
  | updateClaimedTaskMetadata (id claimEpoch : ℕ) (metadata : Text)
  | updateMigrationTaskAndProgress (t : Task) (d : Progress)
  | failMigrationForAuthentication (t : Task) (errMsg : String)
  | cancelPendingTasks
  | resetFailedTasksForRetry
  | resetMigrationForReindex
  | deleteMigrationCascade
  | deleteOldMigrations
  | suspendUser (user : ℕ)
  | reactivateSchedulesOf (user : ℕ)
  | missesNotificationEvent
  | createMigrationNotificationEvent
  | schedule (s : ScheduleStmt)
  | requeueFailedTasks
  | requeueOrphanedRunningTasks
  | recoverAbandonedTasks (workerID : String)
  | claimMigrationVerification
  | renewMigrationVerificationLease (generation : ℕ)
  | releaseMigrationVerificationLease (generation : ℕ)
  | getUnverifiedCompletedTasks
  | markMigrationTaskChecksumVerified (id : ℕ) (targetHash : String) (generation : ℕ)
  | markMigrationTaskChecksumMismatch (copy : Task) (generation : ℕ)
  | recordConnLoss (workerID : String)
  | recordConnLossTask (workerID : String) (taskID : ℕ)
  | clearConnLoss (workerID : String)
  | clearConnLossTask (workerID : String) (taskID : ℕ)
  | now
  | tick
  /-- A question with two answers: a lock is free, a token was refreshed, a connection works. -/
  | choice
  | failure
  | openProviders
  | resolveTarget
  | stream
  | visit (selection : Selection)
  | connectSource
  | renewals
  | compareNext (tasks : List Task)
  /-- The next time of a cron expression. -/
  | nextRun (cronExpression : String)
  deriving DecidableEq

abbrev MigrationStmt.Val : MigrationStmt → Type
  | .dequeue d => d.Val Migration
  | .verifyMigrationOwnership _ => Bool
  | .getMigration => Migration
  | .getTask _ => Task
  | .pauseMigrationForConnectionLoss => Bool
  | .recoverConnectionLostMigration => Bool × Bool
  | .resumeMigration => Bool
  | .failMigrationWhileIndexingClaim _ _ => Bool
  | .failStaleIndexingMigration _ => Bool
  | .recoverScheduledMigrations _ => Bool
  | .isOrphanedImmediate => Bool
  | .claimScheduledMigrationForIndexing => Bool
  | .renewMigrationIndexingLease _ _ => Bool
  | .maybeRetryFailedMigrationTasks => Bool
  | .migrationTaskTotals => ℕ × ℕ
  | .migrationIndexedTaskKeys => List TaskKey
  | .reconcileMigrationProgress _ => Bool
  | .heartbeatTaskClaim _ _ => Bool
  | .failMigrationForAuthentication _ _ => Bool
  | .resetFailedTasksForRetry => ℕ
  | .missesNotificationEvent => Bool
  | .schedule s => s.Val
  | .claimMigrationVerification => Option ℕ
  | .renewMigrationVerificationLease _ => Bool
  | .getUnverifiedCompletedTasks => List Task
  | .markMigrationTaskChecksumVerified _ _ _ => Bool
  | .markMigrationTaskChecksumMismatch _ _ => Bool
  | .recordConnLoss _ => ℕ
  | .recordConnLossTask _ _ => ℕ
  | .now => ℕ
  | .choice => Bool
  | .failure => Failure
  | .openProviders => Option Failure
  | .resolveTarget => Resolution
  | .stream => Stream
  | .visit _ => Visit
  | .connectSource => Option String
  | .renewals => ℕ
  | .compareNext _ => Verification
  | .nextRun _ => ℕ
  | _ => Unit

/-- How a call comes out: the statement runs or does not get through, or the answer to a
question. -/
inductive Outcome
  | done
  | unavailable
  | candidate (id : Option ℕ)
  | choice (b : Bool)
  | failure (f : Failure)
  | providers (f : Option Failure)
  | resolution (r : Resolution)
  | stream (s : Stream)
  | visit (v : Visit)
  | source (errMsg : Option String)
  | number (n : ℕ)
  | verification (v : Verification)
  deriving DecidableEq

abbrev MigrationWork := Fallible MigrationStmt MigrationStmt.Val DbError

section Exec

variable {ι : Type} [DecidableEq ι] (i : ι)

def Outcome.sql {α : Type} (o : Outcome) (x : MigrationSql ι α) (w : MigrationDb ι) :
    Option (Except DbError α × MigrationDb ι) :=
  match o with
  | .done => some (x w)
  | .unavailable => some (.error .unavailable, w)
  | _ => none

def Outcome.answer {α : Type} (a : Option α) (w : MigrationDb ι) :
    Option (Except DbError α × MigrationDb ι) :=
  a.map fun a => (.ok a, w)

def migrationParent : Parent Migration where
  runnable m := m.status.isActive
  threads m := m.threads
  current _ _ := true

def Outcome.dequeue (o : Outcome) (d : DequeueStmt) (w : MigrationDb ι) :
    Option (Except DbError (d.Val Migration) × MigrationDb ι) :=
  match o with
  | .unavailable => some (.error .unavailable, w)
  | .done => (d.exec migrationParent i none w.toRows).map fun (r, rows) => (r, { w with toRows := rows })
  | .candidate id =>
    (d.exec migrationParent i id w.toRows).map fun (r, rows) => (r, { w with toRows := rows })
  | _ => none

/-- The process that gets a lease is noted. -/
def MigrationDb.noteLease (x : Except DbError (Option ℕ) × MigrationDb ι) :
    Except DbError (Option ℕ) × MigrationDb ι :=
  match x.1 with
  | .ok (some generation) => (x.1, { x.2 with leases := (i, generation) :: x.2.leases })
  | _ => x

def MigrationDb.run : (s : MigrationStmt) → Outcome → MigrationDb ι →
    Option (Except DbError s.Val × MigrationDb ι)
  | .dequeue d, o => o.dequeue i d
  | .verifyMigrationOwnership user, o => o.sql (verifyMigrationOwnership user)
  | .getMigration, o => o.sql getMigration
  | .getTask id, o => o.sql (getTask id)
  | .updateMigrationStatus status errMsg, o => o.sql (updateMigrationStatus status errMsg)
  | .pauseMigrationForConnectionLoss, o => o.sql pauseMigrationForConnectionLoss
  | .recoverConnectionLostMigration, o => o.sql recoverConnectionLostMigration
  | .resumeMigration, o => o.sql resumeMigration
  | .failMigrationWhileIndexingClaim g errMsg, o => o.sql (failMigrationWhileIndexingClaim g errMsg)
  | .failStaleIndexingMigration errMsg, o => o.sql (failStaleIndexingMigration errMsg)
  | .recoverScheduledMigrations errMsg, o => o.sql (recoverScheduledMigrations errMsg)
  | .isOrphanedImmediate, o => o.sql isOrphanedImmediate
  | .claimScheduledMigrationForIndexing, o => o.sql claimScheduledMigrationForIndexing
  | .renewMigrationIndexingLease g duration, o => o.sql (renewMigrationIndexingLease g duration)
  | .transitionMigrationIndexingToRunningClaim g, o =>
    o.sql (transitionMigrationIndexingToRunningClaim g)
  | .transitionMigrationIndexingToCompletedClaim g, o =>
    o.sql (transitionMigrationIndexingToCompletedClaim g)
  | .maybeRetryFailedMigrationTasks, o => o.sql maybeRetryFailedMigrationTasks
  | .createMigrationTaskWhileIndexingClaim t g, o => o.sql (createMigrationTaskWhileIndexingClaim t g)
  | .bulkCreateMigrationTasksWhileIndexingClaim g ts, o =>
    o.sql (bulkCreateMigrationTasksWhileIndexingClaim g ts)
  | .updateMigrationTotalsWhileIndexingClaim g files bytes, o =>
    o.sql (updateMigrationTotalsWhileIndexingClaim g files bytes)
  | .migrationTaskTotals, o => o.sql migrationTaskTotals
  | .migrationIndexedTaskKeys, o => o.sql migrationIndexedTaskKeys
  | .recordIndexingErrors errors, o => o.sql (recordIndexingErrors errors)
  -- an observer's note never fails
  | .noteTraversed g selection errors, _ => fun w => some (noteTraversed g selection errors w)
  | .updateMigrationThreads threads, o => o.sql (updateMigrationThreads threads)
  | .addLiveBytes n, o => o.sql (addLiveBytes n)
  | .resetLiveBytes, o => o.sql resetLiveBytes
  | .reconcileMigrationProgress g, o => o.sql (reconcileMigrationProgress g)
  | .updateClaimedTaskStatus t, o => o.sql (updateClaimedTaskStatus t)
  | .heartbeatTaskClaim id epoch, o => o.sql (heartbeatTaskClaim id epoch)
  | .transitionClaimedTask id epoch status, o => o.sql (transitionClaimedTask id epoch status)
  | .updateClaimedTaskResolvedTargetPath id epoch path, o =>
    o.sql (updateClaimedTaskResolvedTargetPath id epoch path)
  | .updateClaimedTaskMetadata id epoch metadata, o =>
    o.sql (updateClaimedTaskMetadata id epoch metadata)
  | .updateMigrationTaskAndProgress t d, o => o.sql (updateMigrationTaskAndProgress t d)
  | .failMigrationForAuthentication t errMsg, o => o.sql (failMigrationForAuthentication t errMsg)
  | .cancelPendingTasks, o => o.sql cancelPendingTasks
  | .resetFailedTasksForRetry, o => o.sql resetFailedTasksForRetry
  | .resetMigrationForReindex, o => o.sql resetMigrationForReindex
  | .deleteMigrationCascade, o => o.sql deleteMigrationCascade
  | .deleteOldMigrations, o => o.sql deleteOldMigrations
  | .suspendUser user, o => o.sql (suspendUser user)
  | .reactivateSchedulesOf user, o => o.sql (reactivateSchedulesOf user)
  | .missesNotificationEvent, o => o.sql missesNotificationEvent
  | .createMigrationNotificationEvent, o => o.sql createMigrationNotificationEvent
  | .schedule s, o => o.sql (onSchedules s)
  | .requeueFailedTasks, o => o.sql requeueFailedTasks
  | .requeueOrphanedRunningTasks, o => o.sql requeueOrphanedRunningTasks
  | .recoverAbandonedTasks workerID, o => o.sql (recoverAbandonedTasks workerID)
  | .claimMigrationVerification, o => o.sql fun w => noteLease i (claimMigrationVerification w)
  | .renewMigrationVerificationLease g, o => o.sql (renewMigrationVerificationLease g)
  | .releaseMigrationVerificationLease g, o => o.sql (releaseMigrationVerificationLease g)
  | .getUnverifiedCompletedTasks, o => o.sql getUnverifiedCompletedTasks
  | .markMigrationTaskChecksumVerified id hash g, o => o.sql (markMigrationTaskChecksumVerified id hash g)
  | .markMigrationTaskChecksumMismatch copy g, o => o.sql (markMigrationTaskChecksumMismatch copy g)
  | .recordConnLoss workerID, _ => fun w =>
    let n := w.connLoss workerID + 1
    some (.ok n, { w with connLoss := fun v => if v = workerID then n else w.connLoss v })
  | .recordConnLossTask workerID taskID, _ => fun w =>
    let n := w.connLossTask workerID taskID + 1
    some (.ok n, { w with
      connLossTask := fun v t => if v = workerID ∧ t = taskID then n else w.connLossTask v t })
  | .clearConnLoss workerID, _ => fun w =>
    some (.ok (), { w with connLoss := fun v => if v = workerID then 0 else w.connLoss v })
  | .clearConnLossTask workerID taskID, _ => fun w =>
    some (.ok (), { w with
      connLossTask := fun v t => if v = workerID ∧ t = taskID then 0 else w.connLossTask v t })
  | .now, _ => fun w => some (.ok w.now, w)
  | .tick, .number n => fun w => some (.ok (), { w with now := w.now + n })
  | .tick, _ => fun _ => none
  | .choice, o => Outcome.answer (match o with | .choice b => some b | _ => none)
  | .failure, o => Outcome.answer (match o with | .failure f => some f | _ => none)
  | .openProviders, o => Outcome.answer (match o with | .providers f => some f | _ => none)
  | .resolveTarget, o => Outcome.answer (match o with | .resolution r => some r | _ => none)
  | .stream, o => Outcome.answer (match o with | .stream s => some s | _ => none)
  | .visit _, o => Outcome.answer (match o with | .visit v => some v | _ => none)
  | .connectSource, o => Outcome.answer (match o with | .source e => some e | _ => none)
  | .renewals, o => Outcome.answer (match o with | .number n => some n | _ => none)
  | .compareNext _, o => Outcome.answer (match o with | .verification v => some v | _ => none)
  | .nextRun _, .unavailable => fun w => some (.error .unavailable, w)
  | .nextRun _, o => Outcome.answer (match o with | .number n => some n | _ => none)

/-- A call that would write a locked row has to wait. -/
def MigrationStmt.exec (s : MigrationStmt) (o : Outcome) (w : MigrationDb ι) :
    Option (Except DbError s.Val × MigrationDb ι) :=
  (MigrationDb.run i s o w).filter fun x => !w.toRows.waits x.2.toRows i

end Exec

end Clumoove.Queue
