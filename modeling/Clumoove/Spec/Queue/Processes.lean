import Clumoove.Spec.Queue.Statements

/-! The processes that work on a migration, as programs: the handlers of the API, the indexer, the
workers, the verifier and the schedulers. A handler's check of a status and the update after it are
two calls, and anything may happen between them. -/

namespace Clumoove.Queue

open Prog
open Transfer (Text ResourceType)

def call (s : MigrationStmt) : MigrationWork s.Val := perform s

def tryCall (s : MigrationStmt) : MigrationWork Unit := do
  let _ ← attempt (call s)

/-! The API. -/

variable (user : ℕ)

def handlePause : MigrationWork Unit := do
  if ¬ (← call (.verifyMigrationOwnership user)) then return
  let mig ← call .getMigration
  if ¬ mig.status.isActive then return
  call (.updateMigrationStatus .paused none)

def handleResume : MigrationWork Unit := do
  if ¬ (← call (.verifyMigrationOwnership user)) then return
  let mig ← call .getMigration
  if mig.status ≠ .paused ∧ mig.status ≠ .pausedConnectionLoss then return
  -- an indexer that has to be started is a process of its own
  let _ ← call .resumeMigration

def handleCancel : MigrationWork Unit := do
  if ¬ (← call (.verifyMigrationOwnership user)) then return
  call (.updateMigrationStatus .cancelled none)
  tryCall .cancelPendingTasks

def handleRetryFailed : MigrationWork Unit := do
  if ¬ (← call (.verifyMigrationOwnership user)) then return
  let mig ← call .getMigration
  if mig.status ≠ .completed ∧ mig.status ≠ .completedWithErrors ∧ mig.status ≠ .failed then return
  let _ ← call .resetFailedTasksForRetry

def handleReindex : MigrationWork Unit := do
  if ¬ (← call (.verifyMigrationOwnership user)) then return
  let mig ← call .getMigration
  if mig.status ≠ .failed ∧ mig.status ≠ .completedWithErrors then return
  call .resetMigrationForReindex

/-- The new credentials are not modelled. -/
def handleMigrationReauth : MigrationWork Unit := do
  if ¬ (← call (.verifyMigrationOwnership user)) then return
  let _ ← call .getMigration
  let _ ← call .resetFailedTasksForRetry

def handleSetThreads (user threads : ℕ) : MigrationWork Unit := do
  if ¬ (← call (.verifyMigrationOwnership user)) then return
  if threads < 1 ∨ threads > 16 then return
  call (.updateMigrationThreads threads)

def handleDeleteMigration : MigrationWork Unit := do
  if ¬ (← call (.verifyMigrationOwnership user)) then return
  call (.updateMigrationStatus .cancelled none)
  call .cancelPendingTasks
  -- the cancel event is published
  if ← call .choice then
    tryCall (.schedule .deleteSchedulesForTask)
    call .deleteMigrationCascade
    tryCall (.schedule .deleteSchedulesForTask)

def handleDeleteSchedule (id user : ℕ) : MigrationWork Unit := do
  if ¬ (← call (.schedule (.verifyScheduleOwnership id user))) then return
  call (.schedule (.deleteSchedule id))

def handleFileTransferCancel : MigrationWork Unit := do
  let migration ← call .getMigration
  if migration.userID ≠ some user ∨ ¬ migration.fileManager then return
  call (.updateMigrationStatus .cancelled none)
  tryCall .cancelPendingTasks

def rotateOAuthToken (provider : String) : MigrationWork Unit := do
  let mig ← call .getMigration
  if ¬ mig.status.isActive then return
  -- the provider says that the refresh token is invalid
  if ¬ (← call .choice) then return
  let _ ← attempt (call .getMigration)
  -- nobody else has replaced the token
  if ← call .choice then
    call (.updateMigrationStatus .failed (some s!"OAuth token refresh failed ({provider})"))

/-! The worker. -/

def retryBackoff (attempt : ℕ) : ℕ :=
  match attempt with
  | 1 => 10
  | 2 => 30
  | _ => 90

def retryDelay (f : Failure) (attempt : ℕ) : ℕ := max (retryBackoff attempt) f.retryAfter

def connLossEscalationThreshold : ℕ := 3

def maxConnLossTaskAttempts : ℕ := 3

def skipTask (task : Task) (reason : String) : MigrationWork Unit :=
  call (.updateMigrationTaskAndProgress
    { task with status := .skipped, errorMessage := some reason }
    { files := 1, bytes := task.fileSize, skipped := 1, liveBytes := task.fileSize })

def reconcileFileManagerTransferIfDone (mig : Migration) : MigrationWork Unit := do
  if mig.fileManager then tryCall (.reconcileMigrationProgress none)

variable (workerID : String)

def clearConnLoss (taskID : ℕ) : MigrationWork Unit := do
  call (.clearConnLoss workerID)
  call (.clearConnLossTask workerID taskID)

def beat (task : Task) : Beat → MigrationWork Bool
  | .bytes n => do
    tryCall (.addLiveBytes n)
    return true
  | .heartbeat => do
    match ← attempt (call (.heartbeatTaskClaim task.id task.claimEpoch)) with
    | .ok owned => return owned
    | .error _ => return true

def beats (task : Task) : List Beat → MigrationWork Bool
  | [] => return true
  | b :: bs => do
    if ← beat task b then beats task bs else return false

def completeTask (mig : Migration) (task : Task) (d : Progress) : MigrationWork Unit := do
  call (.updateMigrationTaskAndProgress { task with
      status := .completed, errorMessage := none
      checksumVerified := task.checksumVerified || mig.fileManager } d)
  clearConnLoss workerID task.id

def storeMetadata (task : Task) : Option Text → MigrationWork Unit
  | some metadata => call (.updateClaimedTaskMetadata task.id task.claimEpoch metadata)
  | none => return

def finishTransfer (mig : Migration) (task : Task) (u : Upload) : MigrationWork (Option Failure) := do
  storeMetadata task u.metadata
  if let some f := u.sourceKept then return some f
  completeTask workerID mig { task with
      workerHash := some u.workerHash, targetHash := some u.targetHash
      checksumVerified := task.checksumVerified || u.verified || task.resourceType ≠ .files }
    { files := 1, bytes := task.fileSize }
  tryCall .resetLiveBytes
  reconcileFileManagerTransferIfDone mig
  return none

def transfer (mig : Migration) (task : Task) : MigrationWork (Option Failure) := do
  let s ← call .stream
  if ¬ (← beats task s.beats) then return some { message := "context canceled", cancelled := true }
  match s.result with
  | .failed f => return some f
  | .skip reason =>
    skipTask task reason
    return none
  | .done u => finishTransfer workerID mig task u

def processClaimed (mig : Migration) (task : Task) : MigrationWork (Option Failure) := do
  if let some f ← call .openProviders then return some f
  call (.updateClaimedTaskStatus { task with status := .running })
  match ← call .resolveTarget with
  | .failed f => return some f
  | .skip reason =>
    skipTask task reason
    return none
  | .collision name =>
    call (.updateMigrationTaskAndProgress { task with
        status := .skipped
        errorMessage := some s!"Directory skipped due to case collision with {name}" }
      { files := 1 })
    return none
  | .directory =>
    completeTask workerID mig task { files := 1 }
    reconcileFileManagerTransferIfDone mig
    return none
  | .target none => transfer workerID mig task
  | .target (some path) =>
    call (.updateClaimedTaskResolvedTargetPath task.id task.claimEpoch path)
    transfer workerID mig { task with resolvedTargetPath := path }

variable (payload : Payload)

def giveBack (status : TaskStatus) (f : Option Failure) : MigrationWork (Option Failure) := do
  tryCall (.transitionClaimedTask payload.taskID payload.claimEpoch status)
  return f

def processTask : MigrationWork (Option Failure) := do
  let mig ← call .getMigration
  match mig.status with
  | .paused | .pausedConnectionLoss => giveBack payload .pending none
  | .completed | .completedWithErrors | .failed => giveBack payload .skipped none
  | .cancelled => giveBack payload .cancelled none
  | .running | .indexing =>
    let row ← call (.getTask payload.taskID)
    processClaimed workerID mig { row with claimEpoch := payload.claimEpoch }
  | .scheduled =>
    giveBack payload .pending
      (some { message := "migration is in state SCHEDULED, task skipped for now" })
  | .verifying =>
    giveBack payload .pending
      (some { message := "migration is in state VERIFYING, task skipped for now" })

def retryAfter (task : Task) (delay : ℕ) : MigrationWork Task := do
  let now ← call .now
  return { task with status := .failed, nextRetryAt := some (now + delay) }

def handleConnectionLoss (task : Task) : MigrationWork Unit := do
  let lossCount ← call (.recordConnLoss workerID)
  let taskConnLoss ← call (.recordConnLossTask workerID task.id)
  if lossCount < connLossEscalationThreshold ∧ taskConnLoss < maxConnLossTaskAttempts then
    tryCall (.updateClaimedTaskStatus (← retryAfter task (retryBackoff taskConnLoss)))
  else if ← call .pauseMigrationForConnectionLoss then
    clearConnLoss workerID task.id
    tryCall (.updateClaimedTaskStatus { task with status := .pending })

/-- A refreshed token is tried before the migration is given up. -/
def refreshRejectedToken (task : Task) (f : Failure) : MigrationWork Bool :=
  if f.refreshable ∧ task.attempts ≤ 3 then call .choice else pure false

def handleAuthFailure (task : Task) (f : Failure) : MigrationWork Unit := do
  if ← refreshRejectedToken task f then
    tryCall (.updateClaimedTaskStatus (← retryAfter { task with
        errorMessage := some "OAuth access token rejected; refreshed token scheduled for retry" }
      (retryBackoff task.attempts)))
  else
    tryCall (.failMigrationForAuthentication task
      "Authentication failed — please check your credentials and start a new migration")
    clearConnLoss workerID task.id

def handleTransferFailure (mig : Except DbError Migration) (task : Task)
    (f : Failure) : MigrationWork Unit := do
  if task.attempts < 3 ∧ ¬ f.permanent then
    call (.updateMigrationTaskAndProgress (← retryAfter task (retryDelay f task.attempts))
      { files := 1, bytes := task.fileSize, failed := 1 })
  else
    tryCall (.updateClaimedTaskStatus { task with status := .failed, nextRetryAt := none })
    call (.clearConnLossTask workerID task.id)
    match mig with
    | .ok mig => reconcileFileManagerTransferIfDone mig
    | .error _ => return

def handleTaskFailure (f : Failure) : MigrationWork Unit := do
  let row ← call (.getTask payload.taskID)
  let task := { row with claimEpoch := payload.claimEpoch }
  let mig ← attempt (call .getMigration)
  let cancelled : Bool := match mig with | .ok m => m.status = .cancelled | .error _ => false
  if cancelled then tryCall (.updateClaimedTaskStatus { task with status := .cancelled })
  else if f.cancelled then tryCall (.updateClaimedTaskStatus { task with status := .pending })
  else
    let task := { task with attempts := task.attempts + 1, errorMessage := some f.message }
    if f.network then handleConnectionLoss workerID task
    else if f.auth then handleAuthFailure workerID task f
    else handleTransferFailure workerID mig task f

def runWorker : MigrationWork Unit := do
  match ← dequeueSQL migrationParent (fun d => call (.dequeue d)) workerID with
  | none => return
  | some payload =>
    match ← attempt (processTask workerID payload) with
    | .ok none => return
    | .ok (some f) => handleTaskFailure workerID payload f
    | .error _ => handleTaskFailure workerID payload (← call .failure)

/-! The verifier. -/

/-- The renewals of a lease between two results: whether the verifier may write, unless the pass is
cancelled. -/
def renewLease (generation : ℕ) (canWrite : Bool) : ℕ → MigrationWork (Option Bool)
  | 0 => return some canWrite
  | n + 1 => do
    match ← attempt (call (.renewMigrationVerificationLease generation)) with
    | .ok true => renewLease generation true n
    | .ok false => return none
    | .error _ => renewLease generation false n

def markResult (generation : ℕ) (canWrite : Bool) (task : Task) : Comparison → MigrationWork Unit
  | .undecided => return
  | .matching targetHash => do
    if canWrite then tryCall (.markMigrationTaskChecksumVerified task.id targetHash generation)
  | .mismatch errorMessage targetHash => do
    if canWrite then tryCall (.markMigrationTaskChecksumMismatch { task with
        status := .failed, errorMessage := some errorMessage, nextRetryAt := none
        targetHash := if targetHash ≠ "" then some targetHash else task.targetHash } generation)

/-- The tasks in the order the goroutines get to them; whether the pass came to its end. -/
def verifyTasks (generation : ℕ) : ℕ → Bool → List Task → MigrationWork Bool
  | 0, _, _ => return true
  | fuel + 1, canWrite, tasks => do
    match ← renewLease generation canWrite (← call .renewals) with
    | none => return false
    | some canWrite =>
      match ← call (.compareNext tasks) with
      | .finished => return true
      | .aborted => return false
      | .compared k c =>
        match tasks[k]? with
        | none => return true
        | some task =>
          markResult generation canWrite task c
          verifyTasks generation fuel canWrite (tasks.eraseIdx k)

def verificationPass (generation : ℕ) : MigrationWork Unit := do
  if ¬ (← call (.renewMigrationVerificationLease generation)) then return
  let tasks ← call .getUnverifiedCompletedTasks
  if tasks = [] then tryCall (.reconcileMigrationProgress (some generation))
  -- a target that cannot be reached ends the pass
  else if ← call .choice then
    if ← verifyTasks generation (tasks.length + 1) true tasks then
      tryCall (.reconcileMigrationProgress (some generation))

def runVerificationPass (generation : ℕ) : MigrationWork Unit := do
  let _ ← attempt (verificationPass generation)
  tryCall (.releaseMigrationVerificationLease generation)

def verifyClaimed (generation : ℕ) : MigrationWork Unit := do
  match ← attempt (call .getMigration) with
  | .error _ => tryCall (.releaseMigrationVerificationLease generation)
  | .ok _ =>
    -- without a fresh token the lease is left to expire
    if ← call .choice then runVerificationPass generation

def verifyMigrationChecksums : MigrationWork Unit := do
  match ← call .claimMigrationVerification with
  | none => return
  | some generation => verifyClaimed generation

end Clumoove.Queue
