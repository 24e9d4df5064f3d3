import Clumoove.Lib.Table
import Clumoove.Spec.Tables

/-! The statements that move a backup job and its runs: `ClaimBackupJobPassContext`,
`ClaimNextQueuedBackupRunContext`, `TransitionBackupRunContext`, completion and failure,
publication, stale-run recovery, pause and resume, user suspension and the deletion request.
Notification events and audit lines are not part of the catalogue and are left out. -/

namespace Clumoove

open Table

inductive ClaimOutcome
  | claimed (run : Run)
  | overlap
  | duplicateOccurrence
  | administrativelyBlocked

def claimBackupJobPass (trigger : Trigger) (scheduledLocalKey : Option String) :
    Tx ClaimOutcome := fun db =>
  if trigger = .manual ∧ scheduledLocalKey.isSome then
    .error (.text "manual backup run cannot have a scheduled local key")
  else match db.job with
    | none => .error .noRows
    | some job =>
      if job.status.active then .ok (.overlap, db)
      else if job.status ≠ .idle ∧ job.status ≠ .failed then .ok (.administrativelyBlocked, db)
      else if scheduledLocalKey.isSome ∧ db.runs.any (·.scheduledLocalKey = scheduledLocalKey) then
        .ok (.duplicateOccurrence, db)
      else
        let run : Run := {
          id := db.nextId, generation := job.runGeneration + 1, trigger := trigger
          scheduledLocalKey := scheduledLocalKey, updatedAt := db.now }
        if db.runs.any (·.generation = run.generation) then
          .error (.constraint "backup_runs_backup_job_id_generation_key")
        else
          .ok (.claimed run, { db with
            runs := db.runs ++ [run]
            job := some { job with
              status := .queued, runGeneration := run.generation, errorCode := none }
            nextId := db.nextId + 1 })

/-- Claims the oldest queued run of the job's current generation and moves both to
`SCANNING`. -/
def claimNextQueuedBackupRun : Tx (Option (Job × Run)) := fun db =>
  match db.job with
  | none => .ok (none, db)
  | some job =>
    match db.runs.find? fun r => r.state = .queued ∧ job.status = .queued ∧
        job.runGeneration = r.generation ∧ job.deletionState = .active with
    | none => .ok (none, db)
    | some run =>
      let job' := { job with status := .scanning }
      .ok (some (job', { run with state := .scanning }), { db with
        runs := updateWhere (fun r => r.id = run.id ∧ r.state = .queued)
          (fun r => { r with state := .scanning, updatedAt := db.now }) db.runs
        job := some job' })

def validBackupTransition : RunState → RunState → Bool
  | .queued, .scanning | .scanning, .running | .running, .verifying => true
  | _, _ => false

variable (generation runId : ℕ)

/-- The rows a worker's fenced `UPDATE backup_runs` matches. -/
def Run.fenced (expected : RunState) (r : Run) : Bool :=
  r.id = runId ∧ r.generation = generation ∧ r.state = expected

/-- The job row a worker's fenced `UPDATE backup_jobs` matches. -/
def Job.fenced (generation : ℕ) (expected : RunState) (j : Job) : Bool :=
  j.runGeneration = generation ∧ some j.status = expected.status

def transitionBackupRun (expected next : RunState) : Tx Bool := fun db =>
  if ¬ validBackupTransition expected next then .error (.text "invalid backup run transition")
  else if ¬ db.runs.any (Run.fenced generation runId expected) then .ok (false, db)
  else match db.job with
    | none => .error (.text "backup job state no longer matches run")
    | some job =>
      if Job.fenced generation expected job then
        .ok (true, { db with
          runs := updateWhere (Run.fenced generation runId expected)
            (fun r => { r with state := next, updatedAt := db.now }) db.runs
          job := some { job with status := next.status.getD job.status } })
      else .error (.text "backup job state no longer matches run")

def completeBackupRun (expected terminal : RunState)
    (jobState : JobStatus) (totals : Totals) (errorCode : Option String) : Tx Bool := fun db =>
  if ¬ db.runs.any (Run.fenced generation runId expected) then .ok (false, db)
  else match db.job with
    | none => .error (.text "backup job state no longer matches run")
    | some job =>
      if Job.fenced generation expected job then
        .ok (true, { db with
          runs := updateWhere (Run.fenced generation runId expected) (fun r => { r with
              state := terminal, totals := totals, errorCode := errorCode, updatedAt := db.now })
            db.runs
          job := some { job with
            status := jobState, lastRunStatus := some terminal, totals := totals
            errorCode := errorCode } })
      else .error (.text "backup job state no longer matches run")

def finalizeBackupRun (expected terminal : RunState) (totals : Totals)
    (errorCode : Option String) : Tx Bool := fun db =>
  if ¬ expected.claimed ∨
      (terminal ≠ .completed ∧ terminal ≠ .partially ∧ terminal ≠ .cancelled) then
    .error (.text "invalid backup run finalization")
  else completeBackupRun generation runId expected terminal .idle totals errorCode db

def failBackupRun (expected : RunState) (errorCode : String) : Tx Bool := fun db =>
  if ¬ expected.active then .error (.text "invalid backup run failure state")
  else completeBackupRun generation runId expected .failed .failed {} (some errorCode) db

/-- `DELETE FROM backup_snapshots WHERE p`, with the items and item blocks it cascades to. -/
def Db.deleteSnapshots (db : Db) (p : Snapshot → Bool) : Db :=
  let gone := db.snapshots.filter p
  let goneItems := db.items.filter fun i => gone.any (·.id = i.snapshotId)
  { db with
    snapshots := db.snapshots.filter (fun s => ¬ p s)
    items := db.items.filter fun i => ¬ gone.any (·.id = i.snapshotId)
    itemBlocks := db.itemBlocks.filter fun ib => ¬ goneItems.any (·.id = ib.itemId) }

def staleRunAfter : ℕ := 600

/-- A claimed run of the current generation whose heartbeat has been silent for too long. -/
def staleRun (job : Job) (now : ℕ) (r : Run) : Bool :=
  r.state.claimed ∧ r.updatedAt + staleRunAfter < now ∧ job.runGeneration = r.generation ∧
    job.status.claimed

def recoverStaleBackupRuns : Tx ℕ := fun db =>
  match db.job with
  | none => .ok (0, db)
  | some job =>
    let recovered := db.runs.filter (staleRun job db.now)
    let db₁ := { db with
      runs := updateWhere (staleRun job db.now) (fun r => { r with
        state := .failed, errorCode := some "BACKUP_RUN_RECOVERED", updatedAt := db.now }) db.runs
      job := some (if recovered.isEmpty then job else { job with
        status := .failed, errorCode := some "BACKUP_RUN_RECOVERED",
        lastRunStatus := some .failed }) }
    .ok (recovered.length, db₁.deleteSnapshots fun s =>
      s.state = .publishing ∧ recovered.any (·.id = s.runId))

def touchBackupRun : Tx Unit := fun db =>
  .ok ((), { db with
    runs := updateWhere (fun r => r.id = runId ∧ r.generation = generation ∧ r.state.claimed ∧
        db.job.any fun j => j.runGeneration = r.generation ∧ j.status.claimed)
      (fun r => { r with updatedAt := db.now }) db.runs })

def createBackupSnapshotDraft (runId : ℕ) (selectedRoots : List Path) : Tx ℕ := fun db =>
  if ¬ db.runs.any (·.id = runId) then .error (.constraint "backup_snapshots_backup_run_id_fkey")
  else if db.snapshots.any (·.runId = runId) then
    .error (.constraint "backup_snapshots_backup_job_id_backup_run_id_key")
  else .ok (db.nextId, { db with
    snapshots := db.snapshots ++ [{ id := db.nextId, runId := runId, selectedRoots := selectedRoots }]
    nextId := db.nextId + 1 })

def backupRunActive : Tx Bool := fun db =>
  .ok (db.runs.any fun r => r.id = runId ∧ r.generation = generation ∧ r.state.claimed ∧
    db.job.any fun j => j.runGeneration = r.generation ∧ some j.status = r.state.status, db)

def discardBackupSnapshotDraft (snapshotId runId : ℕ) : Tx Unit := fun db =>
  .ok ((), db.deleteSnapshots fun s => s.id = snapshotId ∧ s.runId = runId ∧ s.state = .publishing)

def Snapshot.drafted (snapshotId runId : ℕ) (s : Snapshot) : Bool :=
  s.id = snapshotId ∧ s.runId = runId ∧ s.state = .publishing

structure PublishCounts where
  totals : Totals := {}
  totalDirs : ℕ := 0
  unstableFiles : ℕ := 0

/-- Publishes the draft and finishes its run in one transaction, and queues retention. A
predicate that matches no row rolls everything back and reports `false`. -/
def publishBackupSnapshotAndFinalize (generation runId snapshotId : ℕ)
    (snapshotState : SnapshotState) (runState : RunState) (c : PublishCounts) : Tx Bool := fun db =>
  if ¬ db.snapshots.any (Snapshot.drafted snapshotId runId) then .ok (false, db)
  else if ¬ db.runs.any (Run.fenced generation runId .verifying) then .ok (false, db)
  else match db.job with
    | none => .ok (false, db)
    | some job =>
      if Job.fenced generation .verifying job then
        .ok (true, { db with
          snapshots := updateWhere (Snapshot.drafted snapshotId runId) (fun s => { s with
              state := snapshotState, totalFiles := c.totals.totalFiles, totalDirs := c.totalDirs
              totalBytes := c.totals.totalBytes, omittedUnstableCount := c.unstableFiles
              omittedErrorCount := c.totals.failedFiles, integrityState := .valid }) db.snapshots
          runs := updateWhere (Run.fenced generation runId .verifying)
            (fun r => { r with state := runState, totals := c.totals, updatedAt := db.now }) db.runs
          job := some { job with
            status := .idle, lastRunStatus := some runState, totals := c.totals, errorCode := none }
          maintenance := db.maintenance ++ [{ id := db.nextId, kind := .retention }]
          nextId := db.nextId + 1 })
      else .ok (false, db)

def cancelActiveRuns (now : ℕ) (runs : List Run) : List Run :=
  updateWhere (·.state.active) (fun r => { r with state := .cancelled, updatedAt := now }) runs

def pauseBackup : Tx Bool := fun db =>
  match db.job with
  | none => .ok (false, db)
  | some job =>
    if job.status = .paused ∨ job.status = .deleting then .ok (false, db)
    else .ok (true, { db with
      job := some { job with status := .paused }, runs := cancelActiveRuns db.now db.runs })

def resumeBackup : Tx Bool := fun db =>
  match db.job with
  | none => .ok (false, db)
  | some job =>
    if job.status = .paused then
      .ok (true, { db with job := some { job with status := .idle } })
    else .ok (false, db)

def RestoreStatus.active : RestoreStatus → Bool
  | .queued | .planning | .running | .verifying | .cancelling => true
  | _ => false

/-- `SuspendUser` for the owner of the job and of its restores. -/
def suspendUser : Tx Unit := fun db =>
  let restoreRuns := updateWhere (·.status.active)
    (fun r => { r with status := .cancelled, coordinatorLeaseUntil := none, updatedAt := db.now })
    db.restoreRuns
  let restoreItems := updateWhere (fun i => i.status = .pending ∨ i.status = .running)
    (fun i => { i with
      status := .cancelled, errorCode := some "RESTORE_CANCELLED", updatedAt := db.now })
    db.restoreItems
  .ok ((), { db with
    restoreRuns := restoreRuns
    restoreItems := restoreItems
    packPins := db.packPins.filter fun p => ¬ (restoreRuns.any fun r =>
      r.id = p.runId ∧ r.status = .cancelled ∧
        ¬ restoreItems.any fun i => i.runId = r.id ∧ i.status = .running)
    job := db.job.map fun j => if j.status.active then { j with status := .paused } else j
    runs := cancelActiveRuns db.now db.runs
    maintenance := updateWhere (·.state.active) (fun m => { m with state := .cancelled })
      db.maintenance })

def requestBackupRepositoryDeletion : Tx Bool := fun db =>
  match db.job with
  | none => .ok (false, db)
  | some job =>
    if job.deletionState = .active then
      .ok (true, { db with
        job := some { job with status := .deleting, deletionState := .deleting }
        runs := cancelActiveRuns db.now db.runs
        snapshots := updateWhere (fun s => s.state = .publishing ∨ s.state.live)
          (fun s => { s with state := .expired }) db.snapshots
        maintenance := db.maintenance ++
          [{ id := db.nextId, kind := .deleteRepository, byteBudget := some 1000 }]
        nextId := db.nextId + 1 })
    else .ok (false, db)

end Clumoove
