import Clumoove.Spec.RestorePlan
import Clumoove.Spec.Runs

/-! Restore runs and their items: creation, claims, the statements of a worker that holds an
item, and the transactions that finish, cancel or recover a run. A worker's statements name the
epoch of its claim; epoch zero stands for any claim. -/

namespace Clumoove

open Table Like

def restoreLease : ℕ := 120

/-- `ConsumeRestorePreviewContext` with the settings of an unexpired `READY` preview. A retry
starts a further run of an existing job. -/
def consumeRestorePreview (config : RestoreJob) (retryJobId : Option ℕ) : Tx RestoreRun := fun db =>
  if ¬ (config.snapshotId.any db.restorable ∧ db.job.any (·.deletionState = .active)) then
    .error (.text "restore snapshot is unavailable")
  else
    let jobId := retryJobId.getD db.nextId
    let run : RestoreRun := {
      id := db.nextId + 1, jobId := jobId, updatedAt := db.now
      generation := ((db.restoreRuns.filter (·.jobId = jobId)).map (·.generation)).foldr max 0 + 1 }
    if retryJobId.isSome ∧ ¬ db.restoreJobs.any (·.id = jobId) then .error .noRows
    else if db.restoreRuns.any fun r => r.jobId = jobId ∧ r.status.active then
      .error (.text "restore retry is still active")
    else .ok (run, { db with
      restoreJobs := if retryJobId.isSome then db.restoreJobs else
        db.restoreJobs ++ [{ config with id := jobId }]
      restoreRuns := db.restoreRuns ++ [run]
      nextId := db.nextId + 2 })

def claimNextQueuedRestoreRun : Tx (Option (RestoreJob × RestoreRun)) := fun db =>
  match db.restoreRuns.find? fun r => r.status = .queued ∧ db.restoreJobs.any (·.id = r.jobId) with
  | none => .ok (none, db)
  | some run =>
    match db.restoreJobs.find? (·.id = run.jobId) with
    | none => .ok (none, db)
    | some job =>
      .ok (some (job, { run with status := .planning }), { db with
        restoreRuns := updateWhere (fun r => r.id = run.id ∧ r.status = .queued) (fun r => { r with
            status := .planning, coordinatorLeaseUntil := some (db.now + restoreLease)
            updatedAt := db.now }) db.restoreRuns })

def failRestoreRunPlanning (jobId runId generation : ℕ) (errorCode : String) : Tx Bool := fun db =>
  let hit (r : RestoreRun) : Bool :=
    r.id = runId ∧ r.jobId = jobId ∧ r.generation = generation ∧ r.status = .planning
  .ok (db.restoreRuns.any hit, { db with
    restoreRuns := updateWhere hit (fun r => { r with
      status := .failed, errorCode := some errorCode, coordinatorLeaseUntil := none
      updatedAt := db.now }) db.restoreRuns })

def recoverStaleRestorePlanning : Tx Unit := fun db =>
  .ok ((), { db with
    restoreRuns := updateWhere (fun r => r.status = .planning ∧
        (r.coordinatorLeaseUntil.any (· < db.now) ∨
          (r.coordinatorLeaseUntil.isNone ∧ r.updatedAt + 300 < db.now)))
      (fun r => { r with
        status := .queued, errorCode := none, coordinatorLeaseUntil := none, updatedAt := db.now })
      db.restoreRuns })

variable (db : Db)

def Db.runHas (runId : ℕ) (p : RestoreItemStatus → Bool) : Bool :=
  db.restoreItems.any fun i => i.runId = runId ∧ p i.status

/-- Cancels the pending items; a run without running items is cancelled at once and gives up
its pins, another one waits for them. -/
def cancelRestoreRun (runId : ℕ) : Tx Bool := fun db =>
  let hit (r : RestoreRun) : Bool := r.id = runId ∧
    (r.status = .queued ∨ r.status = .planning ∨ r.status = .running)
  if ¬ db.restoreRuns.any hit then .ok (false, db)
  else
    let drained := ¬ db.runHas runId (· = .running)
    .ok (true, { db with
      restoreRuns := updateWhere hit (fun r =>
        if drained then { r with
          status := .cancelled, coordinatorLeaseUntil := none, updatedAt := db.now }
        else { r with status := .cancelling, updatedAt := db.now }) db.restoreRuns
      restoreItems := updateWhere (fun i => i.runId = runId ∧ i.status = .pending) (fun i => { i with
        status := .cancelled, errorCode := some "RESTORE_CANCELLED", updatedAt := db.now })
        db.restoreItems
      packPins := if drained then db.packPins.filter (·.runId ≠ runId) else db.packPins })

/-- A directory item that is still to be restored stands above the item. -/
def Db.blockedByParent (i : RestoreItem) : Bool :=
  db.restoreItems.any fun parent => parent.runId = i.runId ∧ parent.isDir ∧
    (parent.status = .pending ∨ parent.status = .running) ∧
    parent.snapshotRelativePath ≠ i.snapshotRelativePath ∧
    like (parent.snapshotRelativePath ++ ['/', '%']) i.snapshotRelativePath

def Db.claimableItem (i : RestoreItem) : Bool :=
  i.status = .pending ∧ i.nextRetryAt.all (· ≤ db.now) ∧
    (db.restoreRuns.any fun r => r.id = i.runId ∧ r.status = .running ∧
      db.restoreJobs.any fun j => j.id = r.jobId ∧
        (db.restoreItems.filter fun a => a.runId = i.runId ∧ a.status = .running).length < j.threads) ∧
    ¬ db.blockedByParent i

/-- Claims one claimable item. The query prefers directories and short paths, but it skips rows
other workers have locked, so any claimable item may be the one it returns. -/
def claimNextRestoreItem (pick : ℕ) : Tx (Option RestoreItem) := fun db =>
  match db.restoreItems.find? fun i => i.id = pick ∧ db.claimableItem i with
  | none => .ok (none, db)
  | some item =>
    .ok (some { item with status := .running, claimEpoch := item.claimEpoch + 1 }, { db with
      restoreItems := updateWhere (fun i => i.id = item.id ∧ i.status = .pending) (fun i => { i with
        status := .running, nextRetryAt := none, errorCode := none
        claimEpoch := i.claimEpoch + 1, claimDeadline := some (db.now + restoreLease)
        updatedAt := db.now }) db.restoreItems })

variable (itemId runId claimEpoch : ℕ)

def RestoreItem.claimedBy (i : RestoreItem) : Bool :=
  i.id = itemId ∧ i.runId = runId ∧ i.status = .running ∧
    (claimEpoch = 0 ∨ i.claimEpoch = claimEpoch)

/-- One `UPDATE restore_items` of a worker that holds the item. -/
def Db.updateHeld (itemId runId claimEpoch : ℕ) (f : RestoreItem → RestoreItem) : Db :=
  { db with
    restoreItems := updateWhere (RestoreItem.claimedBy itemId runId claimEpoch)
      (fun i => { f i with updatedAt := db.now }) db.restoreItems }

def completeRestoreItem (itemId runId sizeBytes claimEpoch : ℕ) : Tx Bool := fun db =>
  if ¬ db.restoreItems.any (RestoreItem.claimedBy itemId runId claimEpoch) then .ok (false, db)
  else
    let db₁ := db.updateHeld itemId runId claimEpoch fun i =>
      { i with status := .completed, errorCode := none, claimDeadline := none }
    .ok (true, { db₁ with
      restoreRuns := updateWhere (fun r => r.id = runId ∧
          (r.status = .running ∨ r.status = .cancelling))
        (fun r => { r with
          processedFiles := r.processedFiles + 1, processedBytes := r.processedBytes + sizeBytes
          updatedAt := db.now }) db.restoreRuns })

def completeRestoreDirectory : Tx Unit := fun db =>
  if ¬ db.restoreItems.any (fun i => i.isDir ∧ RestoreItem.claimedBy itemId runId claimEpoch i) then
    .error (.text "restore directory changed while completing")
  else .ok ((), db.updateHeld itemId runId claimEpoch fun i =>
    { i with status := .completed, errorCode := none, claimDeadline := none })

variable (errorCode : String)

def warnRestoreItem : Tx Unit := fun db =>
  .ok ((), { db with
    restoreItems := updateWhere (fun i => i.id = itemId ∧ i.runId = runId ∧ i.status = .completed ∧
        (claimEpoch = 0 ∨ i.claimEpoch = claimEpoch))
      (fun i => { i with status := .warning, errorCode := some errorCode, updatedAt := db.now })
      db.restoreItems })

def failRestoreItem : Tx Unit := fun db =>
  .ok ((), db.updateHeld itemId runId claimEpoch fun i =>
    { i with status := .failed, errorCode := some errorCode, claimDeadline := none })

def skipRestoreItem : Tx Unit := fun db =>
  .ok ((), db.updateHeld itemId runId claimEpoch fun i =>
    { i with status := .skipped, errorCode := some errorCode, claimDeadline := none })

def retryDelay : ℕ → Option ℕ
  | 0 => some 10
  | 1 => some 30
  | 2 => some 90
  | _ => none

def retryRestoreItem : Tx Bool := fun db =>
  .ok (db.restoreItems.any (RestoreItem.claimedBy itemId runId claimEpoch),
    db.updateHeld itemId runId claimEpoch fun i => { i with
      attempts := i.attempts + 1
      status := if i.attempts + 1 ≥ 4 then .failed else .pending
      nextRetryAt := (retryDelay i.attempts).map (db.now + ·)
      errorCode := some errorCode, claimDeadline := none })

def setRestoreItemTargetPath (targetPath : Path) : Tx Unit := fun db =>
  .ok ((), db.updateHeld itemId runId claimEpoch fun i =>
    { i with targetPath := targetPath, resolvedTargetPath := targetPath })

def setRestoreItemResolvedTargetPath (resolved : Path) : Tx Unit := fun db =>
  .ok ((), db.updateHeld itemId runId claimEpoch fun i => { i with resolvedTargetPath := resolved })

/-- `INSERT … ON CONFLICT (restore_run_id, canonical_path) DO UPDATE … WHERE` the reservation is
the item's own. A second path of one item violates the other constraint. -/
def reserveRestoreTargetPath (runId itemId : ℕ) (canonicalPath : Path) : Tx Bool := fun db =>
  match db.reservations.find? fun r => r.runId = runId ∧ r.canonicalPath = canonicalPath with
  | some r => .ok (r.itemId = itemId, db)
  | none =>
    if db.reservations.any fun r => r.runId = runId ∧ r.itemId = itemId then
      .error (.constraint "restore_path_reservations_restore_run_id_restore_item_id_key")
    else .ok (true, { db with
      reservations := db.reservations ++
        [{ runId := runId, canonicalPath := canonicalPath, itemId := itemId }] })

/-- Gives up the item's reservation for another path, or keeps it if that path is taken. -/
def moveRestoreTargetReservation (runId itemId : ℕ) (canonicalPath : Path) : Tx Bool := fun db =>
  let others := db.reservations.filter fun r => ¬ (r.runId = runId ∧ r.itemId = itemId)
  if others.any fun r => r.runId = runId ∧ r.canonicalPath = canonicalPath then .ok (false, db)
  else .ok (true, { db with
    reservations := others ++ [{ runId := runId, canonicalPath := canonicalPath, itemId := itemId }] })

/-- Renames a directory and rewrites the target of every item whose snapshot path is like the
directory's followed by a slash. -/
def setRestoreDirectoryTargetPath (snapshotPath targetPath : Path) : Tx Unit := fun db =>
  let hit (i : RestoreItem) : Bool := i.snapshotRelativePath = snapshotPath ∧ i.isDir ∧
    RestoreItem.claimedBy itemId runId claimEpoch i
  if ¬ db.restoreItems.any hit then .error (.text "restore directory changed while renaming")
  else .ok ((), { db with
    restoreItems := updateWhere (fun i => i.runId = runId ∧
        like (snapshotPath ++ ['/', '%']) i.snapshotRelativePath)
      (fun i =>
        let moved := targetPath ++ i.snapshotRelativePath.drop snapshotPath.length
        { i with targetPath := moved, resolvedTargetPath := moved, updatedAt := db.now })
      (updateWhere hit (fun i => { i with
        targetPath := targetPath, resolvedTargetPath := targetPath, updatedAt := db.now })
        db.restoreItems) })

/-- Skips what lies below a directory that will not be restored. -/
def skipBlockedRestoreItems : Tx ℕ := fun db =>
  let blocked (i : RestoreItem) : Bool := i.status = .pending ∧
    db.restoreItems.any fun parent => parent.runId = i.runId ∧ parent.isDir ∧
      (parent.status = .skipped ∨ parent.status = .failed ∨ parent.status = .cancelled) ∧
      like (parent.snapshotRelativePath ++ ['/', '%']) i.snapshotRelativePath
  .ok ((db.restoreItems.filter blocked).length, { db with
    restoreItems := updateWhere blocked (fun i => { i with
      status := .skipped, errorCode := some "RESTORE_PARENT_UNAVAILABLE", updatedAt := db.now })
      db.restoreItems })

def heartbeatRestoreItem : Tx Unit := fun db =>
  .ok ((), { db with
    restoreItems := updateWhere (fun i => i.id = itemId ∧ i.runId = runId ∧ i.status = .running ∧
        i.claimEpoch = claimEpoch)
      (fun i => { i with updatedAt := db.now, claimDeadline := some (db.now + restoreLease) })
      db.restoreItems })

/-- A claim whose worker has gone silent, in a run that is still open. -/
def Db.staleItem (i : RestoreItem) : Bool :=
  i.status = .running ∧
    (db.restoreRuns.any fun r => r.id = i.runId ∧ (r.status = .running ∨ r.status = .cancelling)) ∧
    (i.claimDeadline.any (· < db.now) ∨ (i.claimDeadline.isNone ∧ i.updatedAt + 600 < db.now))

def recoverStaleRestoreItems : Tx ℕ := fun db =>
  .ok ((db.restoreItems.filter db.staleItem).length, { db with
    restoreItems := updateWhere db.staleItem (fun i =>
      let cancelling := db.restoreRuns.any fun r => r.id = i.runId ∧ r.status = .cancelling
      { i with
        status := if cancelling then .cancelled else .pending
        nextRetryAt := none
        errorCode := some (if cancelling then "RESTORE_CANCELLED" else "RESTORE_WORKER_RECOVERED")
        claimDeadline := none, updatedAt := db.now }) db.restoreItems })

def Db.runSummary (runId : ℕ) : ℕ × ℕ × ℕ :=
  let items := db.restoreItems.filter (·.runId = runId)
  let done := items.filter fun i => i.status = .completed ∨ i.status = .warning
  let imperfect := items.filter fun i => i.status = .failed ∨ i.status = .skipped ∨
    i.status = .warning ∨ i.status = .cancelled
  (done.length, imperfect.length, (done.map (·.sizeBytes)).sum)

def finalStatus (completed imperfect : ℕ) : RestoreStatus :=
  if imperfect > 0 ∧ completed > 0 then .partially
  else if imperfect > 0 ∨ completed = 0 then .failed else .completed

def finalizeCompletedRestoreRuns : Tx ℕ := fun db =>
  let drained (r : RestoreRun) : Bool := r.status = .running ∧
    ¬ db.runHas r.id fun s => s = .pending ∨ s = .running
  .ok ((db.restoreRuns.filter drained).length, { db with
    restoreRuns := updateWhere drained (fun r =>
      let (completed, imperfect, bytes) := db.runSummary r.id
      { r with
        status := finalStatus completed imperfect, processedFiles := completed
        processedBytes := bytes, failedFiles := imperfect, coordinatorLeaseUntil := none
        updatedAt := db.now }) db.restoreRuns
    packPins := db.packPins.filter fun p => ¬ db.restoreRuns.any fun r => drained r ∧ r.id = p.runId })

/-- Closes the cancelled runs whose running items have drained and releases their pins. -/
def finalizeCancellingRestoreRuns : Tx ℕ := fun db =>
  let drained (r : RestoreRun) : Bool := r.status = .cancelling ∧ ¬ db.runHas r.id (· = .running)
  .ok ((db.restoreRuns.filter drained).length, { db with
    restoreRuns := updateWhere drained (fun r => { r with
      status := .cancelled, coordinatorLeaseUntil := none, updatedAt := db.now }) db.restoreRuns
    packPins := db.packPins.filter fun p => ¬ db.restoreRuns.any fun r => drained r ∧ r.id = p.runId })

def deleteRestoreJob (jobId : ℕ) : Tx Bool := fun db =>
  if ¬ db.restoreJobs.any (·.id = jobId) ∨
      db.restoreRuns.any (fun r => r.jobId = jobId ∧ r.status.active) then .ok (false, db)
  else
    let gone (runId : ℕ) : Bool := db.restoreRuns.any fun r => r.id = runId ∧ r.jobId = jobId
    let goneItem (itemId : ℕ) : Bool := db.restoreItems.any fun i => i.id = itemId ∧ gone i.runId
    .ok (true, { db with
      restoreJobs := db.restoreJobs.filter (·.id ≠ jobId)
      restoreRuns := db.restoreRuns.filter (·.jobId ≠ jobId)
      restoreItems := db.restoreItems.filter fun i => ¬ gone i.runId
      restoreItemBlocks := db.restoreItemBlocks.filter fun b => ¬ goneItem b.itemId
      packPins := db.packPins.filter fun p => ¬ gone p.runId
      reservations := db.reservations.filter fun r => ¬ gone r.runId })

end Clumoove
