import Clumoove.Spec.Catalog

/-! Maintenance requests of a job and the targets of a repository check: the statements that
enqueue, lease, renew, retry, cancel and finish them. Ids stand for the random UUIDs of the
tables; the ties of an `ORDER BY` are broken by them. -/

namespace Clumoove

open Table

def coordinatorLease : ℕ := 120

def claimPeriod : ℕ := 600

def createBackupVerify (mode : VerifyMode) (byteBudget : Option ℕ) : Tx ℕ := fun db =>
  let budgeted := byteBudget.any fun n => 64 * 2 ^ 20 ≤ n ∧ n ≤ 2 ^ 40
  if (mode = .budgeted ∧ ¬ budgeted) ∨ (mode ≠ .budgeted ∧ byteBudget.isSome) then
    .error (.text "invalid backup verify byte budget")
  else if db.job.any (·.deletionState = .active) then
    .ok (db.nextId, { db with
      maintenance := db.maintenance ++
        [{ id := db.nextId, kind := .verify, verifyMode := some mode, byteBudget := byteBudget }]
      nextId := db.nextId + 1 })
  else .error .noRows

/-- A running check whose worker has missed its lease. -/
def Maintenance.abandoned (now : ℕ) (m : Maintenance) : Bool :=
  m.kind = .verify ∧ m.state = .running ∧ (m.coordinatorLeaseUntil.any (· < now) ∨
    (m.coordinatorLeaseUntil.isNone ∧ m.claimDeadline.any (· < now)))

variable (db : Db)

/-- The takeover at the start of `ClaimNextBackupMaintenanceForWorkerContext`. -/
def Db.recoverVerifies : Db :=
  { db with
    maintenance := updateWhere (Maintenance.abandoned db.now) (fun m => { m with
      state := .pending, claimDeadline := none, coordinatorLeaseUntil := none
      errorCode := some "REPOSITORY_CHECK_RECOVERED" }) db.maintenance }

def Maintenance.claimable (now : ℕ) (m : Maintenance) : Bool :=
  (m.state = .pending ∨ m.state = .retryWait) ∧ m.nextRetryAt.all (· ≤ now)

/-- Leases one claimable request. The query prefers the oldest, but it skips rows other
transactions have locked, so any claimable request may be the one it returns. Without one the
transaction is rolled back, and the takeover with it. -/
def claimNextBackupMaintenance (pick : ℕ) : Tx (Option Maintenance) := fun db =>
  let db₁ := db.recoverVerifies
  match if db.job.isSome then
      db₁.maintenance.find? fun m => m.id = pick ∧ m.claimable db.now else none with
  | none => .ok (none, db)
  | some m =>
    .ok (some { m with
        state := .running, coordinatorGeneration := m.coordinatorGeneration + 1 }, { db₁ with
      maintenance := updateWhere (·.id = m.id) (fun m => { m with
        state := .running, attempts := m.attempts + 1, claimDeadline := some (db.now + claimPeriod)
        coordinatorGeneration := m.coordinatorGeneration + 1
        coordinatorLeaseUntil := some (db.now + coordinatorLease) }) db₁.maintenance })

/-- `backup_pack_id` of the targets of a finished check: their packs are no longer held. -/
def unpinTargets (maintenanceId : ℕ) (targets : List VerifyTarget) : List VerifyTarget :=
  updateWhere (·.maintenanceId = maintenanceId) (fun t => { t with packId := none }) targets

/-- A request some worker has claimed and nobody has finished. -/
def Maintenance.inHand (maintenanceId : ℕ) (m : Maintenance) : Bool :=
  m.id = maintenanceId ∧ (m.state = .running ∨ m.state = .cancelling)

/-- The state a finished request takes: a cancelled one is not completed. -/
def MaintenanceState.finished : MaintenanceState → MaintenanceState
  | .cancelling => .cancelled
  | _ => .completed

def completeBackupMaintenance (maintenanceId : ℕ) : Tx Unit := fun db =>
  if ¬ (db.job.isSome ∧ db.maintenance.any (·.id = maintenanceId)) then .error .noRows
  else if ¬ db.maintenance.any (Maintenance.inHand maintenanceId) then .ok ((), db)
  else .ok ((), { db with
    maintenance := updateWhere (Maintenance.inHand maintenanceId) (fun m => { m with
      state := m.state.finished, claimDeadline := none
      errorCode := if m.state = .cancelling then some "BACKUP_VERIFY_CANCELLED" else none })
      db.maintenance
    verifyTargets := unpinTargets maintenanceId db.verifyTargets })

def cancelBackupVerify (maintenanceId : ℕ) : Tx Bool := fun db =>
  let hit (m : Maintenance) : Bool := m.id = maintenanceId ∧ m.kind = .verify ∧
    (m.state = .pending ∨ m.state = .retryWait ∨ m.state = .running)
  .ok (db.maintenance.any hit, { db with
    maintenance := updateWhere hit (fun m =>
      if m.state = .running then
        { m with state := .cancelling, errorCode := some "BACKUP_VERIFY_CANCELLED" }
      else { m with
        state := .cancelled, claimDeadline := none
        errorCode := some "BACKUP_VERIFY_CANCELLED" }) db.maintenance })

def isBackupMaintenanceCancelling (maintenanceId : ℕ) : Tx Bool := fun db =>
  .ok (db.maintenance.any fun m => m.id = maintenanceId ∧ m.state = .cancelling, db)

def retryBackupMaintenance (maintenanceId : ℕ) (errorCode : String) : Tx Unit := fun db =>
  .ok ((), { db with
    maintenance := updateWhere (fun m => m.id = maintenanceId ∧ m.state = .running) (fun m =>
      { m with
        state := .retryWait, claimDeadline := none, nextRetryAt := some (db.now + 30)
        errorCode := some errorCode }) db.maintenance })

def verifyTargetsOf (maintenanceId : ℕ) : ℕ → List PackRow → List VerifyTarget
  | _, [] => []
  | id, p :: packs =>
    { id := id, maintenanceId := maintenanceId, packId := some p.id, remotePath := p.remotePath
      sha256 := p.sha256, sizeBytes := p.sizeBytes } :: verifyTargetsOf maintenanceId (id + 1) packs

/-- The packs of visible snapshots that the check does not list yet. -/
def Db.unlistedPacks (maintenanceId : ℕ) : List PackRow :=
  db.packs.filter fun p => p.state = .ready ∧ db.livePack p.id ∧
    ¬ db.verifyTargets.any fun t => t.maintenanceId = maintenanceId ∧ t.remotePath = p.remotePath

def snapshotBackupVerifyTargets (maintenanceId : ℕ) : Tx Unit := fun db =>
  let packs := db.unlistedPacks maintenanceId
  if ¬ packs.isEmpty ∧ ¬ db.maintenance.any (·.id = maintenanceId) then
    .error (.constraint "backup_verify_targets_backup_maintenance_id_fkey")
  else
    let targets := db.verifyTargets ++ verifyTargetsOf maintenanceId db.nextId packs
    .ok ((), { db with
      verifyTargets := targets
      maintenance := updateWhere (fun m => m.id = maintenanceId ∧ m.state = .running)
        (fun m => { m with
          totalPacks := (targets.filter (·.maintenanceId = maintenanceId)).length }) db.maintenance
      nextId := db.nextId + packs.length })

/-- `ORDER BY last_checked_at NULLS FIRST, id`. -/
def Db.checkedBefore (a b : VerifyTarget) : Bool :=
  let checked (t : VerifyTarget) : Option ℕ :=
    (db.packs.find? fun p => t.packId = some p.id).bind (·.lastCheckedAt)
  match checked a, checked b with
  | none, some _ => true
  | some _, none => false
  | none, none => a.id ≤ b.id
  | some x, some y => x < y ∨ (x = y ∧ a.id ≤ b.id)

/-- Returns the targets of dead claims to the queue. -/
def Db.recoverTargets (maintenanceId : ℕ) : List VerifyTarget :=
  updateWhere (fun t => t.maintenanceId = maintenanceId ∧ t.state = .running ∧
      t.claimDeadline.any (· < db.now))
    (fun t => { t with state := .pending, claimDeadline := none }) db.verifyTargets

def claimNextBackupVerifyTarget (maintenanceId : ℕ) : Tx (Option VerifyTarget) := fun db =>
  let targets := db.recoverTargets maintenanceId
  match firstBy db.checkedBefore (targets.filter fun t =>
      t.maintenanceId = maintenanceId ∧ t.state = .pending) with
  | none => .ok (none, { db with verifyTargets := targets })
  | some t =>
    .ok (some { t with claimEpoch := t.claimEpoch + 1 }, { db with
      verifyTargets := updateWhere (fun t' => t'.id = t.id ∧ t'.state = .pending) (fun t' => { t' with
        state := .running, claimEpoch := t'.claimEpoch + 1
        claimDeadline := some (db.now + claimPeriod) }) targets })

variable (targetId claimEpoch : ℕ)

def releaseBackupVerifyTargetClaim : Tx Unit := fun db =>
  .ok ((), { db with
    verifyTargets := updateWhere (fun t => t.id = targetId ∧ t.state = .running ∧
        t.claimEpoch = claimEpoch)
      (fun t => { t with state := .pending, claimDeadline := none }) db.verifyTargets })

/-- The unfinished target a worker still holds; epoch zero stands for any claim. -/
def VerifyTarget.held (t : VerifyTarget) : Bool :=
  t.id = targetId ∧ (t.state = .pending ∨ t.state = .running) ∧
    (claimEpoch = 0 ∨ t.claimEpoch = claimEpoch)

def finishTarget (state : TargetState) (db : Db) : Db :=
  { db with
    verifyTargets := updateWhere (VerifyTarget.held targetId claimEpoch) (fun t => { t with
      state := state, claimDeadline := none
      errorCode := if state = .completed then none else some "BACKUP_PACK_DAMAGED" })
      db.verifyTargets }

def targetVerdict (found : Bool) (expectedSize actualSize : ℕ) : TargetState :=
  if ¬ found then .missing else if actualSize ≠ expectedSize then .damaged else .completed

def completeBackupVerifyTarget (targetId : ℕ) (found : Bool) (expectedSize actualSize claimEpoch : ℕ) :
    Tx TargetState := fun db =>
  let state := targetVerdict found expectedSize actualSize
  .ok (state, finishTarget targetId claimEpoch state db)

def markBackupVerifyTargetDamaged : Tx Unit := fun db =>
  .ok ((), finishTarget targetId claimEpoch .damaged db)

def addBackupVerifyProcessedBytes (maintenanceId bytes : ℕ) : Tx Unit := fun db =>
  .ok ((), { db with
    maintenance := updateWhere (fun m => m.id = maintenanceId ∧ m.state = .running)
      (fun m => { m with processedBytes := m.processedBytes + bytes }) db.maintenance })

def markBackupVerifyTargetRead (targetId bytes claimEpoch : ℕ) : Tx Unit := fun db =>
  .ok ((), { db with
    verifyTargets := updateWhere (VerifyTarget.held targetId claimEpoch)
      (fun t => { t with bytesRead := bytes }) db.verifyTargets })

def advanceBackupVerifyCursor (maintenanceId : ℕ) : Tx Unit := fun db =>
  .ok ((), { db with
    maintenance := updateWhere (fun m => m.id = maintenanceId ∧ m.state = .running) (fun m =>
      { m with
        claimDeadline := some (db.now + claimPeriod)
        coordinatorLeaseUntil := some (db.now + coordinatorLease) }) db.maintenance })

def Db.targetCount (maintenanceId : ℕ) (state : TargetState) : ℕ :=
  (db.verifyTargets.filter fun t => t.maintenanceId = maintenanceId ∧ t.state = state).length

def completeBackupVerify (maintenanceId : ℕ) : Tx Unit := fun db =>
  if ¬ db.maintenance.any (Maintenance.inHand maintenanceId) then
    .error (.text "repository check changed during finalization")
  else .ok ((), { db with
    maintenance := updateWhere (Maintenance.inHand maintenanceId) (fun m => { m with
      state := m.state.finished, claimDeadline := none
      checkedPacks := db.targetCount maintenanceId .completed
      missingPacks := db.targetCount maintenanceId .missing
      damagedPacks := db.targetCount maintenanceId .damaged }) db.maintenance
    verifyTargets := unpinTargets maintenanceId db.verifyTargets })

end Clumoove
