import Clumoove.Spec.Backup

/-! Maintenance requests as the worker that holds the job's lock executes them: retention,
compaction, deletion of the repository and repository checks. -/

namespace Clumoove

open Prog

def deleteObject (path : Path) : Act Unit := do
  let (found, _) ← call (.fileExists path)
  if found then call (.deleteFile path) else pure ()

def deleteRemotePack (pack : PackRow) : Act Unit := deleteObject pack.remotePath

def reclaimPacks : List PackRow → Act Unit
  | [] => pure ()
  | pack :: packs => do
    deleteRemotePack pack
    sql (.catalog (.packDeleted pack.id))
    reclaimPacks packs

def enqueueCompaction : Act Unit := do
  match ← sql (.catalog .compactionCandidate) with
  | none => pure ()
  | some _ => sql (.upkeep (.enqueue .compaction))

def reclaimLimit : ℕ := 1000

def applyRetention (job : Job) : Act Unit := do
  sql (.catalog (.expire job.retentionCount))
  let packs ← sql (.catalog (.reclaimablePacks reclaimLimit))
  reclaimPacks packs
  if packs.length = reclaimLimit then sql (.upkeep (.enqueue .retention)) else enqueueCompaction

variable (sha256 : List UInt8 → Digest)

/-- The `ValidatePack` callback of a compaction: the live entries and their block ids. -/
def collectLive (live : List Block) (kept : List Entry × List ℕ) (_offset : ℕ) (entry : Entry) :
    Except String (List Entry × List ℕ) :=
  match live.find? (·.sha256 = entry.hash) with
  | none => .ok kept
  | some block =>
    if block.plaintextSize = entry.data.length then
      .ok (kept.1 ++ [entry], kept.2 ++ [block.id])
    else .error "backup live block size mismatch"

def readLive (pack : PackRow) (live : List Block) : Act (List Entry × List ℕ) := do
  let reader ← call (.streamDownload pack.remotePath)
  match validateStream sha256 (collectLive live) reader pack.sha256 ([], []) with
  | .error _ => throw (.text "backup compaction source pack validation failed")
  | .ok (_, kept) =>
    if kept.1.length = live.length then return kept
    else throw (.text "backup compaction source pack validation failed")

structure Replacement where
  remotePath : Path
  pack : Pack
  locators : List PackBlock

/-- Writes the replacement, reads it back and takes its locators from the encoded bytes. -/
def writeReplacement (root : Path) (entries : List Entry) : Act Replacement := do
  let (replacement, encoded) ← liftPack (encodePack sha256 entries)
  let remotePath ← liftText (packPath root replacement.id)
  ask (.createParents remotePath)
  call (.streamUpload remotePath encoded)
  confirmSize remotePath replacement.size "replacement backup pack size confirmation failed"
  let verified ← call (.streamDownload remotePath)
  match validateStream sha256 (fun _ _ _ => .ok ()) verified replacement.id () with
  | .error e => throw e
  | .ok _ =>
    match validateStream sha256 (matchEntries entries "replacement backup pack catalog mismatch")
        { bytes := encoded } replacement.id [] with
    | .error _ => throw (.text "replacement backup pack validation failed")
    | .ok (_, locators) =>
      if locators.length = entries.length then return ⟨remotePath, replacement, locators⟩
      else throw (.text "replacement backup pack validation failed")

def compactOnePack (job : Job) : Act Unit := do
  match ← sql (.catalog .compactionCandidate) with
  | none => pure ()
  | some pack =>
    let live ← sql (.catalog (.liveBlocks pack.id))
    ask .writerSlot
    let (entries, blockIds) ← readLive sha256 pack live
    let new ← writeReplacement sha256 job.repositoryRoot entries
    let _ ← sql (.catalog (.replaceLocators pack.id new.remotePath new.pack.id new.pack.size
      new.locators blockIds))
    deleteRemotePack pack
    sql (.catalog (.packDeleted pack.id))
    enqueueCompaction

def deleteRepository (maintenanceId : ℕ) (job : Job) : Act Unit := do
  let packs ← sql (.catalog (.packsForDeletion reclaimLimit))
  reclaimPacks packs
  if packs.length = reclaimLimit then sql (.upkeep (.retry maintenanceId ""))
  else
    let formatPath ← liftText (repositoryPath job.repositoryRoot [formatName])
    deleteObject formatPath
    let deleted ← sql (.catalog .deleteJob)
    if deleted then pure () else throw (.text "backup repository cleanup did not finalize")

def maxVerifyClaimBytes : ℕ := 512 * 2 ^ 20

/-- Gives a target back to the queue; a failure to do so is ignored. -/
def releaseTarget (target : VerifyTarget) : Act Unit := do
  let _ ← attempt (sql (.upkeep (.releaseTarget target.id target.claimEpoch)))

/-- An operation on a target whose failure gives the target back. -/
def releasing {α : Type} (target : VerifyTarget) (x : Act α) : Act α := do
  match ← attempt x with
  | .ok a => return a
  | .error e => releaseTarget target; throw e

structure VerifyRead where
  claimed : ℕ := 0
  total : ℕ

/-- A target whose object has the right size is read whole in a full check, and in a budgeted
one while the budget lasts. -/
def readsTarget (m : Maintenance) (read : VerifyRead) : Bool :=
  m.verifyMode = some .full ∨ (m.verifyMode = some .budgeted ∧ read.total < m.byteBudget.getD 0)

def markPackChecked : Option ℕ → Act Unit
  | some packId => sql (.catalog (.packsChecked [packId]))
  | none => pure ()

/-- A whole read of a target's object. A read that breaks off says nothing about the object. -/
def readTarget (m : Maintenance) (target : VerifyTarget) (size : ℕ) (read : VerifyRead) :
    Act (TargetState × VerifyRead) := do
  releasing target (ask .readerSlot)
  let reader ← releasing target (call (.streamDownload target.remotePath))
  match validateStream sha256 (fun _ _ _ => .ok ()) reader target.sha256 () with
  | .error e =>
    if isRetryableVerifyReadError e then do
      releaseTarget target
      throw e
    else do
      sql (.upkeep (.targetDamaged target.id target.claimEpoch))
      return (.damaged, read)
  | .ok _ =>
    sql (.upkeep (.addProcessedBytes m.id target.sizeBytes))
    sql (.upkeep (.targetRead target.id target.sizeBytes target.claimEpoch))
    markPackChecked target.packId
    let state ← sql (.upkeep (.completeTarget target.id true target.sizeBytes size
      target.claimEpoch))
    return (state, ⟨read.claimed + target.sizeBytes, read.total + target.sizeBytes⟩)

def checkTarget (m : Maintenance) (target : VerifyTarget) (read : VerifyRead) :
    Act (TargetState × VerifyRead) := do
  let (found, size) ← releasing target (call (.fileExists target.remotePath))
  if ¬ found ∨ size ≠ target.sizeBytes then do
    let state ← sql (.upkeep (.completeTarget target.id found target.sizeBytes size
      target.claimEpoch))
    return (state, read)
  else if readsTarget m read then
    if read.claimed > 0 ∧ read.claimed + target.sizeBytes > maxVerifyClaimBytes then do
      releaseTarget target
      throw .verifyMoreWork
    else readTarget sha256 m target size read
  else do
    let state ← sql (.upkeep (.completeTarget target.id true target.sizeBytes size
      target.claimEpoch))
    return (state, read)

/-- A bad object damages the pack the target still refers to. -/
def damagePack (target : VerifyTarget) (state : TargetState) : Act Unit :=
  match target.packId with
  | some packId => if state ≠ .completed then sql (.catalog (.packDamaged packId)) else pure ()
  | none => pure ()

/-- What follows a verdict; the worker's lease is renewed at the end. -/
def settleTarget (m : Maintenance) (target : VerifyTarget) (state : TargetState) : Act Unit := do
  damagePack target state
  sql (.upkeep (.advanceCursor m.id))

/-- The target loop of a check; `true` when no target is left, `false` when the check is being
cancelled. -/
def verifyTargets (m : Maintenance) : ℕ → VerifyRead → Act Bool
  | 0, _ => do
    let stopped ← call .halt
    nomatch stopped
  | fuel + 1, read => do
    match ← sql (.upkeep (.claimTarget m.id)) with
    | none => return true
    | some target =>
      if ← ask .pastDeadline then
        releaseTarget target
        throw .verifyMoreWork
      else if ← sql (.upkeep (.cancelling m.id)) then
        releaseTarget target
        return false
      else
        let (state, read) ← checkTarget sha256 m target read
        settleTarget m target state
        verifyTargets m fuel read

def verifyRepositoryMetadata (fuel : ℕ) (m : Maintenance) : Act Unit := do
  if m.verifyMode.isNone then throw (.text "invalid repository check mode")
  else
    sql (.upkeep (.snapshotTargets m.id))
    if ← verifyTargets sha256 m fuel { total := m.processedBytes } then
      sql (.upkeep (.completeVerify m.id))
    else pure ()

def executeMaintenance (fuel : ℕ) (m : Maintenance) : Act Unit := do
  let job ← sql (.catalog .getJob)
  ask .providers
  match ← attempt (ask .connectTarget) with
  | .ok true =>
    match m.kind with
    | .retention => applyRetention job
    | .compaction => compactOnePack sha256 job
    | .deleteRepository => deleteRepository m.id job
    | .verify => verifyRepositoryMetadata sha256 fuel m
  | _ => throw (.text "backup maintenance connection failed")

/-- `pollMaintenance` once it has the lock: the request is executed and then completed, or
queued for another attempt. -/
def runMaintenance (fuel : ℕ) (m : Maintenance) : Act Unit := do
  match ← attempt (executeMaintenance sha256 fuel m) with
  | .ok _ => sql (.upkeep (.complete m.id))
  | .error .verifyMoreWork => sql (.upkeep (.retry m.id "BACKUP_VERIFY_CONTINUING"))
  | .error _ => sql (.upkeep (.retry m.id "BACKUP_MAINTENANCE_FAILED"))

end Clumoove
