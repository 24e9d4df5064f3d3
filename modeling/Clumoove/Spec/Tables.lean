import Clumoove.Spec.Pack

/-! The catalogue of one backup job: the rows of its SQL tables and the database that holds
them. Row ids come from one counter, so a fresh id is never in use; a table lists its rows in
creation order. Text is a list of characters. -/

namespace Clumoove

abbrev Path := List Char

inductive JobStatus
  | idle | queued | scanning | running | verifying | paused | failed | deleting
deriving DecidableEq

inductive DeletionState
  | active | requested | deleting | deleted
deriving DecidableEq

inductive Trigger
  | manual | schedule | catchUp
deriving DecidableEq

inductive RunState
  | queued | scanning | running | verifying | completed | partially | failed | cancelled
deriving DecidableEq

inductive SnapshotState
  | publishing | ready | partially | expired | deleting | damaged
deriving DecidableEq

inductive IntegrityState
  | unknown | valid | damaged
deriving DecidableEq

inductive PackState
  | uploading | ready | replacing | deletePending | deleted | damaged
deriving DecidableEq

inductive ItemState
  | available | unstable | error
deriving DecidableEq

inductive MaintenanceKind
  | retention | compaction | deleteRepository | verify
deriving DecidableEq

inductive MaintenanceState
  | pending | running | retryWait | cancelling | cancelled | completed | failed
deriving DecidableEq

inductive VerifyMode
  | metadata | budgeted | full
deriving DecidableEq

inductive TargetState
  | pending | running | completed | missing | damaged | failed | cancelled
deriving DecidableEq

inductive RestoreStatus
  | queued | planning | running | verifying | cancelling | completed | partially | failed
  | cancelled
deriving DecidableEq

inductive RestoreItemStatus
  | pending | running | completed | skipped | warning | failed | cancelled
deriving DecidableEq

def RunState.active : RunState → Bool
  | .queued | .scanning | .running | .verifying => true
  | _ => false

def RunState.claimed : RunState → Bool
  | .scanning | .running | .verifying => true
  | _ => false

/-- The job status of the same name, for the states a job shares with its run. -/
def RunState.status : RunState → Option JobStatus
  | .queued => some .queued
  | .scanning => some .scanning
  | .running => some .running
  | .verifying => some .verifying
  | _ => none

def JobStatus.active : JobStatus → Bool
  | .queued | .scanning | .running | .verifying => true
  | _ => false

def JobStatus.claimed : JobStatus → Bool
  | .scanning | .running | .verifying => true
  | _ => false

def SnapshotState.live : SnapshotState → Bool
  | .ready | .partially => true
  | _ => false

def SnapshotState.retired : SnapshotState → Bool
  | .expired | .deleting => true
  | _ => false

def MaintenanceState.active : MaintenanceState → Bool
  | .pending | .running | .retryWait | .cancelling => true
  | _ => false

structure Totals where
  totalFiles : ℕ := 0
  totalBytes : ℕ := 0
  processedFiles : ℕ := 0
  processedBytes : ℕ := 0
  deduplicatedBytes : ℕ := 0
  failedFiles : ℕ := 0
deriving DecidableEq

/-- `backup_jobs`. -/
structure Job where
  selectedPaths : List Path
  targetDir : Path
  repositoryId : Path
  repositoryRoot : Path
  retentionCount : ℕ
  filesSupported : Bool
  status : JobStatus := .idle
  runGeneration : ℕ := 0
  lastRunStatus : Option RunState := none
  totals : Totals := {}
  errorCode : Option String := none
  deletionState : DeletionState := .active
deriving DecidableEq

/-- `backup_runs`. -/
structure Run where
  id : ℕ
  generation : ℕ
  trigger : Trigger
  scheduledLocalKey : Option String
  state : RunState := .queued
  totals : Totals := {}
  errorCode : Option String := none
  updatedAt : ℕ
deriving DecidableEq

/-- `backup_snapshots`. -/
structure Snapshot where
  id : ℕ
  runId : ℕ
  state : SnapshotState := .publishing
  selectedRoots : List Path
  totalFiles : ℕ := 0
  totalDirs : ℕ := 0
  totalBytes : ℕ := 0
  omittedUnstableCount : ℕ := 0
  omittedErrorCount : ℕ := 0
  integrityState : IntegrityState := .unknown
deriving DecidableEq

/-- `backup_snapshot_items`. -/
structure Item where
  id : ℕ
  snapshotId : ℕ
  relativePath : Path
  isDir : Bool
  sizeBytes : ℕ
  mtime : Option ℕ
  fileSha256 : Option Digest
  state : ItemState
  errorCode : Option String
deriving DecidableEq

/-- `backup_snapshot_item_blocks`. -/
structure ItemBlock where
  itemId : ℕ
  ordinal : ℕ
  blockId : ℕ
deriving DecidableEq

/-- `backup_packs`. -/
structure PackRow where
  id : ℕ
  remotePath : Path
  sha256 : Digest
  sizeBytes : ℕ
  state : PackState
  generation : ℕ := 0
  lastCheckedAt : Option ℕ := none
deriving DecidableEq

/-- `backup_blocks`. -/
structure Block where
  id : ℕ
  sha256 : Digest
  plaintextSize : ℕ
  packId : ℕ
  payloadOffset : ℕ
  payloadLength : ℕ
deriving DecidableEq

/-- `backup_maintenance`. -/
structure Maintenance where
  id : ℕ
  kind : MaintenanceKind
  state : MaintenanceState := .pending
  byteBudget : Option ℕ := none
  verifyMode : Option VerifyMode := none
  processedBytes : ℕ := 0
  totalPacks : ℕ := 0
  checkedPacks : ℕ := 0
  missingPacks : ℕ := 0
  damagedPacks : ℕ := 0
  claimDeadline : Option ℕ := none
  coordinatorLeaseUntil : Option ℕ := none
  coordinatorGeneration : ℕ := 0
  attempts : ℕ := 0
  nextRetryAt : Option ℕ := none
  errorCode : Option String := none
deriving DecidableEq

/-- `backup_verify_targets`. -/
structure VerifyTarget where
  id : ℕ
  maintenanceId : ℕ
  packId : Option ℕ
  remotePath : Path
  sha256 : Digest
  sizeBytes : ℕ
  state : TargetState := .pending
  claimEpoch : ℕ := 0
  claimDeadline : Option ℕ := none
  bytesRead : ℕ := 0
  errorCode : Option String := none
deriving DecidableEq

inductive ConflictStrategy
  | skip | overwrite | rename
deriving DecidableEq

/-- `restore_jobs`. The snapshot reference becomes null when the backup job is deleted. -/
structure RestoreJob where
  id : ℕ
  snapshotId : Option ℕ
  selectedPaths : List Path
  targetRoot : Path
  conflictStrategy : ConflictStrategy
  threads : ℕ
deriving DecidableEq

/-- `restore_runs`. -/
structure RestoreRun where
  id : ℕ
  jobId : ℕ
  generation : ℕ
  status : RestoreStatus := .queued
  coordinatorLeaseUntil : Option ℕ := none
  totalFiles : ℕ := 0
  totalBytes : ℕ := 0
  processedFiles : ℕ := 0
  processedBytes : ℕ := 0
  failedFiles : ℕ := 0
  errorCode : Option String := none
  updatedAt : ℕ
deriving DecidableEq

/-- `restore_items`. -/
structure RestoreItem where
  id : ℕ
  runId : ℕ
  parentItemId : Option ℕ := none
  snapshotRelativePath : Path
  isDir : Bool
  sizeBytes : ℕ
  fileSha256 : Option Digest
  targetPath : Path
  resolvedTargetPath : Path
  status : RestoreItemStatus
  attempts : ℕ := 0
  nextRetryAt : Option ℕ := none
  claimEpoch : ℕ := 0
  claimDeadline : Option ℕ := none
  errorCode : Option String := none
  updatedAt : ℕ
deriving DecidableEq

/-- `restore_item_blocks`: a block locator frozen when the restore was planned. -/
structure RestoreItemBlock where
  itemId : ℕ
  ordinal : ℕ
  packRemotePath : Path
  packSha256 : Digest
  packSizeBytes : ℕ
  payloadOffset : ℕ
  payloadLength : ℕ
  blockSha256 : Digest
  plaintextSize : ℕ
deriving DecidableEq

/-- `restore_pack_pins`. -/
structure PackPin where
  runId : ℕ
  packId : ℕ
deriving DecidableEq

/-- `restore_path_reservations`. -/
structure Reservation where
  runId : ℕ
  canonicalPath : Path
  itemId : ℕ
deriving DecidableEq

/-- The tables of one backup job and the restores made from it. The job row is gone once its
repository has been deleted. -/
structure Db where
  job : Option Job
  runs : List Run := []
  snapshots : List Snapshot := []
  items : List Item := []
  itemBlocks : List ItemBlock := []
  packs : List PackRow := []
  blocks : List Block := []
  maintenance : List Maintenance := []
  verifyTargets : List VerifyTarget := []
  restoreJobs : List RestoreJob := []
  restoreRuns : List RestoreRun := []
  restoreItems : List RestoreItem := []
  restoreItemBlocks : List RestoreItemBlock := []
  packPins : List PackPin := []
  reservations : List Reservation := []
  now : ℕ := 0
  nextId : ℕ := 0

/-- Why a statement or a transaction was refused. Nothing of a refused transaction stays. -/
inductive DbErr
  | noRows
  | constraint (name : String)
  | text (message : String)
deriving DecidableEq

abbrev Tx (α : Type) := Db → Except DbErr (α × Db)

end Clumoove
