import Clumoove.Spec.Maintenance
import Clumoove.Spec.RestoreItems

/-! Every transaction of the backup and restore code as one operation of a party. The groups say
which tables an operation is about. -/

namespace Clumoove

inductive RunOp
  | claimPass (trigger : Trigger) (scheduledLocalKey : Option String)
  | claimQueued
  | transition (generation runId : ℕ) (expected next : RunState)
  | finalize (generation runId : ℕ) (expected terminal : RunState) (totals : Totals)
      (errorCode : Option String)
  | fail (generation runId : ℕ) (expected : RunState) (errorCode : String)
  | recoverStale
  | touch (generation runId : ℕ)
  | createDraft (runId : ℕ) (selectedRoots : List Path)
  | active (generation runId : ℕ)
  | discardDraft (snapshotId runId : ℕ)
  | publish (generation runId snapshotId : ℕ) (snapshotState : SnapshotState)
      (runState : RunState) (c : PublishCounts)
  | pause
  | resume
  | suspend
  | requestDeletion

@[reducible] def RunOp.Val : RunOp → Type
  | .claimPass .. => ClaimOutcome
  | .claimQueued => Option (Job × Run)
  | .recoverStale | .createDraft .. => ℕ
  | .touch .. | .discardDraft .. | .suspend => Unit
  | .transition .. | .finalize .. | .fail .. | .active .. | .publish .. | .pause | .resume
  | .requestDeletion => Bool

def RunOp.tx : (q : RunOp) → Tx q.Val
  | .claimPass trigger key => claimBackupJobPass trigger key
  | .claimQueued => claimNextQueuedBackupRun
  | .transition generation runId expected next => transitionBackupRun generation runId expected next
  | .finalize generation runId expected terminal totals errorCode =>
    finalizeBackupRun generation runId expected terminal totals errorCode
  | .fail generation runId expected errorCode => failBackupRun generation runId expected errorCode
  | .recoverStale => recoverStaleBackupRuns
  | .touch generation runId => touchBackupRun generation runId
  | .createDraft runId selectedRoots => createBackupSnapshotDraft runId selectedRoots
  | .active generation runId => backupRunActive generation runId
  | .discardDraft snapshotId runId => discardBackupSnapshotDraft snapshotId runId
  | .publish generation runId snapshotId snapshotState runState c =>
    publishBackupSnapshotAndFinalize generation runId snapshotId snapshotState runState c
  | .pause => pauseBackup
  | .resume => resumeBackup
  | .suspend => suspendUser
  | .requestDeletion => requestBackupRepositoryDeletion

def getBackupJobForOwner : Tx Job := fun db =>
  match db.job with
  | none => .error .noRows
  | some job => .ok (job, db)

inductive CatalogOp
  | getJob
  | findBlock (hash : Digest)
  | recordPack (remotePath : Path) (packHash : Digest) (packSize : ℕ) (blocks : List PackBlock)
  | createItems (snapshotId : ℕ) (items : List BatchSnapshotItem)
  | latestValidSnapshot
  | fileCatalog (snapshotId : ℕ)
  | snapshotPacks (snapshotId : ℕ)
  | packsChecked (packIds : List ℕ)
  | packDamaged (packId : ℕ)
  | expire (keep : ℕ)
  | reclaimablePacks (limit : ℕ)
  | packsForDeletion (limit : ℕ)
  | packDeleted (packId : ℕ)
  | liveBlocks (packId : ℕ)
  | compactionCandidate
  | replaceLocators (oldPackId : ℕ) (remotePath : Path) (packHash : Digest) (packSize : ℕ)
      (blocks : List PackBlock) (blockIds : List ℕ)
  | deleteJob

@[reducible] def CatalogOp.Val : CatalogOp → Type
  | .getJob => Job
  | .findBlock _ | .latestValidSnapshot => Option ℕ
  | .recordPack .. => List (Digest × ℕ)
  | .fileCatalog _ => List CatalogItem
  | .snapshotPacks _ | .reclaimablePacks _ | .packsForDeletion _ => List PackRow
  | .liveBlocks _ => List Block
  | .compactionCandidate => Option PackRow
  | .replaceLocators .. => ℕ
  | .deleteJob => Bool
  | .createItems .. | .packsChecked _ | .packDamaged _ | .expire _ | .packDeleted _ => Unit

def CatalogOp.tx : (q : CatalogOp) → Tx q.Val
  | .getJob => getBackupJobForOwner
  | .findBlock hash => findBackupBlock hash
  | .recordPack remotePath packHash packSize blocks =>
    recordBackupPackAndBlocks remotePath packHash packSize blocks
  | .createItems snapshotId items => batchCreateBackupSnapshotItemsAndBlocks snapshotId items
  | .latestValidSnapshot => getLatestValidBackupSnapshotID
  | .fileCatalog snapshotId => getBackupSnapshotFileCatalog snapshotId
  | .snapshotPacks snapshotId => listBackupSnapshotPacks snapshotId
  | .packsChecked packIds => markBackupPacksChecked packIds
  | .packDamaged packId => markBackupPackDamaged packId
  | .expire keep => expireBackupSnapshots keep
  | .reclaimablePacks limit => listBackupReclaimablePacks limit
  | .packsForDeletion limit => listBackupPacksForDeletion limit
  | .packDeleted packId => markBackupPackDeleted packId
  | .liveBlocks packId => listBackupLiveBlocks packId
  | .compactionCandidate => findBackupCompactionCandidate
  | .replaceLocators oldPackId remotePath packHash packSize blocks blockIds =>
    replaceBackupPackLocators oldPackId remotePath packHash packSize blocks blockIds
  | .deleteJob => deleteBackupJobAfterRepositoryCleanup

inductive UpkeepOp
  | enqueue (kind : MaintenanceKind)
  | createVerify (mode : VerifyMode) (byteBudget : Option ℕ)
  | claim (pick : ℕ)
  | complete (maintenanceId : ℕ)
  | cancelVerify (maintenanceId : ℕ)
  | cancelling (maintenanceId : ℕ)
  | retry (maintenanceId : ℕ) (errorCode : String)
  | snapshotTargets (maintenanceId : ℕ)
  | claimTarget (maintenanceId : ℕ)
  | releaseTarget (targetId claimEpoch : ℕ)
  | completeTarget (targetId : ℕ) (found : Bool) (expectedSize actualSize claimEpoch : ℕ)
  | targetDamaged (targetId claimEpoch : ℕ)
  | addProcessedBytes (maintenanceId bytes : ℕ)
  | targetRead (targetId bytes claimEpoch : ℕ)
  | advanceCursor (maintenanceId : ℕ)
  | completeVerify (maintenanceId : ℕ)

@[reducible] def UpkeepOp.Val : UpkeepOp → Type
  | .createVerify .. => ℕ
  | .claim _ => Option Maintenance
  | .cancelVerify _ | .cancelling _ => Bool
  | .claimTarget _ => Option VerifyTarget
  | .completeTarget .. => TargetState
  | .enqueue _ | .complete _ | .retry .. | .snapshotTargets _ | .releaseTarget .. | .targetDamaged ..
  | .addProcessedBytes .. | .targetRead .. | .advanceCursor _ | .completeVerify _ => Unit

def UpkeepOp.tx : (q : UpkeepOp) → Tx q.Val
  | .enqueue kind => enqueueBackupMaintenance kind
  | .createVerify mode byteBudget => createBackupVerify mode byteBudget
  | .claim pick => claimNextBackupMaintenance pick
  | .complete maintenanceId => completeBackupMaintenance maintenanceId
  | .cancelVerify maintenanceId => cancelBackupVerify maintenanceId
  | .cancelling maintenanceId => isBackupMaintenanceCancelling maintenanceId
  | .retry maintenanceId errorCode => retryBackupMaintenance maintenanceId errorCode
  | .snapshotTargets maintenanceId => snapshotBackupVerifyTargets maintenanceId
  | .claimTarget maintenanceId => claimNextBackupVerifyTarget maintenanceId
  | .releaseTarget targetId claimEpoch => releaseBackupVerifyTargetClaim targetId claimEpoch
  | .completeTarget targetId found expectedSize actualSize claimEpoch =>
    completeBackupVerifyTarget targetId found expectedSize actualSize claimEpoch
  | .targetDamaged targetId claimEpoch => markBackupVerifyTargetDamaged targetId claimEpoch
  | .addProcessedBytes maintenanceId bytes => addBackupVerifyProcessedBytes maintenanceId bytes
  | .targetRead targetId bytes claimEpoch => markBackupVerifyTargetRead targetId bytes claimEpoch
  | .advanceCursor maintenanceId => advanceBackupVerifyCursor maintenanceId
  | .completeVerify maintenanceId => completeBackupVerify maintenanceId

inductive RestoreOp
  | consumePreview (config : RestoreJob) (retryJobId : Option ℕ)
  | claimQueued
  | plan (job : RestoreJob) (run : RestoreRun)
  | failPlanning (jobId runId generation : ℕ) (errorCode : String)
  | recoverPlanning
  | cancel (runId : ℕ)
  | claimItem (pick : ℕ)
  | completeItem (itemId runId sizeBytes claimEpoch : ℕ)
  | completeDirectory (itemId runId claimEpoch : ℕ)
  | warnItem (itemId runId claimEpoch : ℕ) (errorCode : String)
  | failItem (itemId runId claimEpoch : ℕ) (errorCode : String)
  | skipItem (itemId runId claimEpoch : ℕ) (errorCode : String)
  | retryItem (itemId runId claimEpoch : ℕ) (errorCode : String)
  | setTarget (itemId runId claimEpoch : ℕ) (targetPath : Path)
  | setResolvedTarget (itemId runId claimEpoch : ℕ) (resolved : Path)
  | reserve (runId itemId : ℕ) (canonicalPath : Path)
  | moveReservation (runId itemId : ℕ) (canonicalPath : Path)
  | setDirectoryTarget (itemId runId claimEpoch : ℕ) (snapshotPath targetPath : Path)
  | skipBlocked
  | heartbeat (itemId runId claimEpoch : ℕ)
  | recoverItems
  | finalizeCompleted
  | finalizeCancelling
  | deleteJob (jobId : ℕ)

@[reducible] def RestoreOp.Val : RestoreOp → Type
  | .consumePreview .. => RestoreRun
  | .claimQueued => Option (RestoreJob × RestoreRun)
  | .claimItem _ => Option RestoreItem
  | .plan .. | .failPlanning .. | .cancel _ | .completeItem .. | .retryItem .. | .reserve ..
  | .moveReservation .. | .deleteJob _ => Bool
  | .skipBlocked | .recoverItems | .finalizeCompleted | .finalizeCancelling => ℕ
  | .recoverPlanning | .completeDirectory .. | .warnItem .. | .failItem .. | .skipItem ..
  | .setTarget .. | .setResolvedTarget .. | .setDirectoryTarget .. | .heartbeat .. => Unit

def RestoreOp.tx : (q : RestoreOp) → Tx q.Val
  | .consumePreview config retryJobId => consumeRestorePreview config retryJobId
  | .claimQueued => claimNextQueuedRestoreRun
  | .plan job run => planRestoreRun job run
  | .failPlanning jobId runId generation errorCode =>
    failRestoreRunPlanning jobId runId generation errorCode
  | .recoverPlanning => recoverStaleRestorePlanning
  | .cancel runId => cancelRestoreRun runId
  | .claimItem pick => claimNextRestoreItem pick
  | .completeItem itemId runId sizeBytes claimEpoch =>
    completeRestoreItem itemId runId sizeBytes claimEpoch
  | .completeDirectory itemId runId claimEpoch => completeRestoreDirectory itemId runId claimEpoch
  | .warnItem itemId runId claimEpoch errorCode => warnRestoreItem itemId runId claimEpoch errorCode
  | .failItem itemId runId claimEpoch errorCode => failRestoreItem itemId runId claimEpoch errorCode
  | .skipItem itemId runId claimEpoch errorCode => skipRestoreItem itemId runId claimEpoch errorCode
  | .retryItem itemId runId claimEpoch errorCode =>
    retryRestoreItem itemId runId claimEpoch errorCode
  | .setTarget itemId runId claimEpoch targetPath =>
    setRestoreItemTargetPath itemId runId claimEpoch targetPath
  | .setResolvedTarget itemId runId claimEpoch resolved =>
    setRestoreItemResolvedTargetPath itemId runId claimEpoch resolved
  | .reserve runId itemId canonicalPath => reserveRestoreTargetPath runId itemId canonicalPath
  | .moveReservation runId itemId canonicalPath =>
    moveRestoreTargetReservation runId itemId canonicalPath
  | .setDirectoryTarget itemId runId claimEpoch snapshotPath targetPath =>
    setRestoreDirectoryTargetPath itemId runId claimEpoch snapshotPath targetPath
  | .skipBlocked => skipBlockedRestoreItems
  | .heartbeat itemId runId claimEpoch => heartbeatRestoreItem itemId runId claimEpoch
  | .recoverItems => recoverStaleRestoreItems
  | .finalizeCompleted => finalizeCompletedRestoreRuns
  | .finalizeCancelling => finalizeCancellingRestoreRuns
  | .deleteJob jobId => deleteRestoreJob jobId

inductive SqlOp
  | run (q : RunOp)
  | catalog (q : CatalogOp)
  | upkeep (q : UpkeepOp)
  | restore (q : RestoreOp)

@[reducible] def SqlOp.Val : SqlOp → Type
  | .run q => q.Val
  | .catalog q => q.Val
  | .upkeep q => q.Val
  | .restore q => q.Val

def SqlOp.tx : (q : SqlOp) → Tx q.Val
  | .run q => q.tx
  | .catalog q => q.tx
  | .upkeep q => q.tx
  | .restore q => q.tx

end Clumoove
