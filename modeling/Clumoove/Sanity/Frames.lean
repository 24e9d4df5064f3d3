import Clumoove.Sanity.Runs
import Clumoove.Spec.System

/-! The tables each group of transactions leaves alone. A table is left alone when the databases
before and after agree once the tables the group writes are blanked out. -/

namespace Clumoove

open Table

variable {db : Db}

def Db.backupTables (db : Db) : Db :=
  { db with
    restoreJobs := [], restoreRuns := [], restoreItems := [], restoreItemBlocks := []
    packPins := [], reservations := [], nextId := 0 }

variable (q : RestoreOp)

theorem RestoreOp.only (db : Db) :
    (q.tx.commit db).backupTables = db.backupTables ∧ db.nextId ≤ (q.tx.commit db).nextId := by
  refine Tx.commit_of (P := fun db' => db'.backupTables = db.backupTables ∧ db.nextId ≤ db'.nextId)
    ⟨rfl, le_rfl⟩ fun a db' h => ?_
  cases q <;> simp only [RestoreOp.tx, consumeRestorePreview, claimNextQueuedRestoreRun,
    planRestoreRun, failRestoreRunPlanning, recoverStaleRestorePlanning, cancelRestoreRun,
    claimNextRestoreItem, completeRestoreItem, completeRestoreDirectory, warnRestoreItem,
    failRestoreItem, skipRestoreItem, retryRestoreItem, setRestoreItemTargetPath,
    setRestoreItemResolvedTargetPath, reserveRestoreTargetPath, moveRestoreTargetReservation,
    setRestoreDirectoryTargetPath, skipBlockedRestoreItems, heartbeatRestoreItem,
    recoverStaleRestoreItems, finalizeCompletedRestoreRuns, finalizeCancellingRestoreRuns,
    deleteRestoreJob] at h
  all_goals (repeat' split at h) <;> cases h <;> first
    | exact ⟨rfl, le_rfl⟩ | exact ⟨rfl, Nat.le_add_right _ _⟩

theorem RestoreOp.backupTables_eq (db : Db) : (q.tx.commit db).backupTables = db.backupTables := (q.only db).1

theorem RestoreOp.job_eq (db : Db) : (q.tx.commit db).job = db.job :=
  (congrArg Db.job (q.backupTables_eq db) :)

theorem RestoreOp.maintenance_eq (db : Db) : (q.tx.commit db).maintenance = db.maintenance :=
  (congrArg Db.maintenance (q.backupTables_eq db) :)

theorem RestoreOp.nextId_le (db : Db) : db.nextId ≤ (q.tx.commit db).nextId :=
  (q.only db).2

/-- Everything but the maintenance requests and the targets of checks. -/
def Db.withoutUpkeep (db : Db) : Db := { db with maintenance := [], verifyTargets := [], nextId := 0 }

theorem UpkeepOp.withoutUpkeep_eq (q : UpkeepOp) (db : Db) :
    (q.tx.commit db).withoutUpkeep = db.withoutUpkeep := by
  refine Tx.commit_of (P := fun db' => db'.withoutUpkeep = db.withoutUpkeep) rfl fun a db' h => ?_
  cases q <;> simp only [UpkeepOp.tx, enqueueBackupMaintenance, createBackupVerify,
    claimNextBackupMaintenance, completeBackupMaintenance, cancelBackupVerify,
    isBackupMaintenanceCancelling, retryBackupMaintenance, snapshotBackupVerifyTargets,
    claimNextBackupVerifyTarget, releaseBackupVerifyTargetClaim, completeBackupVerifyTarget,
    markBackupVerifyTargetDamaged, addBackupVerifyProcessedBytes, markBackupVerifyTargetRead,
    advanceBackupVerifyCursor, completeBackupVerify] at h
  all_goals (repeat' split at h) <;> cases h <;> rfl

/-- The packs, their blocks, and the targets of checks: what no transaction on runs writes. -/
def Db.packTables (db : Db) : List PackRow × List Block × List VerifyTarget × List RestoreItemBlock :=
  (db.packs, db.blocks, db.verifyTargets, db.restoreItemBlocks)

theorem RunOp.packTables_eq (q : RunOp) (db : Db) : (q.tx.commit db).packTables = db.packTables := by
  refine Tx.commit_of (P := fun db' => db'.packTables = db.packTables) rfl fun a db' h => ?_
  cases q <;> simp only [RunOp.tx, claimBackupJobPass, claimNextQueuedBackupRun,
    transitionBackupRun, finalizeBackupRun, failBackupRun, completeBackupRun,
    recoverStaleBackupRuns, touchBackupRun, createBackupSnapshotDraft, backupRunActive,
    discardBackupSnapshotDraft, publishBackupSnapshotAndFinalize, pauseBackup, resumeBackup,
    suspendUser, requestBackupRepositoryDeletion] at h
  all_goals (repeat' split at h) <;> cases h <;> rfl

def Db.deleting (db : Db) : Bool := db.job.any (·.deletionState = .deleting)

theorem RunOp.deleting_of (q : RunOp) (hq : q ≠ .requestDeletion) (db : Db)
    (h : (q.tx.commit db).deleting = true) : db.deleting = true := by
  refine Tx.commit_of (P := fun db' => db'.deleting = true → db.deleting = true) (fun h => h)
    (fun a db' hok => ?_) h
  cases q with
  | requestDeletion => exact absurd rfl hq
  | suspend =>
    cases hok
    unfold Db.deleting
    cases db.job with
    | none => exact fun h => h
    | some j =>
      simp only [Option.map_some, Option.any_some]
      split_ifs <;> exact fun h => h
  | _ =>
    simp only [RunOp.tx, claimBackupJobPass, claimNextQueuedBackupRun, transitionBackupRun,
      finalizeBackupRun, failBackupRun, completeBackupRun, recoverStaleBackupRuns, touchBackupRun,
      createBackupSnapshotDraft, backupRunActive, discardBackupSnapshotDraft,
      publishBackupSnapshotAndFinalize, pauseBackup, resumeBackup] at hok
    repeat' split at hok
    all_goals first
      | cases hok; done
      | cases hok; exact fun h => h
      | cases hok; rename db.job = some _ => hj; intro h; rw [Db.deleting, hj]; exact h

/-- Everything but the packs, the snapshots and what they hold. -/
def Db.outsideCatalog (db : Db) : Db :=
  { db with snapshots := [], items := [], itemBlocks := [], packs := [], blocks := [], nextId := 0 }

structure CatalogOnly (db db' : Db) : Prop where
  outside : db'.outsideCatalog = db.outsideCatalog
  nextId : db.nextId ≤ db'.nextId

theorem CatalogOnly.refl (db : Db) : CatalogOnly db db := ⟨rfl, le_rfl⟩

theorem CatalogOnly.job (h : CatalogOnly db db') : db'.job = db.job :=
  (congrArg Db.job h.outside :)

theorem CatalogOnly.maintenance (h : CatalogOnly db db') : db'.maintenance = db.maintenance :=
  (congrArg Db.maintenance h.outside :)

theorem CatalogOnly.trans (h₁ : CatalogOnly a b) (h₂ : CatalogOnly b c) : CatalogOnly a c :=
  ⟨h₂.outside.trans h₁.outside, h₁.nextId.trans h₂.nextId⟩

theorem insertPack_only {size generation id : ℕ}
    (h : insertPack remotePath sha size generation db = .ok (id, db')) : CatalogOnly db db' := by
  unfold insertPack at h
  split_ifs at h
  cases h
  exact ⟨rfl, Nat.le_succ _⟩

theorem insertBlocks_only
    (h : insertBlocks packId blocks db = .ok (ids, db')) : CatalogOnly db db' := by
  induction blocks generalizing db ids with
  | nil => cases h; exact .refl _
  | cons b blocks ih =>
    unfold insertBlocks at h
    split at h
    · cases h
    · next id db₁ hb =>
      split at h
      · cases h
      · next ids' db₂ hbs =>
        cases h
        refine CatalogOnly.trans ?_ (ih hbs)
        unfold insertBlock at hb
        split_ifs at hb
        cases hb
        exact ⟨rfl, Nat.le_succ _⟩

theorem insertItemBlocks_only
    (h : insertItemBlocks itemId ordinal refs db = .ok (u, db')) : CatalogOnly db db' := by
  induction refs generalizing db ordinal with
  | nil => cases h; exact .refl _
  | cons r refs ih =>
    cases r with
    | placeholder hash => cases h
    | id blockId =>
      unfold insertItemBlocks at h
      split_ifs at h
      refine CatalogOnly.trans ?_ (ih h)
      exact ⟨rfl, le_rfl⟩

theorem createItems_only
    (h : batchCreateBackupSnapshotItemsAndBlocks snapshotId items db = .ok (u, db')) :
    CatalogOnly db db' := by
  induction items generalizing db with
  | nil => cases h; exact .refl _
  | cons item items ih =>
    unfold batchCreateBackupSnapshotItemsAndBlocks at h
    split at h
    · cases h
    · next itemId db₁ hi =>
      split at h
      · cases h
      · next db₂ hb =>
        refine CatalogOnly.trans ?_ ((insertItemBlocks_only hb).trans (ih h))
        unfold insertItem at hi
        split_ifs at hi
        all_goals cases hi; exact ⟨rfl, Nat.le_succ _⟩

theorem moveBlocks_only
    (h : moveBlocks oldPackId newPackId moves db = .ok (u, db')) : CatalogOnly db db' := by
  induction moves generalizing db with
  | nil => cases h; exact .refl _
  | cons move moves ih =>
    unfold moveBlocks at h
    simp only at h
    split_ifs at h
    refine CatalogOnly.trans ?_ (ih h)
    exact ⟨rfl, le_rfl⟩

theorem CatalogOp.only (q : CatalogOp) (hq : q ≠ .deleteJob) (db : Db) :
    CatalogOnly db (q.tx.commit db) := by
  refine Tx.commit_of (.refl db) fun a db' h => ?_
  cases q with
  | recordPack remotePath packHash packSize blocks =>
    simp only [CatalogOp.tx, recordBackupPackAndBlocks] at h
    split at h
    · cases h
    · split at h
      · cases h
      · next packId db₁ hp => exact (insertPack_only hp).trans (insertBlocks_only h)
  | createItems snapshotId items => exact createItems_only h
  | replaceLocators oldPackId remotePath packHash packSize blocks blockIds =>
    simp only [CatalogOp.tx, replaceBackupPackLocators] at h
    split at h
    · cases h
    · split at h
      · cases h
      · next replacementId db₁ hp =>
        split at h
        · cases h
        · next db₂ hm =>
          cases h
          exact (insertPack_only hp).trans ((moveBlocks_only hm).trans ⟨rfl, le_rfl⟩)
  | deleteJob => exact absurd rfl hq
  | _ =>
    simp only [CatalogOp.tx, getBackupJobForOwner, findBackupBlock, getLatestValidBackupSnapshotID,
      getBackupSnapshotFileCatalog, listBackupSnapshotPacks, markBackupPacksChecked,
      markBackupPackDamaged, expireBackupSnapshots, listBackupReclaimablePacks,
      listBackupPacksForDeletion, markBackupPackDeleted, listBackupLiveBlocks,
      findBackupCompactionCandidate] at h
    repeat' split at h
    all_goals first | cases h; done | cases h; exact ⟨rfl, le_rfl⟩

end Clumoove
