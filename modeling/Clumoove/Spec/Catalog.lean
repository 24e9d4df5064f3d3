import Clumoove.Lib.Table
import Clumoove.Spec.Tables

/-! The pack and block catalogue: deduplication lookups, recording a pack, the items of a
snapshot draft, damage marking, expiry, reclamation and compaction. -/

namespace Clumoove

open Table

namespace Db

variable (db : Db) (p : Snapshot → Bool)

def itemIn (itemId : ℕ) : Bool :=
  db.items.any fun i => i.id = itemId ∧ db.snapshots.any fun s => s.id = i.snapshotId ∧ p s

def refers (blockId : ℕ) : Bool :=
  db.itemBlocks.any fun ib => ib.blockId = blockId ∧ db.itemIn p ib.itemId

def refersPack (packId : ℕ) : Bool :=
  db.blocks.any fun b => b.packId = packId ∧ db.refers p b.id

def liveBlock (blockId : ℕ) : Bool := db.refers (·.state.live) blockId

def livePack (packId : ℕ) : Bool := db.refersPack (·.state.live) packId

/-- A restore has frozen locators into the pack. -/
def pinned (packId : ℕ) : Bool := db.packPins.any (·.packId = packId)

/-- An unfinished repository check still lists the pack. -/
def verifyPinned (packId : ℕ) : Bool :=
  db.verifyTargets.any fun t => t.packId = some packId ∧
    db.maintenance.any fun m => m.id = t.maintenanceId ∧ m.kind = .verify ∧ m.state.active

def packReady (packId : ℕ) : Bool :=
  db.packs.any fun p => p.id = packId ∧ p.state = .ready

end Db

def findBackupBlock (hash : Digest) : Tx (Option ℕ) := fun db =>
  .ok ((db.blocks.find? fun b => b.sha256 = hash ∧ db.packReady b.packId).map (·.id), db)

/-- `BackupPackBlock`: where a block's payload lies in a remote pack. -/
structure PackBlock where
  hash : Digest
  plaintextSize : ℕ
  payloadOffset : ℕ
  payloadLength : ℕ
deriving DecidableEq

def insertPack (remotePath : Path) (sha256 : Digest) (sizeBytes generation : ℕ) :
    Tx ℕ := fun db =>
  if db.job.isNone then .error (.constraint "backup_packs_backup_job_id_fkey")
  else if db.packs.any (·.remotePath = remotePath) then
    .error (.constraint "backup_packs_backup_job_id_remote_rel_path_key")
  else if db.packs.any (·.sha256 = sha256) then
    .error (.constraint "backup_packs_backup_job_id_sha256_key")
  else .ok (db.nextId, { db with
    packs := db.packs ++ [{
      id := db.nextId, remotePath := remotePath, sha256 := sha256, sizeBytes := sizeBytes
      state := .ready, generation := generation }]
    nextId := db.nextId + 1 })

def insertBlock (packId : ℕ) (b : PackBlock) : Tx ℕ := fun db =>
  if b.plaintextSize = 0 ∨ b.plaintextSize > blockSize then
    .error (.constraint "backup_blocks_plaintext_size_check")
  else if b.payloadLength = 0 ∨ b.payloadLength > blockSize then
    .error (.constraint "backup_blocks_payload_length_check")
  else if db.blocks.any (·.sha256 = b.hash) then
    .error (.constraint "backup_blocks_backup_job_id_sha256_key")
  else .ok (db.nextId, { db with
    blocks := db.blocks ++ [{
      id := db.nextId, sha256 := b.hash, plaintextSize := b.plaintextSize, packId := packId
      payloadOffset := b.payloadOffset, payloadLength := b.payloadLength }]
    nextId := db.nextId + 1 })

def insertBlocks (packId : ℕ) : List PackBlock → Tx (List (Digest × ℕ))
  | [], db => .ok ([], db)
  | b :: blocks, db =>
    match insertBlock packId b db with
    | .error e => .error e
    | .ok (id, db₁) =>
      match insertBlocks packId blocks db₁ with
      | .error e => .error e
      | .ok (ids, db₂) => .ok ((b.hash, id) :: ids, db₂)

def recordBackupPackAndBlocks (remotePath : Path) (packHash : Digest) (packSize : ℕ)
    (blocks : List PackBlock) : Tx (List (Digest × ℕ)) := fun db =>
  if blocks.isEmpty then .error (.text "backup pack must contain blocks")
  else match insertPack remotePath packHash packSize 0 db with
    | .error e => .error e
    | .ok (packId, db₁) => insertBlocks packId blocks db₁

/-- What a file's block list holds before the last flush: a catalogue id, or the hash of a
block that still waits in the pack builder. -/
inductive BlockRef
  | id (blockId : ℕ)
  | placeholder (hash : Digest)
deriving DecidableEq

structure BatchSnapshotItem where
  relativePath : Path
  isDir : Bool
  sizeBytes : ℕ
  mtime : ℕ
  fileSha256 : Option Digest
  state : ItemState
  blockIds : List BlockRef

/-- `INSERT INTO backup_snapshot_item_blocks`. A hash is not a block id, so a placeholder that
was never resolved is refused like a dangling id. -/
def insertItemBlocks (itemId : ℕ) : ℕ → List BlockRef → Tx Unit
  | _, [], db => .ok ((), db)
  | ordinal, .placeholder _ :: _, _ =>
    .error (.text ("invalid input for block ordinal " ++ toString ordinal))
  | ordinal, .id blockId :: refs, db =>
    if ¬ db.blocks.any (·.id = blockId) then
      .error (.constraint "backup_snapshot_item_blocks_backup_block_id_fkey")
    else insertItemBlocks itemId (ordinal + 1) refs { db with
      itemBlocks := db.itemBlocks ++ [{ itemId := itemId, ordinal := ordinal, blockId := blockId }] }

/-- `INSERT INTO backup_snapshot_items`; Go's zero time is a null column. -/
def insertItem (snapshotId : ℕ) (item : BatchSnapshotItem) : Tx ℕ := fun db =>
  if ¬ db.snapshots.any (·.id = snapshotId) then
    .error (.constraint "backup_snapshot_items_backup_snapshot_id_fkey")
  else if db.items.any fun i => i.snapshotId = snapshotId ∧ i.relativePath = item.relativePath then
    .error (.constraint "backup_snapshot_items_backup_snapshot_id_relative_path_key")
  else if ¬ ((item.isDir ∧ item.sizeBytes = 0 ∧ item.fileSha256 = none) ∨
      (¬ item.isDir ∧ item.fileSha256.isSome)) then
    .error (.constraint "backup_snapshot_items_check")
  else .ok (db.nextId, { db with
    items := db.items ++ [{
      id := db.nextId, snapshotId := snapshotId, relativePath := item.relativePath
      isDir := item.isDir, sizeBytes := item.sizeBytes
      mtime := if item.mtime = 0 then none else some item.mtime
      fileSha256 := item.fileSha256, state := item.state, errorCode := none }]
    nextId := db.nextId + 1 })

def batchCreateBackupSnapshotItemsAndBlocks (snapshotId : ℕ) :
    List BatchSnapshotItem → Tx Unit
  | [], db => .ok ((), db)
  | item :: items, db =>
    match insertItem snapshotId item db with
    | .error e => .error e
    | .ok (itemId, db₁) =>
      match insertItemBlocks itemId 0 item.blockIds db₁ with
      | .error e => .error e
      | .ok (_, db₂) => batchCreateBackupSnapshotItemsAndBlocks snapshotId items db₂

def getLatestValidBackupSnapshotID : Tx (Option ℕ) := fun db =>
  .ok ((db.snapshots.reverse.find? fun s => s.state.live ∧ s.integrityState = .valid).map (·.id), db)

/-- `BackupSnapshotCatalogItem`: a file an incremental run may take over unread. -/
structure CatalogItem where
  relativePath : Path
  sizeBytes : ℕ
  mtime : ℕ
  fileSha256 : Digest
  blockIds : List ℕ
deriving DecidableEq

def Db.recipe (db : Db) (itemId : ℕ) : List ItemBlock :=
  (db.itemBlocks.filter (·.itemId = itemId)).mergeSort fun a b => a.ordinal ≤ b.ordinal

/-- One item of the incremental catalogue. A file of size zero has no blocks; any other has
blocks with ordinals `0, 1, …`, all in `READY` packs. -/
def Db.catalogItem (db : Db) (i : Item) : Option CatalogItem :=
  match i.fileSha256, i.mtime with
  | some sha, some mtime =>
    let refs := db.recipe i.id
    let sound := if i.sizeBytes = 0 then refs.isEmpty else
      ¬ refs.isEmpty ∧ refs.map (·.ordinal) = List.range refs.length ∧
        refs.all fun r => db.blocks.any fun b => b.id = r.blockId ∧ db.packReady b.packId
    if sound then some ⟨i.relativePath, i.sizeBytes, mtime, sha, refs.map (·.blockId)⟩ else none
  | _, _ => none

def getBackupSnapshotFileCatalog (snapshotId : ℕ) : Tx (List CatalogItem) := fun db =>
  .ok ((db.items.filter fun i => i.snapshotId = snapshotId ∧ ¬ i.isDir ∧ i.state = .available
    ).filterMap db.catalogItem, db)

def listBackupSnapshotPacks (snapshotId : ℕ) : Tx (List PackRow) := fun db =>
  .ok (db.packs.filter fun p =>
    db.refersPack (fun s => s.id = snapshotId ∧ s.state = .publishing) p.id, db)

def markBackupPacksChecked (packIds : List ℕ) : Tx Unit := fun db =>
  .ok ((), { db with
    packs := updateWhere (fun p => p.state = .ready ∧ p.id ∈ packIds)
      (fun p => { p with lastCheckedAt := some db.now }) db.packs })

/-- A damaged pack takes every snapshot that refers to it along. -/
def markBackupPackDamaged (packId : ℕ) : Tx Unit := fun db =>
  if db.job.isNone then .error .noRows
  else .ok ((), { db with
    packs := updateWhere (·.id = packId) (fun p => { p with state := .damaged }) db.packs
    snapshots := updateWhere (fun s => (s.state = .publishing ∨ s.state.live) ∧
        db.refersPack (·.id = s.id) packId)
      (fun s => { s with state := .damaged, integrityState := .damaged }) db.snapshots })

def enqueueBackupMaintenance (kind : MaintenanceKind) : Tx Unit := fun db =>
  if db.job.isNone then .error (.constraint "backup_maintenance_backup_job_id_fkey")
  else .ok ((), { db with
    maintenance := db.maintenance ++ [{
      id := db.nextId, kind := kind
      byteBudget := if kind = .compaction then some 536870912 else none }]
    nextId := db.nextId + 1 })

def expireBackupSnapshots (keep : ℕ) : Tx Unit := fun db =>
  let expired := ((db.snapshots.filter (·.state.live)).reverse.drop keep).map (·.id)
  .ok ((), { db with
    snapshots := updateWhere (fun s => s.id ∈ expired) (fun s => { s with state := .expired })
      db.snapshots })

def listBackupReclaimablePacks (limit : ℕ) : Tx (List PackRow) := fun db =>
  .ok ((db.packs.filter fun p => (p.state = .ready ∨ p.state = .deletePending) ∧
    ¬ db.pinned p.id ∧ ¬ db.verifyPinned p.id ∧ ¬ db.livePack p.id).take limit, db)

def listBackupPacksForDeletion (limit : ℕ) : Tx (List PackRow) := fun db =>
  .ok ((db.packs.filter fun p => p.state ≠ .deleted ∧ ¬ db.pinned p.id ∧
    ¬ db.verifyPinned p.id).take limit, db)

/-- Drops what retired snapshots still refer to in a pack, then the blocks of the pack that
nothing refers to any more. -/
def Db.dropDeadBlocks (db : Db) (packId : ℕ) : Db :=
  let inPack (blockId : ℕ) : Bool := db.blocks.any fun b => b.id = blockId ∧ b.packId = packId
  let itemBlocks := db.itemBlocks.filter fun ib =>
    ¬ (db.itemIn (·.state.retired) ib.itemId ∧ inPack ib.blockId)
  { db with
    itemBlocks := itemBlocks
    blocks := db.blocks.filter fun b =>
      ¬ (b.packId = packId ∧ ¬ itemBlocks.any (·.blockId = b.id)) }

def markBackupPackDeleted (packId : ℕ) : Tx Unit := fun db =>
  let db₁ := db.dropDeadBlocks packId
  if db.packs.any (·.id = packId) ∧ ¬ db.pinned packId ∧ ¬ db.verifyPinned packId then
    .ok ((), { db₁ with
      packs := updateWhere (·.id = packId) (fun p => { p with state := .deleted }) db₁.packs })
  else .error (.text "backup pack is pinned by an active restore")

def listBackupLiveBlocks (packId : ℕ) : Tx (List Block) := fun db =>
  .ok (db.blocks.filter fun b => b.packId = packId ∧ db.liveBlock b.id, db)

def findBackupCompactionCandidate : Tx (Option PackRow) := fun db =>
  .ok (db.packs.find? fun p => p.state = .ready ∧ db.livePack p.id ∧
    db.blocks.any fun b => b.packId = p.id ∧ ¬ db.liveBlock b.id, db)

def moveBlocks (oldPackId newPackId : ℕ) : List (PackBlock × ℕ) → Tx Unit
  | [], db => .ok ((), db)
  | (b, blockId) :: moves, db =>
    let hit (row : Block) : Bool :=
      row.id = blockId ∧ row.packId = oldPackId ∧ row.sha256 = b.hash
    if ¬ db.blocks.any hit then .error (.text "backup block changed during compaction")
    else moveBlocks oldPackId newPackId moves { db with
      blocks := updateWhere hit (fun row => { row with
        packId := newPackId, payloadOffset := b.payloadOffset, payloadLength := b.payloadLength })
        db.blocks }

/-- Switches the live blocks to a replacement pack and leaves the old one `DELETE_PENDING`. -/
def replaceBackupPackLocators (oldPackId : ℕ) (remotePath : Path) (packHash : Digest)
    (packSize : ℕ) (blocks : List PackBlock) (blockIds : List ℕ) : Tx ℕ := fun db =>
  if blocks.isEmpty ∨ blocks.length ≠ blockIds.length then
    .error (.text "replacement backup pack blocks are invalid")
  else match insertPack remotePath packHash packSize 1 db with
    | .error e => .error e
    | .ok (replacementId, db₁) =>
      match moveBlocks oldPackId replacementId (blocks.zip blockIds) db₁ with
      | .error e => .error e
      | .ok (_, db₂) =>
        let db₃ := db₂.dropDeadBlocks oldPackId
        .ok (replacementId, { db₃ with
          packs := updateWhere (fun p => p.id = oldPackId ∧ p.state = .ready)
            (fun p => { p with state := .deletePending }) db₃.packs })

/-- Deletes the job row and all it cascades to. Rows that still refer to a pack refuse the
deletion: the foreign keys of blocks, pins and check targets on packs do not cascade. -/
def deleteBackupJobAfterRepositoryCleanup : Tx Bool := fun db =>
  match db.job with
  | none => .ok (false, db)
  | some job =>
    if job.status = .deleting ∧ db.packs.all (·.state = .deleted) then
      if db.packs.any fun p => db.blocks.any (·.packId = p.id) ∨ db.pinned p.id ∨
          db.verifyTargets.any (·.packId = some p.id) then
        .error (.constraint "backup_packs_restrict")
      else .ok (true, { db with
        job := none, runs := [], snapshots := [], items := [], itemBlocks := [], packs := []
        maintenance := [], verifyTargets := []
        restoreJobs := db.restoreJobs.map fun j => { j with snapshotId := none } })
    else .ok (false, db)

end Clumoove
