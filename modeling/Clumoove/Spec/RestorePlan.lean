import Clumoove.Lib.Like
import Clumoove.Lib.Table
import Clumoove.Spec.Tables
import Mathlib.Data.String.Basic

/-! From a selection of snapshot paths to a planned restore: the paths a request may name, the
queries that list, count and browse them, and `PlanRestoreRunContext`, which copies the selected
items with their block locators and pins the packs. -/

namespace Clumoove

open Table Like

def normalizeBackupSnapshotPath (value : Path) : Except String Path :=
  if value.contains '\\' ∨ value.head? = some '/' then .error "invalid backup snapshot path"
  else if (value.splitOn '/').any fun part => part = [] ∨ part = ['.'] ∨ part = ['.', '.'] then
    .error "invalid backup snapshot path"
  else .ok value

/-- A path without its leading slash; the empty path selects the whole snapshot. -/
def normalizeRestoreSnapshotPath (value : Path) : Option Path :=
  let clean := if value.head? = some '/' then value.tail else value
  if clean = [] then some []
  else match normalizeBackupSnapshotPath clean with
    | .ok clean => some clean
    | .error _ => none

def normalizeRestoreSnapshotPaths (paths : List Path) : Option (List Path) :=
  if paths = [] then none
  else match paths.mapM normalizeRestoreSnapshotPath with
    | none => none
    | some seen =>
      if ¬ seen.Nodup then none
      else if seen.any fun value => seen.any fun other =>
          value ≠ other ∧ (value ++ ['/']).isPrefixOf other then none
      else some (seen.mergeSort fun a b => decide (a ≤ b))

/-- `selected.path = '' OR relative_path = selected.path OR relative_path LIKE selected.path ||
'/%'`, for some selected path. -/
def inSelection (selected : List Path) (path : Path) : Bool :=
  selected.any fun p => p = [] ∨ path = p ∨ like (p ++ ['/', '%']) path

variable (db : Db)

def Db.restorable (snapshotId : ℕ) : Bool :=
  db.snapshots.any fun s => s.id = snapshotId ∧ s.state.live ∧ s.integrityState ≠ .damaged

structure RestorePreviewItem where
  relativePath : Path
  isDir : Bool
  sizeBytes : ℕ
  state : ItemState
  sourceMTime : Option ℕ
deriving DecidableEq

def Item.preview (i : Item) : RestorePreviewItem :=
  ⟨i.relativePath, i.isDir, i.sizeBytes, i.state, i.mtime⟩

variable (collate : Path → Path → Bool)

/-- `ORDER BY is_dir DESC, length(relative_path), relative_path` under the collation of the
database. -/
def previewOrder (a b : RestorePreviewItem) : Bool :=
  if a.isDir ≠ b.isDir then a.isDir
  else if a.relativePath.length ≠ b.relativePath.length then
    decide (a.relativePath.length < b.relativePath.length)
  else collate a.relativePath b.relativePath

def listRestorePreviewItems (snapshotId : ℕ)
    (selected : List Path) : Tx (List RestorePreviewItem) := fun db =>
  .ok (((db.items.filter fun i => i.snapshotId = snapshotId ∧ db.restorable snapshotId ∧
    inSelection selected i.relativePath).map Item.preview).mergeSort (previewOrder collate), db)

def countRestorePreviewSelection (snapshotId : ℕ) (selected : List Path) : Tx (ℕ × ℕ) := fun db =>
  if selected = [] then .error (.text "restore selection is empty")
  else
    let files := db.items.filter fun i => i.snapshotId = snapshotId ∧ db.restorable snapshotId ∧
      ¬ i.isDir ∧ i.state = .available ∧ inSelection selected i.relativePath
    .ok ((files.length, (files.map (·.sizeBytes)).sum), db)

def listBackupSnapshotChildren (snapshotId : ℕ)
    (directory : Path) : Tx (List (Path × RestorePreviewItem)) := fun db =>
  match if directory = [] then .ok [] else normalizeBackupSnapshotPath directory with
  | .error e => .error (.text e)
  | .ok _ =>
    let dir := if directory = [] then [] else directory ++ ['/']
    let rows := (db.items.filter fun i => i.snapshotId = snapshotId ∧
      db.snapshots.any (fun s => s.id = snapshotId ∧ (s.state.live ∨ s.state = .damaged)) ∧
      like (escape dir ++ ['%']) i.relativePath).mergeSort fun a b =>
        if a.isDir ≠ b.isDir then a.isDir else collate a.relativePath b.relativePath
    .ok (rows.filterMap fun i =>
      let remainder := i.relativePath.drop dir.length
      if remainder = [] ∨ remainder.contains '/' then none else some (remainder, i.preview), db)

/-- `regexp_replace(path, '/[^/]+$', '')`. -/
def parentPath (path : Path) : Path :=
  let name := path.reverse.takeWhile (· ≠ '/')
  if name = [] ∨ ¬ path.contains '/' then path
  else (path.reverse.drop (name.length + 1)).reverse

def plannedTarget (targetRoot relativePath : Path) : Path :=
  if targetRoot = ['/'] then '/' :: relativePath else targetRoot ++ '/' :: relativePath

def planItem (runId now : ℕ) (targetRoot : Path) (id : ℕ) (i : Item) : RestoreItem where
  id := id
  runId := runId
  snapshotRelativePath := i.relativePath
  isDir := i.isDir
  sizeBytes := i.sizeBytes
  fileSha256 := i.fileSha256
  targetPath := plannedTarget targetRoot i.relativePath
  resolvedTargetPath := plannedTarget targetRoot i.relativePath
  status := if i.isDir ∨ i.state = .available then .pending else .skipped
  errorCode := if i.isDir ∨ i.state = .available then none else
    some (i.errorCode.getD "RESTORE_SOURCE_UNAVAILABLE")
  updatedAt := now

def planItems (runId now : ℕ) (targetRoot : Path) : ℕ → List Item → List RestoreItem
  | _, [] => []
  | id, i :: items => planItem runId now targetRoot id i :: planItems runId now targetRoot (id + 1) items

def linkParents (planned : List RestoreItem) : List RestoreItem :=
  planned.map fun child =>
    if child.snapshotRelativePath.contains '/' then
      match planned.find? fun parent => parent.isDir ∧
          parent.snapshotRelativePath = parentPath child.snapshotRelativePath with
      | some parent => { child with parentItemId := some parent.id }
      | none => child
    else child

variable (job : RestoreJob)

def Db.plannedItems (runId snapshotId : ℕ) : List RestoreItem :=
  linkParents (planItems runId db.now job.targetRoot db.nextId (db.items.filter fun i =>
    i.snapshotId = snapshotId ∧ inSelection job.selectedPaths i.relativePath))

/-- A selected file whose recipe is missing, or leads into a pack that is not `READY` or out
of its bounds. -/
def Db.invalidRecipe (i : Item) : Bool :=
  ¬ i.isDir ∧ i.state = .available ∧ i.sizeBytes > 0 ∧ (¬ db.itemBlocks.any (·.itemId = i.id) ∨
    db.itemBlocks.any fun ib => ib.itemId = i.id ∧ db.blocks.any fun b => b.id = ib.blockId ∧
      db.packs.any fun p => p.id = b.packId ∧
        (p.state ≠ .ready ∨ b.payloadOffset + b.payloadLength > p.sizeBytes))

/-- The files of a plan joined with the snapshot's block references: planned item, reference,
block. -/
def Db.plannedBlocks (snapshotId : ℕ) (planned : List RestoreItem) : List (RestoreItem × ItemBlock × Block) :=
  (planned.filter fun ri => ri.status = .pending ∧ ¬ ri.isDir).flatMap fun ri =>
    (db.items.filter fun si => si.snapshotId = snapshotId ∧
      si.relativePath = ri.snapshotRelativePath).flatMap fun si =>
        (db.itemBlocks.filter (·.itemId = si.id)).flatMap fun ib =>
          (db.blocks.filter (·.id = ib.blockId)).map fun b => (ri, ib, b)

/-- The locators a plan freezes; only blocks of `READY` packs have one. -/
def Db.frozenBlocks (snapshotId : ℕ) (planned : List RestoreItem) : List RestoreItemBlock :=
  (db.plannedBlocks snapshotId planned).flatMap fun (ri, ib, b) =>
    (db.packs.filter fun p => p.id = b.packId ∧ p.state = .ready).map fun p => {
      itemId := ri.id, ordinal := ib.ordinal, packRemotePath := p.remotePath
      packSha256 := p.sha256, packSizeBytes := p.sizeBytes, payloadOffset := b.payloadOffset
      payloadLength := b.payloadLength, blockSha256 := b.sha256, plaintextSize := b.plaintextSize }

def Db.plannedPins (snapshotId runId : ℕ) (planned : List RestoreItem) : List PackPin :=
  ((db.plannedBlocks snapshotId planned).map fun (_, _, b) => b.packId).dedup.map fun packId =>
    { runId := runId, packId := packId }

/-- The row a plan moves from `PLANNING` to `RUNNING`. -/
def RestoreRun.planning (run r : RestoreRun) : Bool :=
  r.id = run.id ∧ r.jobId = job.id ∧ r.generation = run.generation ∧ r.status = .planning

variable (run : RestoreRun)

def Db.planRefused (snapshotId : ℕ) : Option DbErr :=
  let planned := db.plannedItems job run.id snapshotId
  if ¬ (db.restorable snapshotId ∧ db.job.any (·.deletionState = .active)) then
    some (.text "restore snapshot is no longer restorable")
  else if db.items.any fun i => i.snapshotId = snapshotId ∧
      inSelection job.selectedPaths i.relativePath ∧ db.invalidRecipe i then
    some (.text "restore snapshot has unavailable block recipes")
  else if planned.any fun i => db.restoreItems.any fun i' =>
      i'.runId = run.id ∧ i'.snapshotRelativePath = i.snapshotRelativePath then
    some (.constraint "restore_items_restore_run_id_snapshot_relative_path_key")
  else if (db.plannedPins snapshotId run.id planned).any (· ∈ db.packPins) then
    some (.constraint "restore_pack_pins_pkey")
  else if ¬ db.restoreRuns.any (RestoreRun.planning job run) then
    some (.text "restore run changed during planning")
  else none

def Db.withPlan (snapshotId : ℕ) : Db :=
  let planned := db.plannedItems job run.id snapshotId
  let files := planned.filter fun i => ¬ i.isDir
  { db with
    restoreItems := db.restoreItems ++ planned
    restoreItemBlocks := db.restoreItemBlocks ++ db.frozenBlocks snapshotId planned
    packPins := db.packPins ++ db.plannedPins snapshotId run.id planned
    restoreRuns := updateWhere (RestoreRun.planning job run) (fun r => { r with
        status := .running, totalFiles := files.length
        totalBytes := (files.map (·.sizeBytes)).sum, coordinatorLeaseUntil := none
        updatedAt := db.now }) db.restoreRuns
    nextId := db.nextId + planned.length }

/-- Plans a claimed run in one transaction: retention and compaction may run after it. -/
def planRestoreRun : Tx Bool := fun db =>
  match job.snapshotId with
  | none => .error (.text "restore job/run is incomplete")
  | some snapshotId =>
    match db.planRefused job run snapshotId with
    | some e => .error e
    | none => .ok (true, db.withPlan job run snapshotId)

end Clumoove
