import Clumoove.Spec.Store

/-! A backup run, as the worker that holds the job's lock executes it: `execute` with everything
it calls. Log lines and audit entries are left out; the heartbeat is another party. -/

namespace Clumoove

open Bytes Prog

def call (op : Op) : Act op.Val := Prog.perform op

def sql (q : SqlOp) : Act q.Val := call (.sql q)

def ask (x : External) : Act x.Val := call (.ask x)

def liftText {α : Type} : Except String α → Act α
  | .ok a => pure a
  | .error message => throw (.text message)

def liftPack {α : Type} : Except PackErr α → Act α
  | .ok a => pure a
  | .error e => throw (.pack e)

/-- A step of a loop whose state is kept when the step fails. -/
def keeping {σ : Type} (s : σ) (step : Act σ) : Act (σ × Option Err) := do
  match ← attempt step with
  | .ok s' => return (s', none)
  | .error e => return (s, some e)

/-- `FileExists` where an error counts as a missing object. -/
def confirmSize (path : Path) (size : ℕ) (message : String) : Act Unit := do
  match ← attempt (call (.fileExists path)) with
  | .ok (true, actual) => if actual = size then pure () else throw (.text message)
  | _ => throw (.text message)

variable (sha256 : List UInt8 → Digest)

section SplitBlocks

variable {σ : Type} (callback : σ → Entry → Act σ)

def feedBlocks : List (List UInt8) → σ → Act (σ × Option Err)
  | [], s => return (s, none)
  | block :: blocks, s => do
    match ← keeping s (do ask .context; callback s ⟨sha256 block, block⟩) with
    | (s, none) => feedBlocks blocks s
    | (s, some e) => return (s, some e)

variable (stream : Stream)

/-- How the loop of `SplitBlocks` ends: a stream that breaks off with an end-of-file error counts
as read to its end. -/
def streamHash : Act Digest :=
  match stream.ending with
  | .eof | .failed .eof | .failed .unexpectedEOF => pure (sha256 stream.bytes)
  | .failed e => throw e

/-- What `SplitBlocks` does after the last block. A stream that ends with a full block is read
once more. -/
def endOfStream : Act Digest :=
  if stream.bytes.length % blockSize = 0 then do
    ask .context
    streamHash sha256 stream
  else streamHash sha256 stream

/-- `SplitBlocks`: the callback's last state, and the hash of the whole stream or an error. -/
def splitBlocks (init : σ) : Act (σ × Except Err Digest) := do
  match ← feedBlocks sha256 callback (chunks blockSize stream.bytes) init with
  | (s, some e) => return (s, .error e)
  | (s, none) => return (s, ← attempt (endOfStream sha256 stream))

end SplitBlocks

structure PackBuilder where
  entries : List Entry := []
  encodedSize : ℕ := 16 + 20
  ids : List (Digest × ℕ) := []
  pending : List Digest := []

variable (b : PackBuilder)

def PackBuilder.catalogBlockID (hash : Digest) : Option ℕ := b.ids.lookup hash

def PackBuilder.hasPendingBlock (hash : Digest) : Bool := hash ∈ b.pending

def PackBuilder.resolveBlockID : BlockRef → BlockRef
  | .id blockId => .id blockId
  | .placeholder hash =>
    match b.catalogBlockID hash with
    | some blockId => .id blockId
    | none => .placeholder hash

def matchEntries (expected : List Entry) (message : String) (blocks : List PackBlock)
    (offset : ℕ) (entry : Entry) : Except String (List PackBlock) :=
  if expected[blocks.length]? = some entry then
    .ok (blocks ++ [⟨entry.hash, entry.data.length, offset, entry.data.length⟩])
  else .error message

def PackBuilder.flushed (ids : List (Digest × ℕ)) : PackBuilder where
  ids := ids ++ b.ids
  pending := b.pending.filter fun hash => hash ∉ ids.map (·.1)

/-- `packBuilder.flush`. -/
def flush (root : Path) (b : PackBuilder) : Act PackBuilder :=
  if b.entries.isEmpty then pure b else do
    let (pack, encoded) ← liftPack (encodePack sha256 b.entries)
    let remotePath ← liftText (packPath root pack.id)
    ask (.createParents remotePath)
    call (.streamUpload remotePath encoded)
    confirmSize remotePath pack.size "remote pack size confirmation failed"
    let remote ← call (.streamDownload remotePath)
    match validateStream sha256 (matchEntries b.entries "remote pack catalog mismatch") remote
        pack.id [] with
    | .error _ => throw (.text "remote pack validation failed")
    | .ok (validated, blocks) =>
      if validated.size = pack.size ∧ blocks.length = b.entries.length then do
        let ids ← sql (.catalog (.recordPack remotePath pack.id pack.size blocks))
        return b.flushed ids
      else throw (.text "remote pack validation failed")

def PackBuilder.append (entry : Entry) : PackBuilder :=
  { b with
    entries := b.entries ++ [entry], pending := entry.hash :: b.pending
    encodedSize := b.encodedSize + entrySize entry }

/-- `packBuilder.add`. -/
def add (root : Path) (b : PackBuilder) (entry : Entry) : Act PackBuilder :=
  if b.hasPendingBlock entry.hash then pure b
  else if b.encodedSize + entrySize entry > maxPackSize ∧ ¬ b.entries.isEmpty then do
    let b ← flush sha256 root b
    return b.append entry
  else pure (b.append entry)

structure PendingFile where
  file : ScannedFile
  fileHash : Digest
  blockIds : List BlockRef

structure RunStats where
  totalFiles : ℕ := 0
  totalDirs : ℕ := 0
  processedFiles : ℕ := 0
  failedFiles : ℕ := 0
  unstableFiles : ℕ := 0
  totalBytes : ℕ := 0
  processedBytes : ℕ := 0
  deduplicatedBytes : ℕ := 0

def RunStats.totals (s : RunStats) : Totals where
  totalFiles := s.totalFiles
  totalBytes := s.totalBytes
  processedFiles := s.processedFiles
  processedBytes := s.processedBytes
  deduplicatedBytes := s.deduplicatedBytes
  failedFiles := s.failedFiles

def RunStats.deduplicate (s : RunStats) (bytes : ℕ) : RunStats :=
  { s with deduplicatedBytes := s.deduplicatedBytes + bytes }

def sameSource (file : ScannedFile) (resource : Resource) : Bool :=
  ¬ resource.isDir ∧ resource.size = file.size ∧ resource.lastModified = file.mtime ∧
    resource.path = file.sourcePath

structure FileWork where
  builder : PackBuilder
  stats : RunStats
  blockIds : List BlockRef := []

def FileWork.reuse (s : FileWork) (ref : BlockRef) (entry : Entry) : FileWork :=
  { s with blockIds := s.blockIds ++ [ref], stats := s.stats.deduplicate entry.data.length }

/-- The block callback of `backupFile`: a block the builder has stored, one that waits in it,
one the catalogue knows, or a new one. -/
def backupBlock (root : Path) (s : FileWork) (entry : Entry) : Act FileWork := do
  match s.builder.catalogBlockID entry.hash with
  | some blockId => return s.reuse (.id blockId) entry
  | none =>
    if s.builder.hasPendingBlock entry.hash then return s.reuse (.placeholder entry.hash) entry
    else
      match ← sql (.catalog (.findBlock entry.hash)) with
      | some blockId => return s.reuse (.id blockId) entry
      | none =>
        let builder ← add sha256 root s.builder entry
        return { s with builder := builder, blockIds := s.blockIds ++ [.placeholder entry.hash] }

def readFile (root : Path) (file : ScannedFile) (s : FileWork) :
    Act (FileWork × Except Err Digest) := do
  match ← attempt (ask (.downloadSource file.sourcePath)) with
  | .error e => return (s, .error e)
  | .ok stream => splitBlocks sha256 (backupBlock sha256 root) stream { s with blockIds := [] }

/-- One attempt to read a file; `none` means that the file has changed meanwhile. -/
def backupAttempt (root : Path) (file : ScannedFile) (s : FileWork) :
    Act (FileWork × Except Err (Option PendingFile)) := do
  match ← attempt (ask (.inspectSource file.sourcePath)) with
  | .error e => return (s, .error e)
  | .ok current =>
    if ¬ sameSource file current then return (s, .ok none)
    else
      match ← readFile sha256 root file s with
      | (s, .error e) => return (s, .error e)
      | (s, .ok fileHash) =>
        match ← attempt (ask (.inspectSource file.sourcePath)) with
        | .error e => return (s, .error e)
        | .ok after =>
          if sameSource file after then return (s, .ok (some ⟨file, fileHash, s.blockIds⟩))
          else return (s, .ok none)

/-- `backupFile`: two attempts; a file that changes in both is left out. -/
def backupFile (root : Path) (file : ScannedFile) (builder : PackBuilder) (stats : RunStats) :
    Act (FileWork × Except Err (Option PendingFile)) := do
  match ← backupAttempt sha256 root file { builder := builder, stats := stats } with
  | (s, .ok none) => backupAttempt sha256 root file s
  | r => return r

/-- The run a worker executes, in the state the worker believes it is in. -/
structure RunClaim where
  generation : ℕ
  runId : ℕ
  state : RunState

variable (run : RunClaim)

def fail (code : String) : Act Unit := do
  let _ ← attempt (sql (.run (.fail run.generation run.runId run.state code)))

def failureCodeForState : RunState → String
  | .scanning => "BACKUP_SCAN_FAILED"
  | .verifying => "BACKUP_VERIFICATION_FAILED"
  | _ => "BACKUP_RUN_FAILED"

def finishOrFail (e : Err) (stats : RunStats) : Act Unit :=
  if e = .cancelled then do
    let _ ← attempt (sql (.run (.finalize run.generation run.runId run.state .cancelled
      stats.totals none)))
  else fail run (failureCodeForState run.state)

variable (snapshotId : ℕ)

def runActive : Act Bool := do
  match ← attempt (sql (.run (.active run.generation run.runId))) with
  | .error _ => fail run "BACKUP_CATALOG_FAILED"; return false
  | .ok true => return true
  | .ok false =>
    let _ ← attempt (sql (.run (.discardDraft snapshotId run.runId)))
    return false

def containerName : Path := ".clumoove-backup".toList

def isOnlyDirectory (entries : List Resource) (path : Path) : Bool :=
  entries.length = 1 ∧ entries.all fun e => e.isDir ∧ GoPath.clean e.path = GoPath.clean path

def ensureDedicatedTarget (targetDir repositoryId : Path) : Act Unit := do
  let entries ← ask (.listing targetDir)
  if entries.isEmpty then pure ()
  else
    let container ← liftText (repositoryPath targetDir [containerName])
    if ¬ isOnlyDirectory entries container then
      throw (.text "backup target directory is not empty")
    else
      match ← attempt (ask (.listing container)) with
      | .error _ => throw (.text "backup target directory is not dedicated")
      | .ok inner =>
        if inner.length ≠ 1 then throw (.text "backup target directory is not dedicated")
        else
          match repositoryPath container [repositoryId] with
          | .error _ => throw (.text "backup target directory belongs to another repository")
          | .ok root =>
            if isOnlyDirectory inner root then pure ()
            else throw (.text "backup target directory belongs to another repository")

/-- The content of `format-v1.json`. Repository ids are UUIDs, which `%q` only puts in quotes. -/
def formatContent (repositoryId : Path) : List UInt8 :=
  ("\x7b\"repository_id\":\"".toList ++ repositoryId ++
    ("\",\"format_version\":1,\"block_size\":4194304,\"target_pack_size\":67108864," ++
      "\"compression\":\"none\"\x7d\n").toList).map fun c => UInt8.ofNat c.toNat

def ensureFormat (root repositoryId : Path) : Act Unit := do
  let format := formatContent repositoryId
  let formatPath ← liftText (repositoryPath root [formatName])
  let (found, size) ← call (.fileExists formatPath)
  if ¬ found then do
    ask (.createParents formatPath)
    call (.streamUpload formatPath format)
  else if size ≠ format.length then throw (.text "unexpected backup repository format size")
  else do
    let reader ← call (.streamDownload formatPath)
    if reader.bytes.take (format.length + 1) = format ∧ reader.ending = .eof then pure ()
    else throw (.text "unsupported backup repository format")

/-- What `execute` does before the scan: the root to leave out of it, or the code of a failure. -/
def prepare (job : Job) : Act (Except String Path) := do
  let .ok _ ← attempt (ask .providers) | return .error "BACKUP_CONNECTION_FAILED"
  let .ok true ← attempt (ask .connectSource) | return .error "BACKUP_CONNECTION_FAILED"
  let .ok true ← attempt (ask .connectTarget) | return .error "BACKUP_CONNECTION_FAILED"
  let .ok _ ← attempt (ensureDedicatedTarget job.targetDir job.repositoryId)
    | return .error "BACKUP_TARGET_NOT_EMPTY"
  let .ok _ ← attempt (ensureFormat job.repositoryRoot job.repositoryId)
    | return .error "BACKUP_REPOSITORY_FORMAT_INVALID"
  let .ok same ← attempt (ask .sameConnection) | return .error "BACKUP_CONNECTION_FAILED"
  return .ok (if same then job.repositoryRoot else [])

/-- The zero value of a digest, which marks a missing file hash. -/
def zeroDigest : Digest := ⟨List.replicate 32 0, rfl⟩

/-- The catalogue entry an incremental run may take over for a file. Time zero is Go's zero
time. -/
def reusableEntry (catalog : List CatalogItem) (file : ScannedFile) : Option CatalogItem :=
  (catalog.find? (·.relativePath = file.relativePath)).filter fun prev =>
    file.mtime ≠ 0 ∧ prev.mtime ≠ 0 ∧ prev.mtime = file.mtime ∧ prev.sizeBytes = file.size ∧
      (file.size = 0 ∨ prev.blockIds ≠ []) ∧ prev.fileSha256 ≠ zeroDigest

/-- A file taken over from the previous snapshot, if the source still shows it unchanged. -/
def reuseFile (catalog : List CatalogItem) (file : ScannedFile) : Act (Option PendingFile) := do
  match reusableEntry catalog file with
  | none => return none
  | some prev =>
    match ← attempt (ask (.inspectSource file.sourcePath)) with
    | .error _ => return none
    | .ok current =>
      if sameSource file current then
        return some ⟨file, prev.fileSha256, prev.blockIds.map .id⟩
      else return none

structure Work where
  builder : PackBuilder := {}
  stats : RunStats
  pending : List PendingFile := []

def backupFiles (root : Path) (run : RunClaim) (snapshotId : ℕ) (catalog : List CatalogItem) :
    List ScannedFile → Work → Act (Option Work)
  | [], work => return some work
  | file :: files, work => do
    if ¬ (← runActive run snapshotId) then return none
    else
      match ← reuseFile catalog file with
      | some item =>
        backupFiles root run snapshotId catalog files { work with
          pending := work.pending ++ [item], stats := work.stats.deduplicate file.size }
      | none =>
        match ← backupFile sha256 root file work.builder work.stats with
        | (s, .error e) => finishOrFail run e s.stats; return none
        | (s, .ok none) =>
          backupFiles root run snapshotId catalog files { work with
            builder := s.builder
            stats := { s.stats with unstableFiles := s.stats.unstableFiles + 1 } }
        | (s, .ok (some item)) =>
          backupFiles root run snapshotId catalog files { work with
            builder := s.builder, stats := s.stats, pending := work.pending ++ [item] }

def ScannedDirectory.batchItem (d : ScannedDirectory) : BatchSnapshotItem where
  relativePath := d.relativePath
  isDir := true
  sizeBytes := 0
  mtime := d.mtime
  fileSha256 := none
  state := .available
  blockIds := []

def PendingFile.batchItem (builder : PackBuilder) (item : PendingFile) : BatchSnapshotItem where
  relativePath := item.file.relativePath
  isDir := false
  sizeBytes := item.file.size
  mtime := item.file.mtime
  fileSha256 := some item.fileHash
  state := .available
  blockIds := item.blockIds.map builder.resolveBlockID

def RunStats.processed (s : RunStats) (pending : List PendingFile) : RunStats :=
  { s with
    processedFiles := s.processedFiles + pending.length
    processedBytes := s.processedBytes + (pending.map (·.file.size)).sum }

def markPackDamaged (packId : ℕ) : Act Unit := do
  let _ ← attempt (sql (.catalog (.packDamaged packId)))

def sampleBudget : ℕ := 64 * 1024 * 1024

def failSample (packId : ℕ) (e : Err) : Act Unit := do
  markPackDamaged packId
  throw e

def samplePack (pack : PackRow) : Act Unit :=
  if pack.state ≠ .ready then failSample pack.id (.text "backup pack catalog is invalid") else do
    match ← attempt (confirmSize pack.remotePath pack.sizeBytes
        "backup pack size verification failed") with
    | .error e => failSample pack.id e
    | .ok _ =>
      match ← attempt (call (.streamDownload pack.remotePath)) with
      | .error e => failSample pack.id e
      | .ok reader =>
        match validateStream sha256 (fun _ _ _ => .ok ()) reader pack.sha256 () with
        | .error e => failSample pack.id e
        | .ok _ => pure ()

/-- The sample loop: packs that exceed what is left of the budget are passed over. -/
def samplePacks : List PackRow → ℕ → List ℕ → Act (List ℕ)
  | [], _, checked => return checked
  | pack :: packs, remaining, checked =>
    if pack.sizeBytes > remaining then samplePacks packs remaining checked
    else do
      samplePack sha256 pack
      if remaining - pack.sizeBytes = 0 then return checked ++ [pack.id]
      else samplePacks packs (remaining - pack.sizeBytes) (checked ++ [pack.id])

def verifySnapshotSample : Act Unit := do
  let packs ← sql (.catalog (.snapshotPacks snapshotId))
  if packs.isEmpty then pure ()
  else
    let start ← ask (.sampleStart packs.length)
    let checked ← samplePacks sha256 (packs.rotate start) sampleBudget []
    sql (.catalog (.packsChecked checked))

def publish (stats : RunStats) : Act Unit := do
  match ← attempt (sql (.run (.transition run.generation run.runId .running .verifying))) with
  | .ok true =>
    let run := { run with state := .verifying }
    match ← attempt (verifySnapshotSample sha256 snapshotId) with
    | .error _ => fail run "BACKUP_VERIFICATION_FAILED"
    | .ok _ =>
      let counts : PublishCounts := ⟨stats.totals, stats.totalDirs, stats.unstableFiles⟩
      let (snapshotState, runState) : SnapshotState × RunState :=
        if stats.unstableFiles > 0 then (.partially, .partially) else (.ready, .completed)
      match ← attempt (sql (.run (.publish run.generation run.runId snapshotId snapshotState
          runState counts))) with
      | .ok true => pure ()
      | _ => fail run "BACKUP_PUBLICATION_FAILED"
  | _ => fail run "BACKUP_TRANSITION_FAILED"

def writeCatalog (root : Path) (run : RunClaim) (snapshotId : ℕ)
    (directories : List ScannedDirectory) (work : Work) : Act Unit := do
  if ← runActive run snapshotId then
    match ← attempt (flush sha256 root work.builder) with
    | .error e => finishOrFail run e work.stats
    | .ok builder =>
      if ← runActive run snapshotId then
        let items := directories.map (·.batchItem) ++ work.pending.map (·.batchItem builder)
        let stats := work.stats.processed work.pending
        match ← attempt (sql (.catalog (.createItems snapshotId items))) with
        | .error _ => finishOrFail run (.text "backup catalog write failed") stats
        | .ok _ =>
          if ← runActive run snapshotId then publish sha256 run snapshotId stats else pure ()
      else pure ()
  else pure ()

def previousCatalog : Act (List CatalogItem) := do
  match ← sql (.catalog .latestValidSnapshot) with
  | none => return []
  | some snapshotId => sql (.catalog (.fileCatalog snapshotId))

def transfer (job : Job) (run : RunClaim) (scanned : Scanned) : Act Unit := do
  let stats : RunStats := {
    totalFiles := scanned.files.length, totalDirs := scanned.directories.length
    totalBytes := (scanned.files.map (·.size)).sum }
  match ← attempt (ask .writerSlot) with
  | .error e => finishOrFail run e stats
  | .ok _ =>
    match ← attempt (sql (.run (.transition run.generation run.runId .scanning .running))) with
    | .ok true =>
      let run := { run with state := .running }
      match ← attempt (sql (.run (.createDraft run.runId job.selectedPaths))) with
      | .error _ => fail run "BACKUP_CATALOG_FAILED"
      | .ok snapshotId =>
        match ← attempt previousCatalog with
        | .error _ => fail run "BACKUP_CATALOG_FAILED"
        | .ok catalog =>
          match ← backupFiles sha256 job.repositoryRoot run snapshotId catalog scanned.files
              { stats := stats } with
          | none => pure ()
          | some work => writeCatalog sha256 job.repositoryRoot run snapshotId scanned.directories work
    | _ => fail run "BACKUP_TRANSITION_FAILED"

def execute (job : Job) (claimed : Run) : Act Unit := do
  let run : RunClaim := ⟨claimed.generation, claimed.id, claimed.state⟩
  if ¬ job.filesSupported ∨ job.selectedPaths.isEmpty then fail run "BACKUP_FILES_UNSUPPORTED"
  else
    match ← prepare job with
    | .error code => fail run code
    | .ok excludedRoot =>
      match ← attempt (ask (.scan job.selectedPaths excludedRoot)) with
      | .error e => finishOrFail run e {}
      | .ok scanned => transfer sha256 job run scanned

end Clumoove
