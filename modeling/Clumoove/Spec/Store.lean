import Clumoove.Lib.GoPath
import Clumoove.Lib.Prog
import Clumoove.Spec.Sql

/-! The world a worker acts on: the catalogue and the objects of the backup target. Every call
of a worker to the database, to the target or to anything else outside its own memory is one
operation. An operation succeeds, fails without an effect, or has its effect while the worker
sees an error. -/

namespace Clumoove

open Bytes

def safeRemotePath (value : Path) : Except String Unit :=
  if value.all GoPath.isSpace ∨ value.contains '\\' then .error "invalid backup repository path"
  else if ['.', '.'] ∈ value.splitOn '/' then .error "backup path escapes repository"
  else .ok ()

def repositoryPath (root : Path) (parts : List Path) : Except String Path := do
  safeRemotePath root
  let joined := GoPath.join (root :: parts)
  safeRemotePath joined
  return joined

def packsDir : Path := ['p', 'a', 'c', 'k', 's']

def packName (id : Digest) : Path := hex id.val ++ ['.', 'p', 'a', 'c', 'k']

def packPath (root : Path) (id : Digest) : Except String Path :=
  repositoryPath root [packsDir, packName id]

def formatName : Path := ['f', 'o', 'r', 'm', 'a', 't', '-', 'v', '1', '.', 'j', 's', 'o', 'n']

inductive Err
  | db (e : DbErr)
  | pack (e : PackErr)
  | eof
  | unexpectedEOF
  | network
  | cancelled
  | verifyMoreWork
  | text (message : String)
deriving DecidableEq

/-- How a stream ends after its bytes: a reader fails instead of reaching the end. -/
inductive Ending
  | eof
  | failed (e : Err)
deriving DecidableEq

structure Stream where
  bytes : List UInt8
  ending : Ending := .eof
deriving DecidableEq

/-- The read errors of `ValidatePack`; they wrap what the reader reported. -/
def PackErr.isRead : PackErr → Bool
  | .readPrefix _ | .readEntryOrFooter _ | .readBlockHash _ | .readBlockLength _
  | .readBlockPayload _ | .readFooter _ => true
  | _ => false

/-- `ValidatePack` over a stream that may break off. A stream that breaks off after a whole pack
fails at the look for trailing data. -/
def validateStream (sha256 : List UInt8 → Digest) {σ : Type}
    (callback : σ → ℕ → Entry → Except String σ) (stream : Stream) (expectedID : Digest)
    (init : σ) : Except Err (Pack × σ) :=
  match validatePack sha256 callback stream.bytes expectedID init, stream.ending with
  | .ok r, .eof => .ok r
  | .ok _, .failed e => .error e
  | .error e, .eof => .error (.pack e)
  | .error e, .failed f => .error (if e.isRead then f else .pack e)

/-- `isRetryableVerifyReadError`: end-of-stream and network errors, also wrapped. -/
def isRetryableVerifyReadError : Err → Bool
  | .eof | .unexpectedEOF | .network => true
  | .pack e => e.isRead
  | _ => false

/-- `storage.CloudResource`. -/
structure Resource where
  path : Path
  isDir : Bool
  size : ℕ
  lastModified : ℕ
deriving DecidableEq

structure ScannedFile where
  sourcePath : Path
  relativePath : Path
  size : ℕ
  mtime : ℕ
deriving DecidableEq

structure ScannedDirectory where
  relativePath : Path
  mtime : ℕ
deriving DecidableEq

/-- What `scanFiles` found below the selected paths. -/
structure Scanned where
  files : List ScannedFile
  directories : List ScannedDirectory

/-- Questions whose answer neither the catalogue nor the target's objects determine. -/
inductive External
  | providers
  | connectSource
  | connectTarget
  | sameConnection
  | listing (path : Path)
  | scan (selected : List Path) (excludedRoot : Path)
  | writerSlot
  | readerSlot
  | context
  | inspectSource (path : Path)
  | downloadSource (path : Path)
  | createParents (path : Path)
  | sampleStart (packs : ℕ)
  | pastDeadline

@[reducible] def External.Val : External → Type
  | .connectSource | .connectTarget | .sameConnection | .pastDeadline => Bool
  | .listing _ => List Resource
  | .scan .. => Scanned
  | .inspectSource _ => Resource
  | .downloadSource _ => Stream
  | .sampleStart _ => ℕ
  | .providers | .writerSlot | .readerSlot | .context | .createParents _ => Unit

inductive Op
  | sql (q : SqlOp)
  | fileExists (path : Path)
  | streamUpload (path : Path) (content : List UInt8)
  | streamDownload (path : Path)
  | deleteFile (path : Path)
  | ask (x : External)
  /-- A loop that outlives its fuel stops here; the operation never returns. -/
  | halt

@[reducible] def Op.Val : Op → Type
  | .sql q => q.Val
  | .fileExists _ => Bool × ℕ
  | .streamUpload .. | .deleteFile _ => Unit
  | .streamDownload _ => Stream
  | .ask x => x.Val
  | .halt => Empty

abbrev Op.Res (op : Op) : Type := Except Err op.Val

abbrev Act : Type → Type := Prog.Fallible Op Op.Val Err

/-- The catalogue, the objects of the target, and a record of every content the target ever
held. -/
structure World where
  db : Db
  remote : Path → Option (List UInt8) := fun _ => none
  written : List (List UInt8) := []

def World.store (w : World) (path : Path) (content : List UInt8) : World :=
  { w with remote := Function.update w.remote path (some content), written := w.written ++ [content] }

/-- The answers of the source, the clock and everything else outside the world. -/
abbrev Host := (x : External) → Except Err x.Val

/-- The effect and the answer of an operation that nothing disturbs. -/
def carryOut (host : Host) : (op : Op) → World → op.Res × World
  | .sql q, w =>
    match q.tx w.db with
    | .ok (v, db) => (.ok v, { w with db := db })
    | .error e => (.error (.db e), w)
  | .fileExists path, w =>
    match w.remote path with
    | some content => (.ok (true, content.length), w)
    | none => (.ok (false, 0), w)
  | .streamUpload path content, w => (.ok (), w.store path content)
  | .streamDownload path, w =>
    match w.remote path with
    | some content => (.ok { bytes := content }, w)
    | none => (.error (.text "object not found"), w)
  | .deleteFile path, w =>
    match w.remote path with
    | some _ => (.ok (), { w with remote := Function.update w.remote path none })
    | none => (.error (.text "object not found"), w)
  | .ask x, w => (host x, w)
  | .halt, w => (.error .cancelled, w)

inductive Outcome
  | done
  | fault
  /-- The effect stays, the answer is lost. -/
  | lost
  /-- An upload that breaks off leaves part of the object. -/
  | truncated
  /-- A download that breaks off. -/
  | broken
deriving DecidableEq

/-- The ways an operation may end. -/
inductive Exec : (op : Op) → World → Outcome → op.Res → World → Prop
  | done (host : Host) (op : Op) (w : World) (h : op ≠ .halt) :
      Exec op w .done (carryOut host op w).1 (carryOut host op w).2
  | fault (op : Op) (w : World) (e : Err) (h : op ≠ .halt) : Exec op w .fault (.error e) w
  | lost (host : Host) (op : Op) (w : World) (e : Err) (h : op ≠ .halt) :
      Exec op w .lost (.error e) (carryOut host op w).2
  | truncated (path : Path) (content : List UInt8) (w : World) (kept : ℕ) (e : Err) :
      Exec (.streamUpload path content) w .truncated (.error e) (w.store path (content.take kept))
  | broken (path : Path) (content : List UInt8) (w : World) (kept : ℕ) (e : Err)
      (h : w.remote path = some content) :
      Exec (.streamDownload path) w .broken (.ok ⟨content.take kept, .failed e⟩) w

end Clumoove
