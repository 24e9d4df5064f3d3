import Clumoove.Lib.PathTree
import Clumoove.Spec.Transfer.Names

/-! What a sync job is, what its two providers hold, and the rows of `sync_state` it keeps about
them. Paths are lists of names; a path relative to a side's root stands for what `cleanRelPath`
returns. Times are in microseconds, the resolution of the database. -/

namespace Clumoove.Sync

open PathTree

abbrev Path := List String

instance lawfulPath : LawfulBEq Path := inferInstance

inductive Side
  | source
  | target
  deriving DecidableEq

def Side.other : Side → Side
  | .source => .target
  | .target => .source

structure Sided (α : Type) where
  source : α
  target : α
  deriving DecidableEq

namespace Sided

variable {α : Type}

def on (x : Sided α) : Side → α
  | .source => x.source
  | .target => x.target

def mk' (f : Side → α) : Sided α := ⟨f .source, f .target⟩

def update (x : Sided α) (s : Side) (a : α) : Sided α :=
  match s with
  | .source => { x with source := a }
  | .target => { x with target := a }

@[simp] theorem on_mk' (f : Side → α) (s : Side) : (mk' f).on s = f s := by cases s <;> rfl

theorem on_update (x : Sided α) (s s' : Side) (a : α) :
    (x.update s a).on s' = if s' = s then a else x.on s' := by
  cases s <;> cases s' <;> rfl

end Sided

inductive Direction
  | oneWay
  | twoWay
  deriving DecidableEq

/-- The column `conflict_strategy`; a value that is none of the three is read back, too. -/
inductive ConflictStrategy
  | overwrite
  | skip
  | rename
  | unsupported
  deriving DecidableEq

structure Job where
  direction : Direction
  selectedPaths : List Path := []
  targetDir : Path := []
  conflictStrategy : ConflictStrategy
  deletePropagation : Bool
  providers : Sided Transfer.Provider := ⟨.webdav, .webdav⟩
  deriving DecidableEq

variable (job : Job)

def Job.base : Side → Path
  | .source => []
  | .target => job.targetDir

def Job.startPaths : Side → List Path
  | .source => if job.selectedPaths = [] then [[]] else job.selectedPaths
  | .target => [job.targetDir]

/-- `getTargetAbsPath`: the provider's path for a relative one. -/
def absPath (base rel : Path) : Path := base ++ rel

/-- `getSourceRelPath`: a path outside of the base stays as it is. -/
def relPath (base path : Path) : Path :=
  if base <+: path then path.drop base.length else path

/-- A file at a provider: its bytes, and what a listing reports of it besides their number. No
time stands for Go's zero time. -/
structure File where
  content : List UInt8
  lastModified : Option ℕ := none
  hash : String := ""
  etag : String := ""
  deriving DecidableEq

/-- What a provider holds. A directory has an ETag, empty if the provider has none for it. -/
abbrev Tree := PathTree.Tree String File String

def fileAt (trees : Sided Tree) (s : Side) (p : Path) : Option File :=
  (trees.on s).file (absPath (job.base s) p)

def dirAt (trees : Sided Tree) (s : Side) (p : Path) : Bool :=
  (trees.on s).isDir (absPath (job.base s) p)

/-- `fileState`. -/
structure FileState where
  size : ℤ
  lastModified : Option ℕ
  hash : String
  etag : String
  deriving DecidableEq

def File.state (f : File) : FileState :=
  { size := f.content.length, lastModified := f.lastModified, hash := f.hash, etag := f.etag }

/-- A row of `sync_state`. The size of a directory's row is -1; the column `etag` is NULL where
the text is empty. -/
structure Row where
  size : ℤ
  mtime : Option ℕ := none
  sourceHash : String := ""
  targetHash : String := ""
  etag : String := ""
  deriving DecidableEq

def Row.isDir (r : Row) : Bool := r.size = -1

def Row.hash (r : Row) : Side → String
  | .source => r.sourceHash
  | .target => r.targetHash

def FileState.row (fs : FileState) : Side → Row
  | .source =>
    { size := fs.size, mtime := fs.lastModified, sourceHash := fs.hash, etag := fs.etag }
  | .target =>
    { size := fs.size, mtime := fs.lastModified, targetHash := fs.hash, etag := fs.etag }

def dirRow (etag : String) : Row := { size := -1, etag := etag }

def Row.state (r : Row) (s : Side) : FileState :=
  { size := r.size, lastModified := r.mtime, hash := r.hash s, etag := r.etag }

abbrev Baseline := Sided (GoMap Path Row)

def prevFiles (rows : GoMap Path Row) : GoMap Path Row :=
  GoMap.collect rows.keys fun p => (rows.get p).filter fun r => !r.isDir

/-- The rows of directories: `prevSourceDirs` are the keys, `prevSourceDirETags` the values. -/
def prevDirETags (rows : GoMap Path Row) : GoMap Path String :=
  GoMap.collect rows.keys fun p => ((rows.get p).filter Row.isDir).map Row.etag

structure State where
  trees : Sided Tree
  rows : Baseline

/-! What counts as a change. -/

def parseHashString (hashStr : String) : String × String :=
  let s := hashStr.toList
  let quoted : Bool := s.head? = some '"' ∨ s.getLast? = some '"'
  if quoted ∧ (s.length < 2 ∨ s.head? ≠ some '"' ∨ s.getLast? ≠ some '"') then
    ("UNKNOWN", hashStr)
  else
    let s := if quoted then s.tail.dropLast else s
    let algo := s.takeWhile (· ≠ ':')
    match s.dropWhile (· ≠ ':') with
    | [] => ("UNKNOWN", String.ofList s)
    | _ :: value =>
      let algo := String.ofList (algo.map Char.toUpper)
      let algo :=
        if algo = "SHA-256" then "SHA256" else if algo = "SHA-1" then "SHA1"
        else if algo = "MD-5" then "MD5" else if algo = "QUICKXORHASH" then "QUICKXOR" else algo
      (algo, String.ofList (if algo = "QUICKXOR" then value else value.map Char.toLower))

def cleanHash (hash : String) : String := (parseHashString hash).2

def trimETag (etag : String) : String :=
  String.ofList (((etag.toList.dropWhile (· = '"')).reverse.dropWhile (· = '"')).reverse)

/-- Two times differ by two seconds or more, where both are known. -/
def timesDiffer : Option ℕ → Option ℕ → Bool
  | some a, some b => 2000000 ≤ (if a ≤ b then b - a else a - b)
  | _, _ => false

/-- The hash of a row that `isFileModified` compares with. Older rows of the target have theirs
in the column of the source. -/
def Row.modifiedHash (r : Row) : Side → String
  | .source => r.sourceHash
  | .target => if r.targetHash = "" then r.sourceHash else r.targetHash

def isFileModified (curr : FileState) (prev : Row) (s : Side) : Bool :=
  if curr.size ≠ prev.size then true
  else if cleanHash curr.hash ≠ "" ∧ cleanHash (prev.modifiedHash s) ≠ "" ∧ curr.hash ≠ "" ∧
      prev.modifiedHash s ≠ "" then
    cleanHash curr.hash ≠ cleanHash (prev.modifiedHash s)
  else if curr.etag ≠ "" ∧ prev.etag ≠ "" ∧ trimETag curr.etag ≠ "" ∧ trimETag prev.etag ≠ "" then
    trimETag curr.etag ≠ trimETag prev.etag
  else timesDiffer curr.lastModified prev.mtime

def isFileMatchingTarget (src tgt : FileState) : Bool :=
  if src.size ≠ tgt.size then false
  else if src.hash ≠ "" ∧ tgt.hash ≠ "" ∧ cleanHash src.hash ≠ "" ∧ cleanHash tgt.hash ≠ "" then
    cleanHash src.hash = cleanHash tgt.hash
  else !timesDiffer src.lastModified tgt.lastModified

end Clumoove.Sync
