import Clumoove.Spec.Sync.State

/-! `listFiles`: the traversal of a provider's tree that skips a directory whose ETag is the
stored one and takes the stored rows below it instead. -/

namespace Clumoove.Sync

open PathTree

structure Scan where
  files : GoMap Path FileState := []
  dirs : List Path := []
  etags : GoMap Path String := []
  deriving DecidableEq

structure Cache where
  etags : GoMap Path String := []
  files : GoMap Path FileState := []

/-- A provider while it is listed; inspecting or listing one of the paths in `faults` fails. -/
structure Provider where
  tree : Tree
  faults : List Path := []

/-- The state of the traversal's coordinator. -/
structure Traversal where
  scan : Scan := {}
  indexErrors : List Path := []
  visited : List Path := []
  pending : List Path := []

def Scan.addFile (p : Path) (fs : FileState) (scan : Scan) : Scan :=
  { scan with files := scan.files.set p fs }

def Scan.addDir (p : Path) (scan : Scan) : Scan := { scan with dirs := p :: scan.dirs }

def Scan.addDirETag (p : Path) (etag : String) (scan : Scan) : Scan :=
  if etag = "" then scan else { scan with etags := scan.etags.set p etag }

def Scan.removeDir (p : Path) (scan : Scan) : Scan :=
  { scan with dirs := scan.dirs.filter (· ≠ p), etags := scan.etags.erase p }

def copyFile (cache : Cache) (dirPath : Path) (scan : Scan) (p : Path) : Scan :=
  match cache.files.get p with
  | some fs => if dirPath <+: p then scan.addFile p fs else scan
  | none => scan

def copyDir (cache : Cache) (dirPath : Path) (scan : Scan) (p : Path) : Scan :=
  match cache.etags.get p with
  | some etag => if dirPath <+: p then (scan.addDir p).addDirETag p etag else scan
  | none => scan

def copyPreviousSubtree (cache : Cache) (dirPath : Path) (scan : Scan) : Scan :=
  cache.etags.keys.foldl (copyDir cache dirPath) (cache.files.keys.foldl (copyFile cache dirPath) scan)

def enqueueDir (cache : Cache) (dirPath : Path) (etag : String) (t : Traversal) : Traversal :=
  if dirPath ∈ t.visited then t
  else
    let t := { t with visited := dirPath :: t.visited }
    if etag ≠ "" ∧ cache.etags.get dirPath = some etag then
      { t with scan := copyPreviousSubtree cache dirPath t.scan }
    else { t with pending := t.pending ++ [dirPath] }

def meetDir (cache : Cache) (p : Path) (etag : String) (t : Traversal) : Traversal :=
  enqueueDir cache p etag { t with scan := (t.scan.addDirETag p etag).addDir p }

def meet (cache : Cache) (tree : Tree) (t : Traversal) (p : Path) : Traversal :=
  match tree.get p with
  | some (.dir etag) => meetDir cache p etag t
  | some (.file f) => { t with scan := t.scan.addFile p f.state }
  | none => t

def inspectStart (cache : Cache) (provider : Provider) (t : Traversal) (p : Path) : Traversal :=
  if p ∈ provider.faults then { t with indexErrors := p :: t.indexErrors }
  else meet cache provider.tree t p

def takeResult (cache : Cache) (provider : Provider) (i : ℕ) (t : Traversal) : Traversal :=
  match t.pending[i % t.pending.length]? with
  | none => t
  | some p =>
    let t := { t with pending := t.pending.eraseIdx (i % t.pending.length) }
    if p ∈ provider.faults then
      { t with scan := t.scan.removeDir p, indexErrors := p :: t.indexErrors }
    else (provider.tree.children p).foldl (meet cache provider.tree) t

/-- The loop over the pending directories. The listings come back from the worker pool in any
order; `order` says which one comes next. -/
def drain (cache : Cache) (provider : Provider) (order : ℕ → ℕ) : ℕ → Traversal → Traversal
  | 0, t => t
  | n + 1, t => drain cache provider order n (takeResult cache provider (order n) t)

/-- `listFiles`. No directory is listed twice, so the tree's size bounds the loop. -/
def listFiles (cache : Cache) (provider : Provider) (order : ℕ → ℕ) (startPaths : List Path) :
    Traversal :=
  drain cache provider order provider.tree.nodes.length
    (startPaths.foldl (inspectStart cache provider) {})

/-- What a pass hands to `listFiles` of a side's rows: they are relative to the side's base, the
traversal is not. -/
def storedCache (base : Path) (s : Side) (rows : GoMap Path Row) : Cache where
  etags := (prevDirETags rows).map fun e => (absPath base e.1, e.2)
  files := (prevFiles rows).map fun e => (absPath base e.1, e.2.state s)

def Scan.relative (base : Path) (scan : Scan) : Scan where
  files := scan.files.map fun e => (relPath base e.1, e.2)
  dirs := scan.dirs.map (relPath base)
  etags := scan.etags.map fun e => (relPath base e.1, e.2)

end Clumoove.Sync
