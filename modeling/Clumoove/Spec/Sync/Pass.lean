import Clumoove.Spec.Sync.Delta
import Mathlib.Data.List.Sort
import Mathlib.Data.String.Basic

/-! One pass of `runSyncPass`: the listings, the tasks carried out by the workers, the
reconciliation of the listings with what the tasks did, the removal of empty directories and the
new baseline. -/

namespace Clumoove.Sync

open PathTree

structure Written where
  lastModified : Option ℕ := none
  hash : String := ""
  etag : String := ""
  deriving DecidableEq

def Written.file (w : Written) (content : List UInt8) : File :=
  { content := content, lastModified := w.lastModified, hash := w.hash, etag := w.etag }

/-- How a task ends. `clock` is what the worker puts into a name it makes up: its time in that of a
conflict copy, the first characters of the task's id in that of a backup. A task that fails, is
skipped or cancelled may have come any way before: it leaves the destination as it was, or as any
other tree. -/
inductive Outcome
  | completes (w : Written) (clock : String)
  | fails (leaves : Option Tree)

abbrev Sanitizer := Side → String → String

/-- The name of a conflict copy: `base.conflict-20060102150405.ext`. -/
def conflictName (base clock : String) : String :=
  let name := base.toList
  let ext :=
    if '.' ∈ name then '.' :: (name.reverse.takeWhile (· ≠ '.')).reverse else []
  String.ofList (name.take (name.length - ext.length) ++ ".conflict-".toList ++ clock.toList ++ ext)

def withSuffix (path : Path) (suffix : String) : Path :=
  path.dropLast ++ [path.getLast?.getD "" ++ suffix]

def uploadPath (path : Path) : Path := withSuffix path ".tmp"

def backupPath (path : Path) (id : String) : Path := withSuffix path (".bak-" ++ id)

/-- `promoteOverwrite`: what is at the path becomes the backup, over an older one, the upload takes
its place, and the backup is deleted. A directory can be backed up like a file; with what is in it
it is not deleted everywhere. -/
def promoteOverwrite (provider : Transfer.Provider) (path : Path) (id : String) (tree : Tree) :
    Option Tree :=
  (tree.file (uploadPath path)).bind fun f =>
    if tree.isDir path ∧ provider.deletesTrees = false then none
    else
      let preserved := if (tree.get path).isSome then (tree.prune (backupPath path id)).prune path
        else tree
      (preserved.prune (uploadPath path)).put path f

def transfer (provider : Transfer.Provider) (src dst : Tree) (srcPath dstPath : Path) (w : Written)
    (id : String) : Option Tree :=
  (src.file srcPath).bind fun f =>
    (dst.mkdirs "" dstPath.dropLast).bind fun dst =>
      if provider.supportsAtomicRename then
        (dst.put (uploadPath dstPath) (w.file f.content)).bind (promoteOverwrite provider dstPath id)
      else dst.put dstPath (w.file f.content)

/-- Move the file of the target out of the way. The clock makes the name a new one. -/
def conflictCopy (tree : Tree) (path : Path) (w : Written) (clock : String) : Option Tree :=
  (tree.file path).bind fun f =>
    let newPath := path.dropLast ++ [conflictName (path.getLast?.getD "") clock]
    if (tree.get newPath).isSome then none
    else (tree.remove path).bind fun tree => tree.put newPath (w.file f.content)

def mkdirPath (sanitize : Sanitizer) (s : Side) (p : Path) : Path :=
  p.dropLast ++ (p.getLast?.toList.map (sanitize s))

variable (job : Job)

/-- What `processSyncTask` does at the providers, if it can. -/
def perform (sanitize : Sanitizer) (t : TaskToCreate) (w : Written) (clock : String)
    (trees : Sided Tree) : Option (Sided Tree) :=
  let s := t.dest
  let provider := job.providers.on s
  let path := absPath (job.base s) t.filePath
  let other := absPath (job.base s.other) t.filePath
  Option.map (trees.update s) <|
    match t.action with
    | .upload | .download => transfer provider (trees.on s.other) (trees.on s) other path w clock
    | .delete => if ((trees.on s).file path).isSome then (trees.on s).remove path else none
    | .mkdir =>
      if provider.createsDirectories then (trees.on s).mkdirs "" (mkdirPath sanitize s path)
      else some (trees.on s)
    | .conflictCopy => conflictCopy (trees.on s) path w clock

/-- The providers while the tasks of a pass run, and the tasks that ended so far with whether
they completed. -/
structure Execution where
  trees : Sided Tree
  done : List (TaskToCreate × Bool) := []

def Execution.completed (x : Execution) (t : TaskToCreate) : Bool := (t, true) ∈ x.done

def runTask (sanitize : Sanitizer) (x : Execution) (run : TaskToCreate × Outcome) : Execution :=
  let t := run.1
  if t.prerequisite && !x.completed (conflictCopyTask t.filePath) then
    { x with done := x.done ++ [(t, false)] }
  else
    match run.2 with
    | .fails leaves =>
      { trees := leaves.elim x.trees (x.trees.update t.dest), done := x.done ++ [(t, false)] }
    | .completes w clock =>
      match perform job sanitize t w clock x.trees with
      | some trees => { trees := trees, done := x.done ++ [(t, true)] }
      | none => { x with done := x.done ++ [(t, false)] }

def runTasks (sanitize : Sanitizer) (trees : Sided Tree) (runs : List (TaskToCreate × Outcome)) : Execution :=
  runs.foldl (runTask job sanitize) { trees := trees }

/-- `readFinalTaskOutcomes`. -/
def completedOperations (done : List (TaskToCreate × Bool)) : List TaskToCreate :=
  (done.filter (·.2)).map (·.1)

def finalProtectedPaths (done : List (TaskToCreate × Bool)) : List Path :=
  (done.filter (!·.2)).map (·.1.filePath)

/-- `invalidateParentDirectoryETags`. -/
def Scan.invalidate (p : Path) (scan : Scan) : Scan :=
  { scan with etags := scan.etags.filter fun e => e.1 ∉ p.dropLast.inits }

structure Snapshot where
  scans : Sided Scan
  protectedPaths : List Path

def Snapshot.update (m : Snapshot) (s : Side) (scan : Scan) : Snapshot :=
  { m with scans := m.scans.update s scan }

/-- One step of `reconcileSuccessfulOperations`; `inspects` says whether the provider answers the
question for a destination's metadata. -/
def reconcileOperation (trees : Sided Tree) (inspects : Path → Bool) (m : Snapshot)
    (op : TaskToCreate) : Snapshot :=
  let p := op.filePath
  let s := op.dest
  let scan := m.scans.on s
  if p ∈ m.protectedPaths then m
  else
    match op.action with
    | .upload | .download =>
      match if inspects p then (trees.on s).file (absPath (job.base s) p) else none with
      | none => { m with protectedPaths := p :: m.protectedPaths }
      | some f => m.update s (Scan.invalidate p { scan with files := scan.files.set p f.state })
    | .delete =>
      m.update s <| Scan.invalidate p
        { files := scan.files.erase p, dirs := scan.dirs.filter (· ≠ p),
          etags := scan.etags.erase p }
    | .mkdir =>
      m.update s <| Scan.invalidate p
        { scan with dirs := p :: scan.dirs, etags := scan.etags.erase p }
    | .conflictCopy => m.update s (Scan.invalidate p scan)

def reconcileSuccessfulOperations (trees : Sided Tree) (inspects : Path → Bool)
    (m : Snapshot) (ops : List TaskToCreate) : Snapshot :=
  ops.foldl (reconcileOperation job trees inspects) m

/-- `invalidateProtectedPathDirectoryETags`. -/
def invalidateProtected (m : Snapshot) : Snapshot where
  scans := Sided.mk' fun s =>
    m.protectedPaths.foldl (fun scan p => scan.invalidate p) (m.scans.on s)
  protectedPaths := m.protectedPaths

def CleanupCandidate.text (c : CleanupCandidate) : String :=
  String.join (c.relPath.map fun name => "/" ++ name)

/-- Deeper directories come first, then the order of the texts. -/
def CleanupCandidate.before (c d : CleanupCandidate) : Prop :=
  d.relPath.length < c.relPath.length ∨ (c.relPath.length = d.relPath.length ∧ c.text ≤ d.text)

instance (c d : CleanupCandidate) : Decidable (c.before d) := by
  unfold CleanupCandidate.before
  infer_instance

structure Cleanup where
  trees : Sided Tree
  removed : List CleanupCandidate := []

/-- One candidate; `cleans` says whether the provider answers the calls for it. The directory is
listed, and deleted if the listing is empty. -/
def cleanupDirectory (cleans : CleanupCandidate → Bool) (x : Cleanup) (c : CleanupCandidate) : Cleanup :=
  let path := absPath (job.base c.side) c.relPath
  let tree := x.trees.on c.side
  if cleans c then
    match tree.get path with
    | none => { x with removed := x.removed ++ [c] }
    | some (.file _) => x
    | some (.dir _) =>
      if tree.children path ≠ [] then x
      else
        match (job.providers.on c.side).directoryDeletion with
        | .deletes => { trees := x.trees.update c.side (tree.prune path), removed := x.removed ++ [c] }
        | .refuses => x
        | .ignores => { x with removed := x.removed ++ [c] }
  else x

def cleanupEmptyDirectories (cleans : CleanupCandidate → Bool) (trees : Sided Tree)
    (candidates : List CleanupCandidate) : Cleanup :=
  ((candidates.filter (·.relPath ≠ [])).dedup.insertionSort CleanupCandidate.before).foldl
    (cleanupDirectory job cleans) { trees := trees }

/-- `applyDirectoryCleanupResults`. -/
def applyCleanup (scans : Sided Scan) (removed : List CleanupCandidate) : Sided Scan :=
  removed.foldl (fun scans c =>
    let scan := scans.on c.side
    scans.update c.side (Scan.invalidate c.relPath
      { scan with dirs := scan.dirs.filter (· ≠ c.relPath), etags := scan.etags.erase c.relPath }))
    scans

/-- The rows `syncStateChanges` wants for a side: files first, then directories with their ETags,
then those without. -/
def upserts (s : Side) (scan : Scan) (paths protectedPaths : List Path) : List (Path × Row) :=
  (paths.filterMap fun p =>
      if p ∈ protectedPaths then none else (scan.files.get p).map fun fs => (p, fs.row s)) ++
    (scan.etags.keys.filterMap fun p =>
      ((scan.etags.get p).filter (· ≠ "")).map fun etag => (p, dirRow etag)) ++
    (scan.dirs.filter fun p => scan.etags.get p = none).map fun p => (p, dirRow "")

/-- The rows it wants gone: files that are not listed, and directories that are not any more. -/
def deletes (scan : Scan) (paths protectedPaths prevDirs : List Path) : List Path :=
  (paths.filter fun p => p ∉ protectedPaths ∧ scan.files.get p = none) ++
    prevDirs.filter fun p => p ∉ scan.dirs ∧ scan.etags.get p = none

/-- `bulkUpsertSyncStatesTx`: the deletes come after the upserts. -/
def writeRows (rows : GoMap Path Row) (upserts : List (Path × Row)) (deletes : List Path) :
    GoMap Path Row :=
  deletes.foldl GoMap.erase (upserts.foldl (fun rows u => rows.set u.1 u.2) rows)

def newBaseline (rows : Baseline) (m : Snapshot) : Baseline :=
  let paths := allKeys m.scans rows
  Sided.mk' fun s => writeRows (rows.on s) (upserts s (m.scans.on s) paths m.protectedPaths)
    (deletes (m.scans.on s) paths m.protectedPaths ((prevDirs rows).on s))

/-- Everything about a pass that the program does not decide. -/
structure Course where
  order : Sided (ℕ → ℕ) := ⟨id, id⟩
  faults : Sided (List Path) := ⟨[], []⟩
  runs : List (TaskToCreate × Outcome) := []
  inspects : Path → Bool := fun _ => true
  cleans : CleanupCandidate → Bool := fun _ => true
  /-- The baseline is written; a pass that is interrupted leaves it as it was. -/
  commits : Bool := true

section

variable (job : Job) (sanitize : Sanitizer) (course : Course) (st : State)

def traversal (s : Side) : Traversal :=
  listFiles (storedCache (job.base s) s (st.rows.on s))
    { tree := st.trees.on s, faults := course.faults.on s } (course.order.on s) (job.startPaths s)

def listings : Sided Scan :=
  Sided.mk' fun s => (traversal job course st s).scan.relative (job.base s)

def plan : Option Plan :=
  if (traversal job course st .source).indexErrors = [] ∧
      (traversal job course st .target).indexErrors = [] then
    some (delta job (listings job course st) st.rows)
  else none

def afterTasks : Execution := runTasks job sanitize st.trees course.runs

def reconciled (plan : Plan) : Snapshot :=
  let x := afterTasks job sanitize course st
  reconcileSuccessfulOperations job x.trees course.inspects
    { scans := plan.scans, protectedPaths := finalProtectedPaths x.done }
    (completedOperations x.done)

def afterCleanup (plan : Plan) : Cleanup :=
  cleanupEmptyDirectories job course.cleans (afterTasks job sanitize course st).trees plan.cleanup

def finalSnapshot (plan : Plan) : Snapshot :=
  let m := invalidateProtected (reconciled job sanitize course st plan)
  { m with scans := applyCleanup m.scans (afterCleanup job sanitize course st plan).removed }

/-- A pass whose listings are complete, from its delta to its end. A pass without tasks differs
only in that there is nothing to wait for and to reconcile. -/
def finishPass (plan : Plan) : State where
  trees := (afterCleanup job sanitize course st plan).trees
  rows :=
    if course.commits then newBaseline st.rows (finalSnapshot job sanitize course st plan)
    else st.rows

def runSyncPass : State :=
  match plan job course st with
  | none => st
  | some plan => finishPass job sanitize course st plan

/-- The runs of a course are runs of exactly the pass's tasks, in any order. -/
def Course.Fits (plan : Plan) : Prop := (course.runs.map Prod.fst).Perm plan.tasks

end

end Clumoove.Sync
