import Clumoove.Spec.Sync.Listing

/-! The delta of a pass: which tasks it creates for the files and directories of the two listings
and the baseline, and which directories it will try to remove once the tasks are done. -/

namespace Clumoove.Sync

inductive Action
  | upload
  | download
  | delete
  | mkdir
  | conflictCopy
  deriving DecidableEq

/-- `taskToCreate`. An upload or download has no side. A prerequisite is always the
`conflict_copy` that the same step of the loop creates for the same path. -/
structure TaskToCreate where
  filePath : Path
  fileSize : ℤ := 0
  sourceHash : String := ""
  action : Action
  side : Option Side := none
  prerequisite : Bool := false
  deriving DecidableEq

def TaskToCreate.dest (t : TaskToCreate) : Side :=
  match t.action with
  | .upload => .target
  | .download => .source
  | .delete | .mkdir => t.side.getD .target
  | .conflictCopy => .target

structure CleanupCandidate where
  relPath : Path
  side : Side
  deriving DecidableEq

structure Entry where
  src : Option FileState
  tgt : Option FileState
  pSrc : Option Row
  pTgt : Option Row
  deriving DecidableEq

namespace Entry

variable (e : Entry)

def inSyncDirectMatch : Bool :=
  match e.src, e.tgt with
  | some src, some tgt => isFileMatchingTarget src tgt
  | _, _ => false

def modified (curr : Option FileState) (prev : Option Row) (s : Side) : Bool :=
  match curr with
  | none => false
  | some curr =>
    if e.inSyncDirectMatch then false
    else
      match prev with
      | some prev => isFileModified curr prev s
      | none => true

def srcModified : Bool := e.modified e.src e.pSrc .source

def tgtModified : Bool := e.modified e.tgt e.pTgt .target

def srcDeleted : Bool := e.src.isNone && e.pSrc.isSome

def tgtDeleted : Bool := e.tgt.isNone && e.pTgt.isSome

end Entry

variable (S : Path)

def uploadTask (src : FileState) (prerequisite : Bool) : TaskToCreate :=
  { filePath := S, fileSize := src.size, sourceHash := src.hash, action := .upload,
    prerequisite := prerequisite }

def downloadTask (tgt : FileState) : TaskToCreate :=
  { filePath := S, fileSize := tgt.size, sourceHash := tgt.hash, action := .download }

def deleteTask (side : Side) : TaskToCreate :=
  { filePath := S, action := .delete, side := some side }

def conflictCopyTask : TaskToCreate :=
  { filePath := S, action := .conflictCopy, side := some .target }

def mkdirTask (side : Side) : TaskToCreate :=
  { filePath := S, action := .mkdir, side := some side }

def conflictTasks (strategy : ConflictStrategy) (S : Path) (src : FileState) : List TaskToCreate :=
  match strategy with
  | .overwrite => [uploadTask S src false]
  | .skip => []
  | .rename => [conflictCopyTask S, uploadTask S src true]
  | .unsupported => []

variable (job : Job)

def oneWayTasks (S : Path) (e : Entry) : List TaskToCreate :=
  if e.src.isSome && (e.srcModified || e.tgt.isNone) then
    e.src.toList.map (uploadTask S · false)
  else if e.src.isNone && e.pSrc.isSome then
    if job.deletePropagation && e.tgt.isSome then [deleteTask S .target] else []
  else []

def twoWayTasks (S : Path) (e : Entry) : List TaskToCreate :=
  if e.src.isSome && e.tgt.isSome && e.inSyncDirectMatch then []
  else if e.src.isSome && e.srcModified && e.tgt.isSome && e.tgtModified then
    e.src.toList.flatMap (conflictTasks job.conflictStrategy S)
  else if e.src.isSome && (e.srcModified || (e.tgt.isNone && !e.tgtDeleted)) then
    e.src.toList.map (uploadTask S · false)
  else if e.tgt.isSome && (e.tgtModified || (e.src.isNone && !e.srcDeleted)) then
    e.tgt.toList.map (downloadTask S)
  else if e.srcDeleted && (e.tgt.isNone || !e.tgtModified) then
    if job.deletePropagation && e.tgt.isSome then [deleteTask S .target] else []
  else if e.tgtDeleted && (e.src.isNone || !e.srcModified) then
    if job.deletePropagation && e.src.isSome then [deleteTask S .source] else []
  else []

/-- One step of the loop over `allKeys`. -/
def fileTasks (S : Path) (e : Entry) : List TaskToCreate :=
  match job.direction with
  | .oneWay => oneWayTasks job S e
  | .twoWay => twoWayTasks job S e

/-- `calculateDirectoryDelta`, the tasks. -/
def mkdirTasks (direction : Direction) (dirs prevDirs : Sided (List Path)) : List TaskToCreate :=
  (dirs.source.filter fun p => p ≠ [] ∧ p ∉ dirs.target ∧
      (direction = .oneWay ∨ p ∉ prevDirs.target)).map (mkdirTask · .target) ++
    (dirs.target.filter fun p => direction = .twoWay ∧ p ≠ [] ∧ p ∉ dirs.source ∧
      p ∉ prevDirs.source).map (mkdirTask · .source)

/-- `calculateDirectoryDelta`, the directories to clean up. -/
def cleanupCandidates (direction : Direction) (deletePropagation : Bool)
    (dirs prevDirs : Sided (List Path)) : List CleanupCandidate :=
  if deletePropagation then
    match direction with
    | .twoWay =>
      (dirs.source.filter fun p => p ≠ [] ∧ p ∉ dirs.target ∧ p ∈ prevDirs.target).map
          (⟨·, .source⟩) ++
        (dirs.target.filter fun p => p ≠ [] ∧ p ∉ dirs.source ∧ p ∈ prevDirs.source).map
          (⟨·, .target⟩)
    | .oneWay =>
      (prevDirs.source.filter fun p => p ≠ [] ∧ p ∉ dirs.source ∧ p ∈ dirs.target).map
        (⟨·, .target⟩)
  else []

structure Plan where
  scans : Sided Scan
  tasks : List TaskToCreate
  cleanup : List CleanupCandidate

variable (scans : Sided Scan) (rows : Baseline)

def entry (S : Path) : Entry where
  src := scans.source.files.get S
  tgt := scans.target.files.get S
  pSrc := (prevFiles rows.source).get S
  pTgt := (prevFiles rows.target).get S

def allKeys : List Path :=
  (scans.source.files.keys ++ scans.target.files.keys ++ (prevFiles rows.source).keys ++
    (prevFiles rows.target).keys).dedup

def prevDirs : Sided (List Path) :=
  ⟨(prevDirETags rows.source).keys, (prevDirETags rows.target).keys⟩

/-- The tasks and candidates for given listings. The conflict copies come first. -/
def delta : Plan :=
  let files := (allKeys scans rows).flatMap fun S => fileTasks job S (entry scans rows S)
  let dirs : Sided (List Path) := ⟨scans.source.dirs.dedup, scans.target.dirs.dedup⟩
  { scans := scans
    tasks := files.filter (·.action = .conflictCopy) ++ files.filter (·.action ≠ .conflictCopy) ++
      mkdirTasks job.direction dirs (prevDirs rows)
    cleanup := cleanupCandidates job.direction job.deletePropagation dirs (prevDirs rows) }

end Clumoove.Sync
