import Clumoove.Lib.Prog
import Clumoove.Spec.Sync.Delta
import Clumoove.Spec.Transfer.Names

/-! A worker's way through one task of a migration or of a sync pass, as a program of calls to the
two providers, to the table of tasks and to the locks of the process. Progress reports, hashes,
time stamps of files and the limits of bandwidth are left out: no decision here depends on them. -/

namespace Clumoove.Transfer

open GoPath Prog Sync

abbrev Content := List UInt8

/-- How the worker tells errors apart. -/
inductive Fault
  /-- `isWebDAVSystemConflict` -/
  | systemConflict
  | nativeDuplicate
  | duplicateUID
  | other
  deriving DecidableEq

inductive Call
  /-- Reads the task, sets up the providers and marks the task RUNNING; returns
  `resolved_target_path`, empty if there is none. -/
  | prepare
  /-- Whether the source object lies in OneDrive's Personal Vault. -/
  | inVault
  | createDirectory (side : Side) (path : Text)
  | createParentDirectories (side : Side) (path : Text)
  | getDirectoryListing (side : Side) (dirPath : Text)
  | lockTargetFile (targetPath : Text)
  /-- The size of the object, if there is one. -/
  | fileExists (side : Side) (path : Text)
  | deleteFile (side : Side) (path : Text)
  | renameFile (side : Side) (oldPath newPath : Text)
  | streamDownload (side : Side) (path : Text)
  | streamUpload (side : Side) (path : Text) (content : Content)
  | updateResolvedTargetPath (targetPath : Text)
  | updateMetadata
  | now
  | skip
  | complete
  deriving DecidableEq

abbrev Call.Val : Call → Type
  | .prepare => Text
  | .inVault => Bool
  | .getDirectoryListing _ _ => List Resource
  | .fileExists _ _ => Option ℕ
  | .streamDownload _ _ => Content
  | .now => ℕ
  | _ => Unit

abbrev Work := Fallible Call Call.Val Fault

def call (c : Call) : Work c.Val := perform c

def only (c : Prop) [Decidable c] (x : Work Unit) : Work Unit := if c then x else pure ()

structure Migration where
  targetDir : Text
  sourceProvider : Provider
  targetProvider : Provider
  conflictStrategy : Sync.ConflictStrategy
  pickerSessionID : Text := []
  deriving DecidableEq

/-- A UUID as text: no provider's cleaning alters it. -/
structure TaskID where
  text : Text
  plain : ∀ c ∈ text, c ≠ '/' ∧ c ≠ '\\' ∧ isSpace c = false
  deriving DecidableEq

structure Task where
  id : TaskID
  resourceType : ResourceType := .files
  filePath : Text
  fileSize : ℕ := 0
  /-- Nothing if it cannot be parsed. -/
  metadata : Option Metadata := some {}
  deriving DecidableEq

def isSystemOrAppGeneratedCollection (lib : GoLib) (name : Text) : Bool :=
  let nameLower := lib.toLower (lib.trimSpace name)
  (["app-generated--", "z-server-generated--", "z-app-generated--"].any fun p =>
    p.toList.isPrefixOf nameLower) ||
  ["contact_birthdays", "contact-birthdays", "contact_birthdays.ics", "birthdays", "inbox", "outbox",
    "notifications", "notification-inbox", "trashbin", "trash"].any fun s => s.toList = nameLower

/-- The slashes at both ends do not make a collection's name. -/
def isSystemOrAppGeneratedPath (lib : GoLib) (p : Text) : Bool :=
  ((p.dropWhile (· = '/')).reverse.dropWhile (· = '/')).reverse.splitOn '/'
    |>.any (isSystemOrAppGeneratedCollection lib)

/-- A result, unless the provider refuses it for reasons of its own: then the task is skipped. -/
def orSkip {α : Type} (x : Work α) : Work (Option α) := do
  match ← attempt x with
  | .ok a => pure (some a)
  | .error .systemConflict => do
    call .skip
    pure none
  | .error e => throw e

def verifyTargetSize (side : Side) (path : Text) : ℕ → Work (Option ℕ)
  | 0 => call (.fileExists side path)
  | n + 1 => do
    match ← attempt (call (.fileExists side path)) with
    | .ok found => pure found
    | .error _ => verifyTargetSize side path n

def cleanupStagingUpload (side : Side) (uploadPath : Text) : Work Unit := do
  let _ ← attempt (call (.deleteFile side uploadPath))
  pure ()

def clearBackup (side : Side) (backupPath : Text) : Work Unit := do
  let found ← call (.fileExists side backupPath)
  only found.isSome (call (.deleteFile side backupPath))

/-- `promoteOverwrite`, up to the promotion: whether the old target is now the backup. -/
def preserveTarget (side : Side) (targetPath backupPath : Text) : Work Bool := do
  match ← call (.fileExists side targetPath) with
  | none => pure false
  | some _ => do
    clearBackup side backupPath
    call (.renameFile side targetPath backupPath)
    pure true

/-- The old target comes back. Whether that works or not, the promotion has failed. -/
def rollBack (side : Side) (targetPath backupPath : Text) : Work Unit := do
  let _ ← attempt (call (.renameFile side backupPath targetPath))
  pure ()

def promoteOverwrite (side : Side) (targetPath uploadPath backupPath : Text) : Work Unit := do
  let originalBackedUp ← preserveTarget side targetPath backupPath
  match ← attempt (call (.renameFile side uploadPath targetPath)) with
  | .error e => do
    cleanupStagingUpload side uploadPath
    only originalBackedUp (rollBack side targetPath backupPath)
    throw e
  | .ok () => only originalBackedUp (call (.deleteFile side backupPath))

/-- One transfer: where its bytes come from, where they go, and under which names on the way. -/
structure Route where
  source : Side
  sourcePath : Text
  target : Side
  targetPath : Text
  uploadPath : Text
  backupPath : Text
  resourceType : ResourceType
  fileSize : ℕ
  deriving DecidableEq

def Route.staged (route : Route) : Bool := route.uploadPath ≠ route.targetPath

/-- The reader ends at the declared size, and the transfer fails if the source does not end there. -/
def Route.upload (route : Route) (content : Content) : Work Unit := do
  call (.streamUpload route.target route.uploadPath (content.take route.fileSize))
  only (content.length ≠ route.fileSize) (throw .other)

def Route.verify (route : Route) : Work Unit := do
  let found ← verifyTargetSize route.target route.targetPath 2
  only (found ≠ some route.fileSize) (throw .other)

/-- The promotion of a staged upload, and the check of what is then under the target path. -/
def Route.settle (route : Route) : Work Unit := do
  only route.staged
    (promoteOverwrite route.target route.targetPath route.uploadPath route.backupPath)
  only (route.resourceType = .files) route.verify

def runTransferCore (route : Route) : Work Unit := do
  let content ← call (.streamDownload route.source route.sourcePath)
  route.upload content
  route.settle

section Migration

variable (lib : GoLib) (mig : Migration) (task : Task) (provider : Provider)

/-- The name after `SanitizeFilename` on its last element. -/
def sanitizedTarget (targetPath : Text) : Text :=
  let result := sanitizeFilename lib (base targetPath) provider
  if result.changed then join [dir targetPath, result.sanitizedName] else targetPath

/-- The name after the check for collisions in case; a listing that fails is none. -/
def avoidCaseCollision (targetPath : Text) : Work Text := do
  if mig.targetProvider.isCaseInsensitive then
    match ← attempt (call (.getDirectoryListing .target (dir targetPath))) with
    | .error _ => pure targetPath
    | .ok listing =>
      match checkCaseCollision lib listing (base targetPath) with
      | none => pure targetPath
      | some _ =>
        let listing ← call (.getDirectoryListing .target (dir targetPath))
        match resolveCollision lib mig.targetProvider listing (base targetPath) with
        | none => throw .other
        | some name => pure (join [dir targetPath, name])
  else pure targetPath

def renameTarget (targetPath : Text) : List ℕ → Work (Option Text)
  | [] => throw .other
  | counter :: rest => do
    match ← orSkip (call (.fileExists .target (renameCandidate targetPath counter))) with
    | none => pure none
    | some none => pure (some (renameCandidate targetPath counter))
    | some (some _) => renameTarget targetPath rest

/-- What happens to an existing target; nothing if the task was skipped. -/
def resolveConflict (targetPath : Text) : Work (Option Text) := do
  match ← orSkip (call (.fileExists .target targetPath)) with
  | none => pure none
  | some none => pure (some targetPath)
  | some (some _) =>
    if task.resourceType ≠ .files then
      match ← orSkip (call (.deleteFile .target targetPath)) with
      | none => pure none
      | some _ => pure (some targetPath)
    else
      match mig.conflictStrategy with
      | .skip => do
        call .skip
        pure none
      | .rename => renameTarget targetPath (List.range' 1 100)
      | _ => pure (some targetPath)

/-- Calendars and contacts keep their path. -/
def Task.target (metadata : Metadata) : Text :=
  resolveTargetPath lib task.resourceType task.filePath metadata mig.targetDir mig.sourceProvider
    mig.targetProvider

/-- `deleteAfterUpload`: whether an existing target is replaced without asking. -/
def Task.overwrites (persisted : Bool) : Bool :=
  !persisted && !mig.targetProvider.nativeDuplicates && task.resourceType = .files &&
    mig.conflictStrategy = .overwrite

variable (resolved targetPath : Text)

/-- The name a first attempt gives; later ones keep it, and Immich has names of its own. -/
def firstName : Work Text :=
  if task.resourceType = .files ∧ resolved = [] ∧ mig.targetProvider ≠ .immich then
    avoidCaseCollision lib mig (sanitizedTarget lib mig.targetProvider targetPath)
  else pure targetPath

/-- The path an attempt writes to, its parents made; nothing if the task was skipped. -/
def chooseTarget : Work (Option Text) := do
  let targetPath ← firstName lib mig task resolved targetPath
  only (task.resourceType = .files) (call (.createParentDirectories .target targetPath))
  only (mig.conflictStrategy = .unsupported) (throw .other)
  if resolved ≠ [] ∨ mig.targetProvider.nativeDuplicates ∨ task.overwrites mig (resolved ≠ []) then
    pure (some targetPath)
  else resolveConflict mig task targetPath

def Task.route (persisted : Bool) (targetPath : Text) : Route where
  source := .source
  sourcePath := task.filePath
  target := .target
  targetPath
  uploadPath := if task.overwrites mig persisted ∧ mig.targetProvider.supportsAtomicRename then
    stagingPath targetPath else targetPath
  backupPath := overwriteBackupPath targetPath task.id.text
  resourceType := task.resourceType
  fileSize := task.fileSize

def finishTransfer : Work Unit := do
  only (mig.targetProvider = .immich) (call .updateMetadata)
  only (fileManagerTransferOperation mig.pickerSessionID = "move".toList ∧
    task.resourceType = .files) (call (.deleteFile .source task.filePath))
  call .complete

/-- The transfer to the chosen path, which is stored first. -/
def writeTarget : Work Unit := do
  only (task.resourceType = .files ∧ resolved = []) (call (.updateResolvedTargetPath targetPath))
  match ← attempt (runTransferCore (task.route mig (resolved ≠ []) targetPath)) with
  | .ok () => finishTransfer mig task
  | .error .other => throw .other
  | .error _ => call .skip

variable (resolved : Text)

def transferFile (metadata : Metadata) : Work Unit := do
  let targetPath := if task.resourceType = .files ∧ resolved ≠ [] then resolved
    else task.target lib mig metadata
  call (.lockTargetFile targetPath)
  match ← chooseTarget lib mig task resolved targetPath with
  | none => pure ()
  | some targetPath => writeTarget mig task resolved targetPath

/-- A file in the way of a directory, by a listing that may fail. -/
def directoryCollision (side : Side) (path : Text) : Work (Option Text) := do
  if provider.isCaseInsensitive then
    match ← attempt (call (.getDirectoryListing side (dir path))) with
    | .error _ => pure none
    | .ok listing => pure (checkCaseCollision lib listing (base path))
  else pure none

def createDirectory (side : Side) (path : Text) : Work Unit := do
  call (.createDirectory side path)
  call .complete

def makeDirectory (side : Side) (path : Text) : Work Unit := do
  match ← directoryCollision lib provider side path with
  | some _ => call .skip
  | none => createDirectory side path

/-- The Personal Vault is asked for when files come from OneDrive. -/
def inPersonalVault : Work Bool :=
  if mig.sourceProvider = .onedrive ∧ task.resourceType = .files then do
    match ← attempt (call .inVault) with
    | .ok inside => pure inside
    | .error _ => pure false
  else pure false

def processAdmitted : Work Unit :=
  match task.metadata with
  | none => throw .other
  | some metadata =>
    if metadata.mkdir ∨ task.filePath.getLast? = some '/' then
      if task.resourceType = .files then
        makeDirectory lib mig.targetProvider .target (task.target lib mig metadata)
      else createDirectory .target (task.target lib mig metadata)
    else transferFile lib mig task resolved metadata

/-- The rest of an attempt, once it knows the path an earlier one has stored. -/
def processPrepared : Work Unit :=
  if task.resourceType ≠ .files ∧ isSystemOrAppGeneratedPath lib task.filePath then call .skip
  else do
    let vault ← inPersonalVault mig task
    if vault then call .skip else processAdmitted lib mig task resolved

def processTask : Work Unit := do
  let resolved ← call .prepare
  processPrepared lib mig task resolved

end Migration

section SyncJob

structure SyncJob where
  targetDir : Text
  sourceProvider : Provider
  targetProvider : Provider
  deriving DecidableEq

structure SyncTask extends Task where
  action : Action
  side : Side := .target
  deriving DecidableEq

variable (lib : GoLib) (job : SyncJob) (task : SyncTask)

def SyncJob.path (side : Side) (filePath : Text) : Text :=
  match side with
  | .source => filePath
  | .target => clean (join [job.targetDir, filePath])

def SyncJob.provider : Side → Provider
  | .source => job.sourceProvider
  | .target => job.targetProvider

def SyncTask.dest : Side := if task.action = .download then .source else .target

def SyncTask.route : Route :=
  let targetPath := job.path task.dest task.filePath
  { source := task.dest.other
    sourcePath := job.path task.dest.other task.filePath
    target := task.dest
    targetPath
    uploadPath := if (job.provider task.dest).supportsAtomicRename then stagingPath targetPath
      else targetPath
    backupPath := overwriteBackupPath targetPath task.id.text
    resourceType := task.resourceType
    fileSize := task.fileSize }

/-- A sync task removes a staged upload that failed. -/
def Route.uploadOrCleanUp (route : Route) (content : Content) : Work Unit := do
  match ← attempt (route.upload content) with
  | .ok () => pure ()
  | .error e => do
    only route.staged (cleanupStagingUpload route.target route.uploadPath)
    throw e

def syncTransfer (route : Route) : Work Unit := do
  call (.createParentDirectories route.target route.targetPath)
  let content ← call (.streamDownload route.source route.sourcePath)
  route.uploadOrCleanUp content
  route.settle
  call .complete

def syncDelete (side : Side) (path : Text) : Work Unit := do
  call (.deleteFile side path)
  call .complete

def syncConflictCopy (targetPath : Text) : Work Unit := do
  let time ← call .now
  call (.renameFile .target targetPath (conflictPath targetPath time))
  call .complete

def syncAction : Work Unit :=
  match task.action with
  | .mkdir => makeDirectory lib (job.provider task.side) task.side
      (sanitizedTarget lib (job.provider task.side) (job.path task.side task.filePath))
  | .delete => syncDelete task.side (job.path task.side task.filePath)
  | .conflictCopy => syncConflictCopy (job.path .target task.filePath)
  | .upload | .download => syncTransfer (task.route job)

def processSyncTask : Work Unit := do
  let _ ← call .prepare
  syncAction lib job task

end SyncJob

end Clumoove.Transfer
