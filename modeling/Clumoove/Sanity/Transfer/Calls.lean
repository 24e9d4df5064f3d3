import Clumoove.Sanity.Transfer.Programs

/-! Every call an attempt may come to make, said once. What a task can do to the accounts is then a
matter of going through these. -/

namespace Clumoove.Transfer

open Prog Sync

variable {lib : GoLib} {path : Text}

/-- The calls of a transfer. All but the upload are about staging. -/
inductive Route.Makes (route : Route) : Call → Prop
  | asks {c : Call} : c.isQuery = true → Makes route c
  | complete : Makes route .complete
  | parents : Makes route (.createParentDirectories route.target route.targetPath)
  | upload (content : Content) : Makes route (.streamUpload route.target route.uploadPath content)
  | discard : route.staged = true → Makes route (.deleteFile route.target route.uploadPath)
  | preserve : route.staged = true →
      Makes route (.renameFile route.target route.targetPath route.backupPath)
  | promote : route.staged = true →
      Makes route (.renameFile route.target route.uploadPath route.targetPath)
  | restore : route.staged = true →
      Makes route (.renameFile route.target route.backupPath route.targetPath)
  | clear : route.staged = true → Makes route (.deleteFile route.target route.backupPath)

section Route

variable {route : Route}

theorem Route.makes_of_asks {α : Type} {x : Work α} (h : Asks x) : Within route.Makes x :=
  h.mono fun _ => .asks

theorem Route.Makes.fileExists : route.Makes (.fileExists side path) := .asks rfl

attribute [local simp] within_iff call only cleanupStagingUpload Route.Makes.fileExists
  Route.Makes.upload

theorem makes_cleanup (h : route.staged = true) :
    Within route.Makes (cleanupStagingUpload route.target route.uploadPath) := by
  simp [Route.Makes.discard h]

theorem makes_promoteOverwrite (h : route.staged = true) :
    Within route.Makes (promoteOverwrite route.target route.targetPath route.uploadPath
      route.backupPath) := by
  simp [promoteOverwrite, preserveTarget, clearBackup, rollBack, Option.forall,
    Route.Makes.discard h, Route.Makes.preserve h, Route.Makes.promote h, Route.Makes.restore h,
    Route.Makes.clear h]

theorem makes_upload (content : Content) : Within route.Makes (route.upload content) := by
  simp [Route.upload]

theorem makes_settle : Within route.Makes route.settle :=
  Within.bind (within_only makes_promoteOverwrite) fun _ =>
    within_only fun _ => Route.makes_of_asks (asks_of_silent silent_verify)

theorem makes_runTransferCore : Within route.Makes (runTransferCore route) :=
  Within.bind (Within.perform (.asks rfl)) fun content =>
    Within.bind (makes_upload content) fun _ => makes_settle

theorem makes_syncTransfer : Within route.Makes (syncTransfer route) := by
  refine Within.bind (Within.perform .parents) fun _ => ?_
  refine Within.bind (Within.perform (.asks rfl)) fun content => ?_
  have hupload : Within route.Makes (route.uploadOrCleanUp content) := by
    refine Within.bind (Within.attempt (makes_upload content)) fun r => ?_
    cases r with
    | ok _ => exact Within.pure _
    | error e => exact Within.bind (within_only makes_cleanup) fun _ => Within.throw _
  refine Within.bind hupload fun _ => ?_
  exact Within.bind makes_settle fun _ => Within.perform .complete

end Route

def Task.isDirectory (task : Task) (metadata : Metadata) : Bool :=
  metadata.mkdir || task.filePath.getLast? = some '/'

def Task.targets (lib : GoLib) (mig : Migration) (task : Task) : List Text :=
  match task.metadata with
  | none => []
  | some metadata =>
    if task.isDirectory metadata then []
    else if task.resourceType = .files then finalNames lib mig (task.target lib mig metadata)
    else [task.target lib mig metadata]

def Task.choices (lib : GoLib) (mig : Migration) (task : Task) (stored : Text) : List Text :=
  if task.resourceType = .files ∧ stored ≠ [] then [stored] else task.targets lib mig

def Migration.moves (mig : Migration) : Bool :=
  fileManagerTransferOperation mig.pickerSessionID = "move".toList

/-- The calls of an attempt that finds a path stored, or none. -/
inductive Job.Makes (lib : GoLib) : Job → Text → Call → Prop
  | asks {job : Job} {stored : Text} {c : Call} : c.isQuery = true → Makes lib job stored c
  | complete {job : Job} {stored : Text} : Makes lib job stored .complete
  | directory {mig : Migration} {task : Task} {metadata : Metadata} {stored : Text} :
      task.metadata = some metadata → task.isDirectory metadata = true →
      Makes lib (.migration mig task) stored
        (.createDirectory .target (task.target lib mig metadata))
  | parents {mig : Migration} {task : Task} {stored p : Text} : p ∈ task.choices lib mig stored →
      Makes lib (.migration mig task) stored (.createParentDirectories .target p)
  | delete {mig : Migration} {task : Task} {stored p : Text} : task.resourceType ≠ .files →
      p ∈ task.choices lib mig stored → Makes lib (.migration mig task) stored (.deleteFile .target p)
  | store {mig : Migration} {task : Task} {p : Text} : task.resourceType = .files →
      p ∈ task.targets lib mig → Makes lib (.migration mig task) [] (.updateResolvedTargetPath p)
  | transfer {mig : Migration} {task : Task} {stored p : Text} {c : Call} :
      p ∈ task.choices lib mig stored → (task.route mig (stored ≠ []) p).Makes c →
      Makes lib (.migration mig task) stored c
  | move {mig : Migration} {task : Task} {stored : Text} : mig.moves = true →
      task.resourceType = .files →
      Makes lib (.migration mig task) stored (.deleteFile .source task.filePath)
  | syncDirectory {job : SyncJob} {task : SyncTask} {stored : Text} : task.action = .mkdir →
      Makes lib (.sync job task) stored (.createDirectory task.side
        (sanitizedTarget lib (job.provider task.side) (job.path task.side task.filePath)))
  | syncDelete {job : SyncJob} {task : SyncTask} {stored : Text} : task.action = .delete →
      Makes lib (.sync job task) stored (.deleteFile task.side (job.path task.side task.filePath))
  | conflictCopy {job : SyncJob} {task : SyncTask} {stored : Text} (time : ℕ) :
      task.action = .conflictCopy →
      Makes lib (.sync job task) stored (.renameFile .target (job.path .target task.filePath)
        (conflictPath (job.path .target task.filePath) time))
  | syncTransfer {job : SyncJob} {task : SyncTask} {stored : Text} {c : Call} :
      task.action = .upload ∨ task.action = .download → (task.route job).Makes c →
      Makes lib (.sync job task) stored c

theorem Job.makes_of_asks {job : Job} {stored : Text} {α : Type} {x : Work α} (h : Asks x) :
    Within (job.Makes lib stored) x :=
  h.mono fun _ => .asks

section Migration

variable {mig : Migration} {task : Task} {stored : Text}

theorem makes_writeTarget (h : path ∈ task.choices lib mig stored) :
    Within ((Job.migration mig task).Makes lib stored) (writeTarget mig task stored path) := by
  refine Within.bind (within_only fun hfirst => ?_) fun _ => ?_
  · obtain ⟨hfiles, rfl⟩ := hfirst
    refine Within.perform (.store hfiles ?_)
    simpa [Task.choices] using h
  · refine Within.bind (Within.attempt (makes_runTransferCore.mono fun _ => .transfer h)) fun r => ?_
    cases r with
    | ok _ =>
      refine Within.bind (within_only fun _ => Within.perform (.asks rfl)) fun _ => ?_
      refine Within.bind (within_only fun hmove => ?_) fun _ => Within.perform .complete
      exact Within.perform (.move (decide_eq_true hmove.1) hmove.2)
    | error e =>
      cases e with
      | other => exact Within.throw _
      | systemConflict | nativeDuplicate | duplicateUID => exact Within.perform (.asks rfl)

section

variable (hfiles : task.resourceType ≠ .files) (hpath : path ∈ task.choices lib mig stored)
include hfiles hpath

theorem gives_resolveConflict_other :
    Gives ((Job.migration mig task).Makes lib stored) (fun o => ∀ p, o = some p → p = path)
      (resolveConflict mig task path).run := by
  have hkeep : Gives ((Job.migration mig task).Makes lib stored)
      (fun o => ∀ p, o = some p → p = path) (pure (some path) : Work (Option Text)).run :=
    Gives.pure fun p hp => (Option.some.inj hp).symm
  have hnone : Gives ((Job.migration mig task).Makes lib stored)
      (fun o => ∀ p, o = some p → p = path) (pure none : Work (Option Text)).run :=
    Gives.pure nofun
  refine Within.gives_bind (Job.makes_of_asks (asks_orSkip (asks_call rfl))) fun found => ?_
  cases found with
  | none => exact hnone
  | some found =>
    cases found with
    | none => exact hkeep
    | some _ =>
      simp only [ne_eq, hfiles, not_false_eq_true, if_true]
      have hdelete : Within ((Job.migration mig task).Makes lib stored)
          (orSkip (call (.deleteFile .target path))) :=
        within_orSkip (.asks rfl) (Within.perform (.delete hfiles hpath))
      refine Within.gives_bind hdelete fun deleted => ?_
      cases deleted with
      | none => exact hnone
      | some _ => exact hkeep

theorem gives_chooseTarget_other :
    Gives ((Job.migration mig task).Makes lib stored) (fun o => ∀ p, o = some p → p = path)
      (chooseTarget lib mig task stored path).run := by
  have hname : firstName lib mig task stored path = pure path := by
    simp [firstName, hfiles]
  unfold chooseTarget
  rw [hname]
  refine Gives.bind (Q := fun p => p = path) (Gives.pure rfl) fun p hp => ?_
  subst hp
  refine Within.gives_bind (within_only fun h => absurd h hfiles) fun _ => ?_
  refine Within.gives_bind (within_only fun _ => Within.throw _) fun _ => ?_
  split_ifs
  · exact Gives.pure fun q hq => (Option.some.inj hq).symm
  · exact gives_resolveConflict_other hfiles hpath

end

theorem gives_writeTarget : (∀ p, o = some p → p ∈ task.choices lib mig stored) →
      Gives ((Job.migration mig task).Makes lib stored) (fun _ => True) (match o with
        | none => pure ()
        | some p => writeTarget mig task stored p : Work Unit).run := by
  intro ho
  cases o with
  | none => exact Gives.pure trivial
  | some p => exact (makes_writeTarget (ho p rfl)).gives

theorem makes_transferFile (hmeta : task.metadata = some metadata)
    (hdir : task.isDirectory metadata = false) : Within ((Job.migration mig task).Makes lib stored)
      (transferFile lib mig task stored metadata) := by
  refine Within.bind (Within.perform (.asks rfl)) fun _ => Gives.within (Q := fun _ => True) ?_
  by_cases hfiles : task.resourceType = .files
  · have hchoice : ∀ p, Choosable lib mig stored (if task.resourceType = .files ∧ stored ≠ [] then
        stored else task.target lib mig metadata) p → p ∈ task.choices lib mig stored := by
      rintro p (⟨hne, rfl⟩ | ⟨rfl, hp⟩)
      · simp [Task.choices, hfiles, hne]
      · simpa [Task.choices, Task.targets, hmeta, hdir, hfiles] using hp
    refine Gives.bind (Gives.mono ?_ (fun _ h => h) (gives_chooseTarget hfiles)) fun o ho =>
      gives_writeTarget fun p hp => hchoice p (ho p hp)
    rintro c (hc | ⟨p, hp, rfl⟩)
    · exact .asks hc
    · exact .parents (hchoice p hp)
  · have hpath : task.target lib mig metadata ∈ task.choices lib mig stored := by
      simp [Task.choices, Task.targets, hmeta, hdir, hfiles]
    simp only [hfiles, false_and, if_false]
    refine Gives.bind (gives_chooseTarget_other hfiles hpath) fun o ho => gives_writeTarget fun p hp => ?_
    rw [ho p hp]
    exact hpath

theorem makes_processPrepared :
    Within ((Job.migration mig task).Makes lib stored) (processPrepared lib mig task stored) := by
  have hadmitted :
      Within ((Job.migration mig task).Makes lib stored) (processAdmitted lib mig task stored) := by
    unfold processAdmitted
    split
    · exact Within.throw _
    · rename_i metadata hmeta
      split_ifs with hdir hfiles
      · exact within_makeDirectory (fun _ => .asks) .complete
          (.directory hmeta (by simpa [Task.isDirectory] using hdir))
      · refine Within.bind (Within.perform (.directory hmeta ?_)) fun _ => Within.perform .complete
        simpa [Task.isDirectory] using hdir
      · exact makes_transferFile hmeta (by simpa [Task.isDirectory] using hdir)
  unfold processPrepared
  split_ifs
  · exact Within.perform (.asks rfl)
  · refine Within.bind (Job.makes_of_asks (asks_of_silent silent_inPersonalVault)) fun vault => ?_
    cases vault with
    | true => exact Within.perform (.asks rfl)
    | false => exact hadmitted

end Migration

theorem makes_syncAction {stored : Text} :
    Within ((Job.sync job task).Makes lib stored) (syncAction lib job task) := by
  unfold syncAction
  split
  · exact within_makeDirectory (fun _ => .asks) .complete (.syncDirectory ‹_›)
  · exact Within.bind (Within.perform (.syncDelete ‹_›)) fun _ => Within.perform .complete
  · refine Within.bind (Within.perform (.asks rfl)) fun time => ?_
    exact Within.bind (Within.perform (.conflictCopy time ‹_›)) fun _ => Within.perform .complete
  · exact makes_syncTransfer.mono fun _ => .syncTransfer (.inl ‹_›)
  · exact makes_syncTransfer.mono fun _ => .syncTransfer (.inr ‹_›)

theorem makes_rest (job : Job) (stored : Text) : Within (job.Makes lib stored) (job.rest lib stored) := by
  cases job with
  | migration mig task => exact makes_processPrepared
  | sync job task => exact makes_syncAction

/-! What a task is about, whichever kind it is. -/

def Job.task : Job → Task
  | .migration _ task => task
  | .sync _ task => task.toTask

def Job.source (a : Accounts) : Job → Location
  | .migration _ task => a.locate .source task.filePath
  | .sync job task => a.locate task.dest.other (job.path task.dest.other task.filePath)

def Job.dest : Job → Side
  | .migration _ _ => .target
  | .sync _ task => task.dest

def Job.targets (lib : GoLib) : Job → List Text
  | .migration mig task => task.targets lib mig
  | .sync job task => [job.path task.dest task.filePath]

def Job.moves : Job → Bool
  | .migration mig _ => mig.moves
  | .sync _ _ => false

end Clumoove.Transfer
