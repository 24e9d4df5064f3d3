import Clumoove.Spec.Queue.Processes

/-! The indexer, and the processes that recover, schedule and clean up. With the workers, the
verifier and the handlers of the API they are the crew of a migration. -/

namespace Clumoove.Queue

open Prog
open Transfer (Text ResourceType)

/-! The selected paths. -/

def isSameOrDescendantPath (candidate parent : Text) : Bool :=
  candidate = parent || parent = ['/'] ||
    ((if parent.getLast? = some '/' then parent.dropLast else parent) ++ ['/']).isPrefixOf candidate

def selectionRoot (path : Text) : Text :=
  let candidate := GoPath.clean path
  if candidate = ['.'] then ['/'] else candidate

/-- A selection is dropped if an earlier one covers it, and drops those it covers. -/
def addSelectedPath (selected : List Text) (path : Text) : List Text :=
  let candidate := selectionRoot path
  let filtered := selected.filter fun existing =>
    isSameOrDescendantPath candidate existing || !isSameOrDescendantPath existing candidate
  if selected.any (isSameOrDescendantPath candidate) then filtered else filtered ++ [candidate]

def deduplicateSelectedPaths (paths : List Text) : List Text := paths.foldl addSelectedPath []

/-- The loop over the selections so far: those that it keeps are written over the front of the array
that it reads. -/
structure Compaction where
  selected : List Text
  filtered : ℕ := 0
  covered : Bool := false

def Compaction.append (c : Compaction) (existing : Text) : Compaction :=
  { c with selected := c.selected.set c.filtered existing, filtered := c.filtered + 1 }

def Compaction.next (candidate : Text) (c : Compaction) (i : ℕ) : Compaction :=
  match c.selected[i]? with
  | none => c
  | some existing =>
    if isSameOrDescendantPath candidate existing then { c.append existing with covered := true }
    else if isSameOrDescendantPath existing candidate then c
    else c.append existing

def compactSelected (selected : List Text) (path : Text) : List Text :=
  let candidate := selectionRoot path
  let c := (List.range selected.length).foldl (Compaction.next candidate) { selected }
  let filtered := c.selected.take c.filtered
  if c.covered then filtered else filtered ++ [candidate]

/-! The traversal. -/

def failMigration (generation : ℕ) (errMsg : String) : MigrationWork Unit :=
  tryCall (.failMigrationWhileIndexingClaim generation errMsg)

/-- A lost claim is a normal hand-off, any other error fails the migration. -/
def indexingStopped (generation : ℕ) (errMsg : String) : DbError → MigrationWork Unit
  | .claimLost => return
  | _ => failMigration generation errMsg

/-- The lease is renewed beside the traversal, which learns of a lost claim only by failing
listings. -/
def renewIndexingLease (generation : ℕ) : ℕ → MigrationWork Unit
  | 0 => return
  | n + 1 => do
    tryCall (.renewMigrationIndexingLease generation indexingLeaseDuration)
    renewIndexingLease generation n

/-- The tasks for resources that have none yet, with the keys of all. -/
def freshTasks (keys : List TaskKey) (found : List Task) : List Task × List TaskKey :=
  found.foldl (fun (fresh, keys) t =>
    if t.key ∈ keys then (fresh, keys) else (fresh ++ [t], t.key :: keys)) ([], keys)

def createBatches (generation : ℕ) : ℕ → List Task → MigrationWork Unit
  | 0, _ => return
  | fuel + 1, ts => do
    if ts = [] then return
    call (.bulkCreateMigrationTasksWhileIndexingClaim generation (ts.take 500))
    createBatches generation fuel (ts.drop 500)

structure Indexed where
  keys : List TaskKey
  errors : List IndexingError := []

def traversed (generation : ℕ) (s : Selection) (done : Indexed) (keys : List TaskKey)
    (errors : List IndexingError) : MigrationWork (Option Indexed) := do
  call (.noteTraversed generation s errors)
  return some { keys, errors := done.errors ++ errors }

def indexFile (generation : ℕ) (s : Selection) (done : Indexed) (t : Task) :
    MigrationWork (Option Indexed) := do
  if t.key ∈ done.keys then traversed generation s done done.keys []
  else
    match ← attempt (call (.createMigrationTaskWhileIndexingClaim t generation)) with
    | .ok _ => traversed generation s done (t.key :: done.keys) []
    | .error e =>
      indexingStopped generation "Unable to create indexing tasks." e
      return none

def indexFolder (generation : ℕ) (s : Selection) (done : Indexed) (found : List Task)
    (errors : List IndexingError) : MigrationWork (Option Indexed) := do
  let (fresh, keys) := freshTasks done.keys found
  match ← attempt (createBatches generation (fresh.length + 1) fresh) with
  | .ok _ => traversed generation s done keys errors
  | .error e =>
    indexingStopped generation "Unable to index selected resources." e
    return none

def indexRoot (generation : ℕ) (s : Selection) (done : Indexed) (root : Option Task)
    (found : List Task) (errors : List IndexingError) : MigrationWork (Option Indexed) := do
  match root with
  | none => indexFolder generation s done found errors
  | some t =>
    if t.key ∈ done.keys then indexFolder generation s done found errors
    else
      match ← attempt (call (.createMigrationTaskWhileIndexingClaim t generation)) with
      | .ok _ => indexFolder generation s { done with keys := t.key :: done.keys } found errors
      | .error e =>
        indexingStopped generation "Unable to create indexing tasks." e
        return none

def indexSelection (generation : ℕ) (s : Selection) (done : Indexed) :
    MigrationWork (Option Indexed) := do
  renewIndexingLease generation (← call .renewals)
  match ← call (.visit s) with
  | .failed errorMessage =>
    traversed generation s done done.keys [⟨s.resourceType, s.path, errorMessage⟩]
  | .ignored => traversed generation s done done.keys []
  | .file t => indexFile generation s done t
  | .folder root found errors => indexRoot generation s done root found errors

def indexSelections (generation : ℕ) :
    List Selection → Indexed → MigrationWork (Option Indexed)
  | [], done => return some done
  | s :: ss, done => do
    match ← indexSelection generation s done with
    | none => return none
    | some done => indexSelections generation ss done

def recordErrors : List IndexingError → MigrationWork Unit
  | [] => return
  | errors => tryCall (.recordIndexingErrors errors)

def finishIndexing (generation : ℕ) (errors : List IndexingError) : MigrationWork Unit := do
  recordErrors errors
  let totals ← attempt do
    let (items, bytes) ← call .migrationTaskTotals
    call (.updateMigrationTotalsWhileIndexingClaim generation items bytes)
    return items
  match totals with
  | .error _ => failMigration generation "Unable to finalize indexing totals."
  | .ok items =>
    if items = 0 ∧ errors ≠ [] then
      failMigration generation "No selected resources could be indexed."
    else if items = 0 then
      match ← attempt (call (.transitionMigrationIndexingToCompletedClaim generation)) with
      | .ok _ => return
      | .error e => indexingStopped generation "Unable to finalize migration." e
    else
      match ← attempt (call (.transitionMigrationIndexingToRunningClaim generation)) with
      | .ok _ => tryCall (.reconcileMigrationProgress none)
      | .error e => indexingStopped generation "Unable to finalize migration." e

def Migration.selections (mig : Migration) : List Selection :=
  (deduplicateSelectedPaths mig.selectedPaths).map (⟨.files, ·⟩) ++
    mig.selectedCalendars.map (⟨.calendars, ·⟩) ++ mig.selectedContacts.map (⟨.contacts, ·⟩)

def indexMigration (mig : Migration) : MigrationWork Unit := do
  let generation := mig.discoveryGeneration
  if let some errMsg ← call .connectSource then
    failMigration generation errMsg
    return
  match ← attempt (call .migrationIndexedTaskKeys) with
  | .error _ => failMigration generation "Unable to resume indexing tasks."
  | .ok keys =>
    match ← indexSelections generation mig.selections { keys } with
    | none => return
    | some done => finishIndexing generation done.errors

def startIndexer : MigrationWork Unit := do
  match ← attempt (call .getMigration) with
  | .error _ => failMigration 0 "Unable to load migration details."
  | .ok mig =>
    if mig.status ≠ .indexing ∨ mig.discoveryComplete then return
    if ← call (.renewMigrationIndexingLease mig.discoveryGeneration indexingLeaseDuration) then
      indexMigration mig

/-! The schedulers. -/

def reconcileActiveMigrations : MigrationWork Unit := do
  let mig ← call .getMigration
  if mig.status ≠ .running then return
  tryCall .maybeRetryFailedMigrationTasks
  tryCall (.reconcileMigrationProgress none)

/-- A migration that waits for its schedule again, and then its schedule. -/
def recoverScheduledMigrations (recoveryMsg : String) : MigrationWork Unit := do
  match ← attempt (call (.recoverScheduledMigrations recoveryMsg)) with
  | .ok true => tryCall (.schedule .reactivateSchedules)
  | _ => return

def recoverOrphanedMigrationIndexing : MigrationWork Unit := do
  recoverScheduledMigrations "Recovered from stale INDEXING (indexer lost)"
  if ← call .isOrphanedImmediate then
    tryCall (.failStaleIndexingMigration "Recovered from stale INDEXING (indexer lost)")

def recoverPausedMigrations : MigrationWork Unit := do
  let mig ← call .getMigration
  if mig.status ≠ .pausedConnectionLoss then return
  -- both sides can be reached
  if ← call .choice then
    let _ ← call .recoverConnectionLostMigration

def repairMissingNotificationEvents : MigrationWork Unit := do
  if ← call .missesNotificationEvent then call .createMigrationNotificationEvent

def isJobActiveStatus (s : MigrationStatus) : Bool :=
  s = .running ∨ s = .indexing ∨ s = .verifying ∨ s = .pausedConnectionLoss

def isMigrationActive : MigrationWork Bool := do
  match ← attempt (call .getMigration) with
  | .ok mig => return isJobActiveStatus mig.status
  | .error .noRows => return false
  | .error e => throw e

/-- The indexer that it starts is a process of its own. -/
def triggerMigration : MigrationWork Triggered := do
  if ← call .claimScheduledMigrationForIndexing then return .ok else return .noRows

def migrationJobs : JobKind MigrationStmt MigrationStmt.Val where
  sql s := call (.schedule s)
  recurs := false
  isJobActive := isMigrationActive
  triggerJob _ := triggerMigration
  nextRunForSchedule s :=
    match s.cronExpression with
    | some cron => call (.nextRun cron)
    | none => throw .noRows

/-! The crew. -/

inductive MigrationRole
  | worker (workerID : String)
  | indexer
  | verifier
  | pause (user : ℕ)
  | resume (user : ℕ)
  | cancel (user : ℕ)
  | retryFailed (user : ℕ)
  | reindex (user : ℕ)
  | reauth (user : ℕ)
  | setThreads (user threads : ℕ)
  | delete (user : ℕ)
  | cancelTransfer (user : ℕ)
  | rotateToken (provider : String)
  | deleteSchedule (id user : ℕ)
  | suspendUser (user : ℕ)
  | reactivateUser (user : ℕ)
  | scheduler
  | recoverIndexing
  | recoverConnection
  | recoverWorker (workerID : String)
  | retryScheduler
  | reconciler
  | repairNotifications
  | recoverTasks
  | retention
  | clock
  deriving DecidableEq

def MigrationRole.program : MigrationRole → MigrationWork Unit
  | worker workerID => runWorker workerID
  | indexer => startIndexer
  | verifier => verifyMigrationChecksums
  | pause user => handlePause user
  | resume user => handleResume user
  | cancel user => handleCancel user
  | retryFailed user => handleRetryFailed user
  | reindex user => handleReindex user
  | reauth user => handleMigrationReauth user
  | setThreads user threads => handleSetThreads user threads
  | delete user => handleDeleteMigration user
  | cancelTransfer user => handleFileTransferCancel user
  | rotateToken provider => rotateOAuthToken provider
  | deleteSchedule id user => handleDeleteSchedule id user
  | suspendUser user => call (.suspendUser user)
  | reactivateUser user => call (.reactivateSchedulesOf user)
  | scheduler => processDueSchedules migrationJobs
  | recoverIndexing => recoverOrphanedMigrationIndexing
  | recoverConnection => recoverPausedMigrations
  | recoverWorker workerID => call (.recoverAbandonedTasks workerID)
  | retryScheduler => call .requeueFailedTasks
  | reconciler => reconcileActiveMigrations
  | repairNotifications => repairMissingNotificationEvents
  | recoverTasks => call .requeueOrphanedRunningTasks
  | retention => call .deleteOldMigrations
  | clock => call .tick

/-- Any number of processes of every kind. A process that stops loses its transaction. -/
def migrationCrew {ι : Type} [DecidableEq ι] (role : ι → MigrationRole) :
    Crew.Parts ι MigrationStmt (fun s => Except DbError s.Val) (MigrationDb ι) Outcome where
  ready _ _ := true
  program i := (role i).program.run >>= fun _ => .ret ()
  exec i := MigrationStmt.exec i
  leave i w := { w with toRows := w.toRows.endTx i }

end Clumoove.Queue
