import Clumoove.Spec.Queue.Schedules

/-! The row of a migration, and the statements and transactions that the API, the workers, the
verifier and the indexer run on it and on its tasks. Each of them takes effect at once or not at
all. -/

namespace Clumoove.Queue

open Table
open Transfer (Text ResourceType)

inductive MigrationStatus
  | scheduled
  | indexing
  | running
  | verifying
  | paused
  | pausedConnectionLoss
  | completed
  | completedWithErrors
  | failed
  | cancelled
  deriving DecidableEq

namespace MigrationStatus

def isActive (s : MigrationStatus) : Bool := s = .running ∨ s = .indexing

def isTerminal (s : MigrationStatus) : Bool :=
  s = .completed ∨ s = .completedWithErrors ∨ s = .failed ∨ s = .cancelled

end MigrationStatus

/-- The statuses whose notification the owner gets. -/
def isTerminalMigrationStatus (s : MigrationStatus) : Bool :=
  s = .completed ∨ s = .completedWithErrors ∨ s = .failed

structure Selection where
  resourceType : ResourceType
  path : Text
  deriving DecidableEq

structure IndexingError where
  resourceType : ResourceType
  path : Text
  errorMessage : String
  deriving DecidableEq

/-- A row of `notification_events`, with what its payload says. -/
structure NotificationEvent where
  userID : Option ℕ
  runGeneration : ℕ
  status : MigrationStatus
  total : ℕ
  processed : ℕ
  failed : ℕ
  skipped : ℕ
  bytes : ℕ
  errorMessage : Option String
  deriving DecidableEq

/-- A row of `migrations`. -/
structure Migration where
  userID : Option ℕ := none
  status : MigrationStatus
  threads : ℕ := 8
  /-- `picker_session_id` carries the marker of the file manager. -/
  fileManager : Bool := false
  selectedPaths : List Text := []
  selectedCalendars : List Text := []
  selectedContacts : List Text := []
  discoveryComplete : Bool := false
  discoveryGeneration : ℕ := 1
  indexingLeaseUntil : Option ℕ := none
  failedRetryDone : Bool := false
  verificationGeneration : ℕ := 0
  verificationLeaseUntil : Option ℕ := none
  totalFiles : ℕ := 0
  totalBytes : ℕ := 0
  processedFiles : ℕ := 0
  processedBytes : ℕ := 0
  liveBytes : ℕ := 0
  verifiedFiles : ℕ := 0
  skippedFiles : ℕ := 0
  failedFiles : ℕ := 0
  errorMessage : Option String := none
  notificationGeneration : ℕ := 0
  updatedAt : ℕ := 0
  deriving DecidableEq

def indexingLeaseDuration : ℕ := 1200

def verificationLease : ℕ := 120

def directoryTaskMetadata : Text := "\x7b\"action\":\"mkdir\"\x7d".toList

structure TaskKey where
  directory : Bool
  resourceType : ResourceType
  path : Text
  deriving DecidableEq

def Task.key (t : Task) : TaskKey := ⟨t.metadata = directoryTaskMetadata, t.resourceType, t.filePath⟩

/-! What the statements read off a row. -/

def bytesOf (status : TaskStatus) (tasks : List Task) : ℕ :=
  ((tasks.filter (·.status = status)).map (·.fileSize)).sum

def countOf (status : TaskStatus) (tasks : List Task) : ℕ := tasks.countP (·.status = status)

structure Progress where
  files : ℕ := 0
  bytes : ℕ := 0
  skipped : ℕ := 0
  failed : ℕ := 0
  liveBytes : ℕ := 0
  deriving DecidableEq

namespace Migration

/-- Back to work: to the transfers if discovery was complete, otherwise to a discovery of the next
generation. -/
def goOn (now : ℕ) (m : Migration) : Migration :=
  if m.discoveryComplete then { m with status := .running, indexingLeaseUntil := none }
  else { m with
    status := .indexing, discoveryGeneration := m.discoveryGeneration + 1
    indexingLeaseUntil := some (now + indexingLeaseDuration) }

def indexedBy (generation : ℕ) (m : Migration) : Bool :=
  m.status = .indexing ∧ (generation = 0 ∨ m.discoveryGeneration = generation)

def indexerLost (now : ℕ) (m : Migration) : Bool :=
  m.status = .indexing ∧ m.indexingLeaseUntil.all (· ≤ now)

def verifiedBy (generation now : ℕ) (m : Migration) : Bool :=
  m.status = .verifying ∧ m.verificationGeneration = generation ∧
    m.verificationLeaseUntil.any (now < ·)

def reconciledStatus (tasks : List Task) (errors : List IndexingError) (m : Migration) :
    MigrationStatus :=
  if m.status = .cancelled ∨ m.status = .paused ∨ m.status = .pausedConnectionLoss ∨
      m.status = .completed ∨ m.status = .completedWithErrors ∨ m.status = .failed then m.status
  else if m.status = .indexing ∧ ¬ m.discoveryComplete then .indexing
  else if tasks.any Task.isOpen then .running
  else if tasks.any Task.isUnverified then .verifying
  else if countOf .failed tasks + countOf .cancelled tasks + errors.length > 0 then
    .completedWithErrors
  else .completed

def leavingGeneration (status : MigrationStatus) (m : Migration) : ℕ :=
  if isTerminalMigrationStatus m.status ∧ ¬ isTerminalMigrationStatus status then
    m.notificationGeneration + 1
  else m.notificationGeneration

def reconciledGeneration (tasks : List Task) (m : Migration) : ℕ :=
  if (m.status = .running ∨ m.status = .verifying) ∧ ¬ tasks.any Task.isOpen ∧
      ¬ tasks.any Task.isUnverified then m.notificationGeneration + 1
  else m.notificationGeneration

def event (m : Migration) : NotificationEvent where
  userID := m.userID
  runGeneration := m.notificationGeneration
  status := m.status
  total := m.totalFiles
  processed := m.processedFiles
  failed := m.failedFiles
  skipped := m.skippedFiles
  bytes := m.processedBytes
  errorMessage := m.errorMessage

/-- The events with the one of this end, if there is none of its generation. -/
def announce (events : List NotificationEvent) (m : Migration) : List NotificationEvent :=
  if isTerminalMigrationStatus m.status ∧ ¬ events.any (·.runGeneration = m.notificationGeneration)
  then m.event :: events
  else events

end Migration

/-- A migration with everything that belongs to it, and what the worker processes remember of lost
connections. -/
structure MigrationDb (ι : Type) extends Rows ι Migration where
  indexingErrors : List IndexingError := []
  notificationEvents : List NotificationEvent := []
  timetable : Timetable := {}
  nextID : ℕ := 0
  connLoss : String → ℕ := fun _ => 0
  connLossTask : String → ℕ → ℕ := fun _ _ => 0
  /-- An observer's record: a generation came to the end of a selection, and the failures it met. -/
  traversed : List (ℕ × Selection × List IndexingError) := []

abbrev MigrationSql (ι α : Type) := MigrationDb ι → Except DbError α × MigrationDb ι

namespace MigrationDb

def update (p : Migration → Bool) (f : Migration → Migration) (w : MigrationDb ι) :
    Bool × MigrationDb ι :=
  match w.parent with
  | some m => if p m then (true, { w with parent := some { f m with updatedAt := w.now } }) else (false, w)
  | none => (false, w)

def updateTasks (p : Task → Bool) (f : Task → Task) (w : MigrationDb ι) : MigrationDb ι :=
  { w with tasks := updateWhere p f w.tasks }

def affecting (x : Bool × MigrationDb ι) : Except DbError Bool × MigrationDb ι := (.ok x.1, x.2)

variable (w : MigrationDb ι)

def createMigrationNotificationEventTx : MigrationDb ι :=
  match w.parent with
  | some m => { w with notificationEvents := m.announce w.notificationEvents }
  | none => w

def announced (x : Bool × MigrationDb ι) : Bool × MigrationDb ι :=
  if x.1 then (true, x.2.createMigrationNotificationEventTx) else x

def required (e : DbError) (x : Bool × MigrationDb ι) : Except DbError Unit × MigrationDb ι :=
  (if x.1 then .ok () else .error e, x.2)

def verifyMigrationOwnership (user : ℕ) : MigrationSql ι Bool := fun w =>
  (.ok (w.parent.any (·.userID = some user)), w)

def getMigration : MigrationSql ι Migration := fun w =>
  match w.parent with
  | some m => (.ok m, w)
  | none => (.error .noRows, w)

def getTask (id : ℕ) : MigrationSql ι Task := fun w =>
  match w.find id with
  | some t => (.ok t, w)
  | none => (.error .noRows, w)

def updateMigrationStatus (status : MigrationStatus) (errMsg : Option String) :
    MigrationSql ι Unit := fun w =>
  let (found, w') := w.update (fun _ => true) fun m => { m with
    status, errorMessage := errMsg, notificationGeneration := m.leavingGeneration status }
  if isTerminalMigrationStatus status then required .noRows (announced (found, w')) else (.ok (), w')

def pauseMigrationForConnectionLoss : MigrationSql ι Bool := fun w =>
  affecting <| w.update (·.status.isActive) fun m =>
    { m with status := .pausedConnectionLoss, indexingLeaseUntil := none, errorMessage := none }

/-- `NOT discovery_complete` of the row that an update has affected. -/
def needsDiscovery : Bool := w.parent.any (¬ ·.discoveryComplete)

def recoverConnectionLostMigration : MigrationSql ι (Bool × Bool) := fun w =>
  let (found, w') := w.update (·.status = .pausedConnectionLoss) (Migration.goOn w.now)
  (.ok (found, found && w.needsDiscovery), w')

def resumeMigration : MigrationSql ι Bool := fun w =>
  let (found, w') := w.update (fun m => m.status = .paused ∨ m.status = .pausedConnectionLoss)
    fun m => { Migration.goOn w.now m with errorMessage := none }
  (.ok (found && w.needsDiscovery), w')

variable (generation : ℕ) (errMsg : String)

def failMigrationWhileIndexingClaim : MigrationSql ι Bool := fun w =>
  affecting <| announced <| w.update (Migration.indexedBy generation) fun m =>
    { m with
      status := .failed, errorMessage := some errMsg, indexingLeaseUntil := none
      notificationGeneration := m.notificationGeneration + 1 }

def failStaleIndexingMigration : MigrationSql ι Bool := fun w =>
  affecting <| announced <| w.update (Migration.indexerLost w.now) fun m =>
    { m with
      status := .failed, errorMessage := some errMsg
      notificationGeneration := m.notificationGeneration + 1 }

def hasSchedule : Bool := w.timetable.schedules ≠ []

def recoverScheduledMigrations : MigrationSql ι Bool := fun w =>
  affecting <| w.update (fun m => Migration.indexerLost w.now m ∧ w.hasSchedule) fun m =>
    { m with status := .scheduled, indexingLeaseUntil := none, errorMessage := some errMsg }

def isOrphanedImmediate : MigrationSql ι Bool := fun w =>
  (.ok (w.parent.any (Migration.indexerLost w.now) && !w.hasSchedule), w)

def claimScheduledMigrationForIndexing : MigrationSql ι Bool := fun w =>
  affecting <| w.update (·.status = .scheduled) fun m =>
    { m with
      status := .indexing, discoveryComplete := false
      discoveryGeneration := m.discoveryGeneration + 1
      indexingLeaseUntil := some (w.now + indexingLeaseDuration), errorMessage := none }

def renewMigrationIndexingLease (generation duration : ℕ) : MigrationSql ι Bool := fun w =>
  affecting <| w.update (fun m => m.status = .indexing ∧ m.discoveryGeneration = generation) fun m =>
    { m with indexingLeaseUntil := some (w.now + duration) }

def transitionMigrationIndexingToRunningClaim : MigrationSql ι Unit := fun w =>
  required .claimLost <| w.update (Migration.indexedBy generation) fun m =>
    { m with
      status := .running, discoveryComplete := true, failedRetryDone := false
      indexingLeaseUntil := none }

def transitionMigrationIndexingToCompletedClaim : MigrationSql ι Unit := fun w =>
  required .claimLost <| announced <| w.update (Migration.indexedBy generation) fun m =>
    { m with
      status := .completed, discoveryComplete := true
      notificationGeneration := m.notificationGeneration + 1 }

/-- Terminally failed tasks go back to the queue once, when no other task is left. -/
def maybeRetryFailedMigrationTasks : MigrationSql ι Bool := fun w =>
  let failed (t : Task) : Bool := t.status = .failed ∧ t.nextRetryAt = none
  let (claimed, w') := w.update (fun m => m.status = .running ∧ ¬ m.failedRetryDone ∧
    w.tasks.any failed ∧ ¬ w.tasks.any Task.isOpen) fun m => { m with failedRetryDone := true }
  if claimed then
    (.ok true, w'.updateTasks failed fun t =>
      { t with
        status := .pending, attempts := 0, nextRetryAt := none, workerHash := none
        errorMessage := none, checksumVerified := false, updatedAt := w.now })
  else (.ok false, w)

/-- The columns an indexer sets for a new task. -/
def insertTasks (ts : List Task) (w : MigrationDb ι) : MigrationDb ι :=
  { w with
    nextID := w.nextID + ts.length
    tasks := w.tasks ++ ts.zipIdx.map fun (t, k) =>
      { id := w.nextID + k, resourceType := t.resourceType, filePath := t.filePath
        fileSize := t.fileSize, sourceHash := t.sourceHash, status := t.status
        metadata := t.metadata, updatedAt := w.now } }

def createMigrationTaskWhileIndexingClaim (t : Task) (generation : ℕ) : MigrationSql ι Unit := fun w =>
  if w.parent.any (Migration.indexedBy generation) then (.ok (), w.insertTasks [t])
  else (.error .claimLost, w)

def bulkCreateMigrationTasksWhileIndexingClaim (ts : List Task) : MigrationSql ι Unit := fun w =>
  if ts = [] ∨ w.parent.any fun m => m.status = .indexing ∧ m.discoveryGeneration = generation then
    (.ok (), w.insertTasks ts)
  else (.error .claimLost, w)

def updateMigrationTotalsWhileIndexingClaim (generation totalFiles totalBytes : ℕ) :
    MigrationSql ι Unit := fun w =>
  required .claimLost <| w.update
    (fun m => m.status = .indexing ∧ m.discoveryGeneration = generation) fun m =>
      { m with totalFiles, totalBytes }

def migrationTaskTotals : MigrationSql ι (ℕ × ℕ) := fun w =>
  (.ok (w.tasks.length, (w.tasks.map (·.fileSize)).sum), w)

def migrationIndexedTaskKeys : MigrationSql ι (List TaskKey) := fun w => (.ok (w.tasks.map Task.key), w)

def recordIndexingErrors (errors : List IndexingError) : MigrationSql ι Unit := fun w =>
  (.ok (), { w with indexingErrors := w.indexingErrors ++ errors })

def noteTraversed (selection : Selection) (errors : List IndexingError) : MigrationSql ι Unit := fun w =>
  (.ok (), { w with traversed := (generation, selection, errors) :: w.traversed })

def updateMigrationThreads (threads : ℕ) : MigrationSql ι Unit := fun w =>
  (.ok (), (w.update (fun _ => true) fun m => { m with threads }).2)

def addLiveBytes (bytesDelta : ℕ) : MigrationSql ι Unit := fun w =>
  (.ok (), (w.update (fun _ => true) fun m => { m with liveBytes := m.liveBytes + bytesDelta }).2)

def resetLiveBytes : MigrationSql ι Unit := fun w =>
  (.ok (), (w.update (fun _ => true) fun m => { m with liveBytes := m.processedBytes }).2)

/-- The verifier is fenced by its generation, everybody else reconciles in any state. -/
def reconcileMigrationProgress (generation : Option ℕ) : MigrationSql ι Bool := fun w =>
  let (found, w') := w.update (fun m => generation.all fun g => Migration.verifiedBy g w.now m)
    fun m => { m with
      processedFiles := countOf .completed w.tasks + countOf .skipped w.tasks +
        countOf .failed w.tasks + countOf .cancelled w.tasks
      processedBytes := bytesOf .completed w.tasks
      liveBytes := bytesOf .completed w.tasks
      verifiedFiles := w.tasks.countP fun t => t.status = .completed ∧ t.checksumVerified
      skippedFiles := countOf .skipped w.tasks
      failedFiles := countOf .failed w.tasks + countOf .cancelled w.tasks
      status := Migration.reconciledStatus w.tasks w.indexingErrors m
      notificationGeneration := Migration.reconciledGeneration w.tasks m }
  if found then (.ok true, w'.createMigrationNotificationEventTx)
  else (if generation.isSome then .ok false else .error .noRows, w)

def updateClaimedTaskStatus (t : Task) : MigrationSql ι Unit := fun w =>
  if w.tasks.any (Task.claimedAs t.id t.claimEpoch) then
    (.ok (), w.updateTasks (Task.claimedAs t.id t.claimEpoch) (t.writeBack w.now))
  else (.error .noRows, w)

variable (id claimEpoch : ℕ)

def heartbeatTaskClaim : MigrationSql ι Bool := fun w =>
  (.ok (w.tasks.any (Task.claimedAs id claimEpoch)),
    w.updateTasks (Task.claimedAs id claimEpoch) fun t => { t with updatedAt := w.now })

def transitionClaimedTask (status : TaskStatus) : MigrationSql ι Unit := fun w =>
  if w.tasks.any (Task.claimedAs id claimEpoch) then
    (.ok (), w.updateTasks (Task.claimedAs id claimEpoch) fun t =>
      { t with status, workerHash := none, updatedAt := w.now })
  else (.error .noRows, w)

def updateClaimedTaskResolvedTargetPath (targetPath : Text) : MigrationSql ι Unit := fun w =>
  if w.tasks.any (Task.claimedAs id claimEpoch) then
    (.ok (), w.updateTasks (Task.claimedAs id claimEpoch) fun t =>
      { t with resolvedTargetPath := targetPath, updatedAt := w.now })
  else (.error .noRows, w)

def updateClaimedTaskMetadata (metadata : Text) : MigrationSql ι Unit := fun w =>
  if w.tasks.any (Task.claimedAs id claimEpoch) then
    (.ok (), w.updateTasks (Task.claimedAs id claimEpoch) fun t =>
      { t with metadata, updatedAt := w.now })
  else (.error .noRows, w)

def updateMigrationTaskAndProgress (t : Task) (d : Progress) : MigrationSql ι Unit := fun w =>
  if w.tasks.any (Task.claimedAs t.id t.claimEpoch) then
    let (found, w') := w.update (fun _ => true) fun m => { m with
      processedFiles := m.processedFiles + d.files
      processedBytes := m.processedBytes + d.bytes
      liveBytes := m.liveBytes + d.bytes + d.liveBytes
      verifiedFiles := m.verifiedFiles + if t.checksumVerified then 1 else 0
      skippedFiles := m.skippedFiles + d.skipped
      failedFiles := m.failedFiles + d.failed }
    if found then
      (.ok (), w'.updateTasks (Task.claimedAs t.id t.claimEpoch) (t.writeBack w.now))
    else (.error .noRows, w)
  else (.error .noRows, w)

/-- One transaction ends the task, all other tasks and the migration, or nothing. -/
def failMigrationForAuthentication (t : Task) (errMsg : String) : MigrationSql ι Bool := fun w =>
  if w.tasks.any (Task.claimedAs t.id t.claimEpoch) then
    let failed := updateWhere (Task.claimedAs t.id t.claimEpoch) (fun r =>
      { r with
        status := .failed, nextRetryAt := none, errorMessage := some errMsg, updatedAt := w.now })
      w.tasks
    let tasks := updateWhere (fun r => r.status = .pending ∨ r.status = .running)
      (fun r => { r with status := .cancelled, nextRetryAt := none, updatedAt := w.now }) failed
    let (found, w') := w.update (·.status.isActive) fun m => { m with
      status := .failed, errorMessage := some errMsg
      processedFiles := countOf .completed tasks + countOf .skipped tasks +
        countOf .failed tasks + countOf .cancelled tasks
      processedBytes := bytesOf .completed tasks
      liveBytes := bytesOf .completed tasks
      skippedFiles := countOf .skipped tasks
      failedFiles := countOf .failed tasks + countOf .cancelled tasks
      notificationGeneration := m.notificationGeneration + 1 }
    if found then (.ok true, { w' with tasks }.createMigrationNotificationEventTx) else (.ok false, w)
  else (.ok false, w)

def cancelPendingTasks : MigrationSql ι Unit := fun w =>
  (.ok (), w.updateTasks (·.status = .pending) (Task.cancel w.now))

def resetFailedTasksForRetry : MigrationSql ι ℕ := fun w =>
  let again (t : Task) : Bool := t.status = .failed ∨ t.status = .cancelled
  let count := w.tasks.countP again
  let bytes := ((w.tasks.filter again).map (·.fileSize)).sum
  if count = 0 then (.ok 0, w)
  else
    let (found, w') := w.update
      (fun m => m.status = .completed ∨ m.status = .failed ∨ m.status = .completedWithErrors)
      fun m => { m with
        failedFiles := m.failedFiles - count
        processedFiles := m.processedFiles - count
        processedBytes := m.processedBytes - bytes
        liveBytes := m.processedBytes - bytes
        notificationGeneration := m.notificationGeneration + 1
        failedRetryDone := false, status := .running, errorMessage := none }
    if found then
      (.ok count, w'.updateTasks again fun t =>
        { t with
          status := .pending, attempts := 0, nextRetryAt := none, workerHash := none
          errorMessage := none, updatedAt := w.now })
    else (.ok 0, w)

def resetMigrationForReindex : MigrationSql ι Unit := fun w =>
  let w' := (w.update (fun _ => true) fun m => { m with
    totalFiles := 0, totalBytes := 0, processedFiles := 0, processedBytes := 0, liveBytes := 0
    skippedFiles := 0, failedFiles := 0, status := .indexing, discoveryComplete := false
    discoveryGeneration := m.discoveryGeneration + 1, errorMessage := none
    notificationGeneration := m.notificationGeneration + 1 }).2
  (.ok (), { w' with tasks := [], indexingErrors := [] })

def delete : MigrationDb ι :=
  { w with parent := none, tasks := [], indexingErrors := [], notificationEvents := [] }

/-- The deletion of the row; the schedules are deleted by statements of their own. -/
def deleteMigrationCascade : MigrationSql ι Unit := fun w => (.ok (), w.delete)

def deleteOldMigrations : MigrationSql ι Unit := fun w =>
  if w.parent.any fun m => m.status.isTerminal ∧ m.updatedAt + 2592000 < w.now then (.ok (), w.delete)
  else (.ok (), w)

/-- The part of `SuspendUser` that concerns the user's migrations and their schedules. -/
def suspendUser (user : ℕ) : MigrationSql ι Unit := fun w =>
  let w' := (w.update (fun m => m.userID = some user ∧ m.status.isActive) fun m =>
    { m with status := .paused, indexingLeaseUntil := none }).2
  (.ok (), { w' with timetable := w.timetable.update (·.userID = user) Schedule.deactivate })

/-- The part of `UpdateUserActive` that concerns the schedules. -/
def reactivateSchedulesOf (user : ℕ) : MigrationSql ι Unit := fun w =>
  (.ok (), { w with timetable := w.timetable.update (·.userID = user) Schedule.activate })

def missesNotificationEvent : MigrationSql ι Bool := fun w =>
  (.ok (w.parent.any fun m => isTerminalMigrationStatus m.status ∧
    ¬ w.notificationEvents.any (·.runGeneration = m.notificationGeneration)), w)

def createMigrationNotificationEvent : MigrationSql ι Unit := fun w =>
  if w.parent.isSome then (.ok (), w.createMigrationNotificationEventTx) else (.error .noRows, w)

/-- A statement of the scheduler or of the handlers of schedules. -/
def onSchedules (s : ScheduleStmt) : MigrationSql ι s.Val := fun w =>
  let (r, timetable) := s.run w.now w.timetable
  (.ok r, { w with timetable })

def requeueFailedTasks : MigrationSql ι Unit := fun w =>
  if w.parent.any fun m => m.status.isActive ∨ m.status = .verifying then
    (.ok (), w.updateTasks (fun t => t.status = .failed ∧ t.nextRetryAt.any (· ≤ w.now)) fun t =>
      { t with status := .pending, nextRetryAt := none, checksumVerified := false, updatedAt := w.now })
  else (.ok (), w)

def requeueOrphanedRunningTasks : MigrationSql ι Unit := fun w =>
  if w.parent.any (·.status.isActive) then
    (.ok (), w.updateTasks (fun t => t.status = .running ∧ t.updatedAt + 600 < w.now)
      (Task.requeue w.now))
  else (.ok (), w)

def recoverAbandonedTasks (workerID : String) : MigrationSql ι Unit := fun w =>
  (.ok (), { w with toRows := (w.toRows.recoverAbandonedTasks workerID).2 })

def claimMigrationVerification : MigrationSql ι (Option ℕ) := fun w =>
  let (claimed, w') := w.update
    (fun m => m.status = .verifying ∧ m.verificationLeaseUntil.all (· ≤ w.now)) fun m =>
      { m with
        verificationGeneration := m.verificationGeneration + 1
        verificationLeaseUntil := some (w.now + verificationLease) }
  (.ok (if claimed then w'.parent.map (·.verificationGeneration) else none), w')

def renewMigrationVerificationLease : MigrationSql ι Bool := fun w =>
  affecting <| w.update (Migration.verifiedBy generation w.now) fun m =>
    { m with verificationLeaseUntil := some (w.now + verificationLease) }

def releaseMigrationVerificationLease : MigrationSql ι Unit := fun w =>
  (.ok (), (w.update (fun m => m.verificationGeneration = generation ∧ m.status = .verifying) fun m =>
    { m with verificationLeaseUntil := none }).2)

def getUnverifiedCompletedTasks : MigrationSql ι (List Task) := fun w =>
  (.ok (w.tasks.filter Task.isUnverified), w)

def markMigrationTaskChecksumVerified (id : ℕ) (targetHash : String) (generation : ℕ) :
    MigrationSql ι Bool := fun w =>
  let hit (t : Task) : Bool := t.id = id ∧ t.isUnverified
  if w.tasks.any hit ∧ w.parent.any (Migration.verifiedBy generation w.now) then
    (.ok true, ((w.update (fun _ => true) fun m =>
      { m with verifiedFiles := m.verifiedFiles + 1 }).2).updateTasks hit fun t =>
        { t with
          checksumVerified := true, updatedAt := w.now
          targetHash := if targetHash ≠ "" then some targetHash else t.targetHash })
  else (.ok false, w)

/-- A mismatch with a retry time sends the migration back to its transfers. -/
def markMigrationTaskChecksumMismatch (copy : Task) (generation : ℕ) : MigrationSql ι Bool := fun w =>
  let hit (t : Task) : Bool := t.id = copy.id ∧ t.isUnverified
  if w.tasks.any hit ∧ w.parent.any (Migration.verifiedBy generation w.now) then
    (.ok true, ((w.update (fun _ => true) fun m =>
      { m with status := if copy.nextRetryAt.isSome then .running else m.status }).2).updateTasks hit
        fun t => { t with
          status := .failed, errorMessage := copy.errorMessage, nextRetryAt := copy.nextRetryAt
          targetHash := copy.targetHash, checksumVerified := false, updatedAt := w.now })
  else (.ok false, w)

end MigrationDb

end Clumoove.Queue
