import Clumoove.Spec.Queue.Lifecycle

/-! Every call of every process takes the row of a migration along the steps of its life, and nowhere
else. -/

namespace Clumoove.Queue

open Table

variable {ι : Type} {w w' : MigrationDb ι} {m : Migration}

variable {f : Migration → Migration} {p : Migration → Bool} {c : MigrationStmt} {o : Outcome}
  {i : ι} {now : ℕ} {r : Except DbError c.Val}

namespace Outcome

theorem sql_cases {α : Type} {x : MigrationSql ι α} {r : Except DbError α}
    (h : o.sql x w = some (r, w')) : (r, w') = x w ∨ (r = .error .unavailable ∧ w' = w) := by
  cases o with
  | done => exact .inl (Option.some.inj h).symm
  | unavailable =>
    cases h
    exact .inr ⟨rfl, rfl⟩
  | _ => cases h

theorem answer_world {α : Type} {a : Option α} {r : Except DbError α}
    (h : Outcome.answer a w = some (r, w')) : w' = w := by
  obtain ⟨a, -, hx⟩ := Option.map_eq_some_iff.1 h
  exact (Prod.mk.inj hx).2.symm

end Outcome

theorem DequeueStmt.exec_parent [DecidableEq ι] {P : Type} {par : Parent P}
    {d : DequeueStmt} {w w' : Rows ι P} {r : Except DbError (d.Val P)}
    (h : d.exec par i pick w = some (r, w')) : w'.parent = w.parent := by
  cases d with
  | skipFailedDependents =>
    simp only [DequeueStmt.exec] at h
    split_ifs at h
    cases h
    rfl
  | selectCandidate =>
    simp only [DequeueStmt.exec] at h
    split at h
    · cases h
      rfl
    · split at h
      · cases h
      · split_ifs at h
        cases h
        rfl
  | lockParent =>
    simp only [DequeueStmt.exec] at h
    split_ifs at h
    split at h <;> cases h <;> rfl
  | countRunning =>
    simp only [DequeueStmt.exec] at h
    split at h <;> cases h <;> rfl
  | claim id workerID =>
    simp only [DequeueStmt.exec] at h
    split at h
    · cases h
      rfl
    · split_ifs at h <;> cases h <;> rfl
  | commit | rollback =>
    cases h
    rfl

def MigrationDb.shown (w : MigrationDb ι) : Option Migration × List NotificationEvent :=
  (w.parent, w.notificationEvents)

theorem Outcome.dequeue_shown [DecidableEq ι] {d : DequeueStmt}
    {r : Except DbError (d.Val Migration)} (h : o.dequeue i d w = some (r, w')) :
    (w'.shown, w'.timetable) = (w.shown, w.timetable) := by
  have rows {pick : Option ℕ} (h : (d.exec migrationParent i pick w.toRows).map
      (fun x => (x.1, { w with toRows := x.2 })) = some (r, w')) :
      (w'.shown, w'.timetable) = (w.shown, w.timetable) := by
    obtain ⟨⟨r', rows⟩, hx, hy⟩ := Option.map_eq_some_iff.1 h
    cases hy
    exact congrArg (fun m => ((m, w.notificationEvents), w.timetable)) (DequeueStmt.exec_parent hx)
  cases o with
  | unavailable =>
    cases h
    rfl
  | done | candidate => exact rows h
  | _ => cases h

def MigrationStmt.plans : MigrationStmt → Bool
  | .schedule _ | .suspendUser _ | .reactivateSchedulesOf _ => true
  | _ => false

/-! The row after an update. -/

namespace MigrationDb

/-- The events after a call: those of before, or with one of the row as the call has left it. -/
def Announced (c : MigrationStmt) (m m' : Migration) (events events' : List NotificationEvent) :
    Prop :=
  (events' = events ∧ (c.announces = true → m'.stage = m.stage)) ∨
    (c.announces = true ∧ events' = m'.announce events)

/-- The row is still there, its stage has moved as the call allows, and the call has announced it if
that is its task. -/
def Moved (c : MigrationStmt) (w : MigrationDb ι) (m : Migration) (w' : MigrationDb ι) : Prop :=
  ∃ m', w'.parent = some m' ∧ m.stage.Moves w.now w.tasks w.indexingErrors c m'.stage ∧
    Announced c m m' w.notificationEvents w'.notificationEvents

/-- The same of a row that may be gone: then it does not come back. The schedules are left alone, unless
the call is about them. -/
structure Follows (c : MigrationStmt) (w w' : MigrationDb ι) : Prop where
  gone : w.parent = none → w'.parent = none
  moved : ∀ m, w.parent = some m → Moved c w m w'
  timetable : c.plans = false → w'.timetable = w.timetable

variable {c : MigrationStmt}

theorem Follows.same (h : (w'.shown, w'.timetable) = (w.shown, w.timetable)) : Follows c w w' := by
  obtain ⟨hshown, htime⟩ := Prod.mk.inj h
  obtain ⟨hparent, hevents⟩ := Prod.mk.inj hshown
  exact ⟨hparent.trans, fun m hm => ⟨m, hparent.trans hm, .inl rfl, .inl ⟨hevents, fun _ => rfl⟩⟩,
    fun _ => htime⟩

theorem Follows.of_moved (hm : w.parent = some m) (h : Moved c w m w')
    (htime : w'.timetable = w.timetable) : Follows c w w' := by
  refine ⟨fun hnone => ?_, fun m' hm' => ?_, fun _ => htime⟩
  · rw [hm] at hnone
    cases hnone
  · cases hm.symm.trans hm'
    exact h

theorem update_of_guard (hm : w.parent = some m) (hp : p m = true) :
    w.update p f = (true, { w with parent := some { f m with updatedAt := w.now } }) := by
  simp [update, hm, hp]

theorem update_of_not_guard (hm : w.parent = some m) (hp : p m = false) :
    w.update p f = (false, w) := by
  simp [update, hm, hp]

theorem update_cases : w.update p f = (false, w) ∨ ∃ m, w.parent = some m ∧ p m = true ∧
    w.update p f = (true, { w with parent := some { f m with updatedAt := w.now } }) := by
  cases hm : w.parent with
  | none => exact .inl (by simp [update, hm])
  | some m =>
    cases hp : p m with
    | true => exact .inr ⟨m, rfl, hp, update_of_guard hm hp⟩
    | false => exact .inl (update_of_not_guard hm hp)

theorem Follows.update (hc : c.announces = false) (h : ∀ m, w.parent = some m → p m = true →
      m.stage.Moves w.now w.tasks w.indexingErrors c (f m).stage) :
    Follows c w (w.update p f).2 := by
  rcases update_cases with heq | ⟨m, hm, hp, heq⟩ <;> rw [heq]
  · exact .same rfl
  · exact .of_moved hm ⟨_, rfl, h m hm hp, .inl ⟨rfl, fun ha => absurd ha (by rw [hc]; decide)⟩⟩ rfl

theorem create_of_parent (hm : w.parent = some m) : w.createMigrationNotificationEventTx =
    { w with notificationEvents := m.announce w.notificationEvents } := by
  simp [createMigrationNotificationEventTx, hm]

theorem Follows.announced (hc : c.announces = true)
    (h : ∀ m, p m = true → m.stage.Moves w.now w.tasks w.indexingErrors c (f m).stage) :
    Follows c w (announced (w.update p f)).2 := by
  rcases update_cases with heq | ⟨m, hm, hp, heq⟩ <;> rw [heq]
  · exact .same rfl
  · exact .of_moved hm ⟨_, rfl, h m hp, .inr ⟨hc, rfl⟩⟩ rfl

end MigrationDb

theorem Migration.stage_goOn (now : ℕ) (m : Migration) : (m.goOn now).stage = m.stage.goOn := by
  unfold Migration.goOn Stage.goOn
  by_cases h : m.discoveryComplete = true
  · simp [stage, h, Migration.selections]
  · simp [stage, h, Migration.selections]

theorem Migration.reconciledStatus_eq (tasks : List Task) (errors : List IndexingError)
    (m : Migration) : m.reconciledStatus tasks errors = m.stage.reconciled tasks errors := by
  unfold Migration.reconciledStatus Stage.reconciled Migration.stage
  cases m.status <;> simp [MigrationStatus.isTerminal]

theorem Migration.indexed_of_indexedBy {g : ℕ} (h : m.indexedBy g = true) : m.stage.indexed g := by
  simpa [indexedBy, Stage.indexed, stage] using h

theorem Migration.indexing_of_indexerLost (h : m.indexerLost now = true) : m.status = .indexing :=
  (of_decide_eq_true h).1

theorem Migration.verifiedBy_iff {g now : ℕ} :
    m.verifiedBy g now = true ↔ m.stage.verified g now := by
  simp [verifiedBy, Stage.verified, stage]

namespace MigrationDb

variable {c : MigrationStmt}

theorem Follows.of_shown {v : MigrationDb ι} (h : Follows c w w') (hv : v.shown = w'.shown)
    (htime : c.plans = false → v.timetable = w'.timetable) : Follows c w v := by
  obtain ⟨hparent, hevents⟩ := Prod.mk.inj hv
  refine ⟨fun hnone => hparent.trans (h.gone hnone), fun m hm => ?_,
    fun hc => (htime hc).trans (h.timetable hc)⟩
  obtain ⟨m', hm', hmoves, hann⟩ := h.moved m hm
  exact ⟨m', hparent.trans hm', hmoves, hevents ▸ hann⟩

theorem follows_recoverConnectionLost :
    Follows .recoverConnectionLostMigration w w.recoverConnectionLostMigration.2 := by
  refine .update rfl fun m _ hp => .inr ?_
  rw [Migration.stage_goOn]
  exact .recover (of_decide_eq_true hp)

theorem follows_resume : Follows .resumeMigration w w.resumeMigration.2 := by
  refine .update rfl fun m _ hp => .inr ?_
  have hstage : ({ Migration.goOn w.now m with errorMessage := none } : Migration).stage =
      m.stage.goOn := (Migration.stage_goOn w.now m).symm ▸ rfl
  rw [hstage]
  exact .resume (of_decide_eq_true hp)

theorem follows_maybeRetry :
    Follows .maybeRetryFailedMigrationTasks w w.maybeRetryFailedMigrationTasks.2 := by
  simp only [maybeRetryFailedMigrationTasks]
  split_ifs
  · refine Follows.of_shown (.update rfl ?_) rfl fun _ => rfl
    exact fun _ _ _ => .inl rfl
  · exact .same rfl

theorem follows_setStatus (st : MigrationStatus) (e : Option String) :
    Follows (.updateMigrationStatus st e) w (w.updateMigrationStatus st e).2 := by
  simp only [updateMigrationStatus]
  split_ifs with hst
  · exact Follows.announced rfl fun _ _ => .inr .setStatus
  · rcases update_cases with heq | ⟨m, hm, -, heq⟩ <;> rw [heq]
    · exact .same rfl
    · refine .of_moved hm ⟨_, rfl, .inr .setStatus, .inr ⟨rfl, ?_⟩⟩ rfl
      -- a status that is not announced adds no event
      simp [Migration.announce, hst]

theorem follows_reconcile (g : Option ℕ) :
    Follows (.reconcileMigrationProgress g) w (w.reconcileMigrationProgress g).2 := by
  simp only [reconcileMigrationProgress]
  rcases update_cases with heq | ⟨m, hm, hp, heq⟩ <;> rw [heq]
  · exact .same rfl
  · refine .of_moved hm ⟨_, rfl, .inr ?_, .inr ⟨rfl, rfl⟩⟩ rfl
    rw [Migration.reconciledStatus_eq]
    refine .reconcile ?_
    rintro k rfl
    exact Migration.verifiedBy_iff.1 (by simpa using hp)

theorem follows_taskAndProgress (t : Task) (d : Progress) :
    Follows (.updateMigrationTaskAndProgress t d) w (w.updateMigrationTaskAndProgress t d).2 := by
  unfold updateMigrationTaskAndProgress
  rcases update_cases with heq | ⟨m, hm, -, heq⟩ <;> rw [heq] <;> split
  · exact .same rfl
  · exact .same rfl
  · exact .of_moved hm ⟨_, rfl, .inl rfl, .inl ⟨rfl, fun _ => rfl⟩⟩ rfl
  · exact .same rfl

theorem follows_authFailure (t : Task) (e : String) :
    Follows (.failMigrationForAuthentication t e) w (w.failMigrationForAuthentication t e).2 := by
  unfold failMigrationForAuthentication
  split
  · dsimp only
    rcases update_cases with heq | ⟨m, hm, hp, heq⟩ <;> rw [heq]
    · exact .same rfl
    · exact .of_moved hm ⟨_, rfl, .inr (.authFailed hp), .inr ⟨rfl, rfl⟩⟩ rfl
  · exact .same rfl

theorem follows_retryFailed : Follows .resetFailedTasksForRetry w w.resetFailedTasksForRetry.2 := by
  simp only [resetFailedTasksForRetry]
  split_ifs
  · exact .same rfl
  · refine Follows.of_shown (.update rfl ?_) rfl fun _ => rfl
    exact fun _ _ hp => .inr (.retry (of_decide_eq_true hp))
  · exact .same rfl

theorem follows_verified (id : ℕ) (hash : String) (g : ℕ) :
    Follows (.markMigrationTaskChecksumVerified id hash g) w
      (w.markMigrationTaskChecksumVerified id hash g).2 := by
  simp only [markMigrationTaskChecksumVerified]
  split
  · refine Follows.of_shown (.update rfl ?_) rfl fun _ => rfl
    exact fun _ _ _ => .inl rfl
  · exact .same rfl

theorem follows_mismatch (copy : Task) (g : ℕ) :
    Follows (.markMigrationTaskChecksumMismatch copy g) w
      (w.markMigrationTaskChecksumMismatch copy g).2 := by
  simp only [markMigrationTaskChecksumMismatch]
  split
  case isTrue hguard =>
    refine Follows.of_shown (.update rfl ?_) rfl fun _ => rfl
    refine fun m hm _ => .inr (.mismatch ?_)
    rw [hm] at hguard
    exact Migration.verifiedBy_iff.1 (by simpa using hguard.2)
  case isFalse => exact .same rfl

theorem follows_createEvent :
    Follows .createMigrationNotificationEvent w w.createMigrationNotificationEvent.2 := by
  cases hm : w.parent with
  | none => exact .same (by simp [createMigrationNotificationEvent, hm])
  | some m =>
    refine .of_moved hm ⟨m, ?_, .inl rfl, .inr ⟨rfl, ?_⟩⟩ ?_
    all_goals simp [createMigrationNotificationEvent, hm, create_of_parent hm]

theorem follows_claimVerification [DecidableEq ι] (i : ι) :
    Follows .claimMigrationVerification w (noteLease i w.claimMigrationVerification).2 := by
  have hclaim : Follows .claimMigrationVerification w w.claimMigrationVerification.2 := by
    refine .update rfl fun m _ hp => .inr ?_
    obtain ⟨hstatus, hlease⟩ := of_decide_eq_true hp
    exact .claim hstatus hlease
  unfold noteLease
  split <;> exact hclaim.of_shown rfl fun _ => rfl

end MigrationDb

open MigrationDb

theorem run_follows [DecidableEq ι]
    (h : MigrationDb.run i c o w = some (r, w')) (hc : ¬ c.deletes) : Follows c w w' := by
  have sql {α : Type} {x : MigrationSql ι α} {r : Except DbError α}
      (h : o.sql x w = some (r, w')) (hx : Follows c w (x w).2) : Follows c w w' := by
    rcases Outcome.sql_cases h with hr | ⟨-, rfl⟩
    · rwa [← hr] at hx
    · exact .same rfl
  have answer {α : Type} {a : Option α} {r : Except DbError α}
      (h : Outcome.answer a w = some (r, w')) : Follows c w w' :=
    .same (by rw [Outcome.answer_world h])
  cases c with
  | dequeue d => exact .same (Outcome.dequeue_shown h)
  | updateMigrationStatus st e => exact sql h (follows_setStatus st e)
  | pauseMigrationForConnectionLoss => exact sql h (Follows.update rfl fun m _ hp => .inr (.lose hp))
  | recoverConnectionLostMigration => exact sql h (follows_recoverConnectionLost)
  | resumeMigration => exact sql h (follows_resume)
  | failMigrationWhileIndexingClaim g e =>
    exact sql h (Follows.announced rfl fun m hp => .inr (.failIndexing (m.indexed_of_indexedBy hp)))
  | failStaleIndexingMigration e =>
    exact sql h (Follows.announced rfl fun m hp => .inr (.failStale (m.indexing_of_indexerLost hp)))
  | recoverScheduledMigrations e =>
    exact sql h (Follows.update rfl fun m _ hp =>
      .inr (.reschedule (m.indexing_of_indexerLost (of_decide_eq_true hp).1)))
  | claimScheduledMigrationForIndexing =>
    exact sql h (Follows.update rfl fun m _ hp => .inr (.trigger (of_decide_eq_true hp)))
  | transitionMigrationIndexingToRunningClaim g =>
    exact sql h (Follows.update rfl fun m _ hp => .inr (.discovered (m.indexed_of_indexedBy hp)))
  | transitionMigrationIndexingToCompletedClaim g =>
    exact sql h (Follows.announced rfl fun m hp => .inr (.nothingToDo (m.indexed_of_indexedBy hp)))
  | maybeRetryFailedMigrationTasks => exact sql h (follows_maybeRetry)
  | renewMigrationIndexingLease | updateMigrationTotalsWhileIndexingClaim | updateMigrationThreads
  | addLiveBytes | resetLiveBytes =>
    exact sql h (Follows.update rfl fun _ _ _ => .inl rfl)
  | reconcileMigrationProgress g => exact sql h (follows_reconcile g)
  | updateMigrationTaskAndProgress t d => exact sql h (follows_taskAndProgress t d)
  | failMigrationForAuthentication t e => exact sql h (follows_authFailure t e)
  | resetFailedTasksForRetry => exact sql h (follows_retryFailed)
  | resetMigrationForReindex =>
    refine sql h (.of_shown (.update rfl ?_) rfl fun _ => rfl)
    exact fun _ _ _ => .inr .reindex
  | deleteMigrationCascade => exact absurd (.inl rfl) hc
  | deleteOldMigrations => exact absurd (.inr rfl) hc
  | suspendUser user =>
    refine sql h (.of_shown (.update rfl ?_) rfl nofun)
    exact fun _ _ hp => .inr (.suspend (of_decide_eq_true hp).2)
  | createMigrationNotificationEvent => exact sql h follows_createEvent
  | reactivateSchedulesOf | schedule => exact sql h (.of_shown (.same rfl) rfl nofun)
  | nextRun cron =>
    cases o with
    | unavailable =>
      cases h
      exact .same rfl
    | _ => exact answer h
  | claimMigrationVerification =>
    exact sql (x := fun w => noteLease i w.claimMigrationVerification) h (follows_claimVerification i)
  | renewMigrationVerificationLease g =>
    exact sql h (Follows.update rfl fun m _ hp => .inr (.renew (Migration.verifiedBy_iff.1 hp)))
  | releaseMigrationVerificationLease g =>
    refine sql h (Follows.update rfl fun m _ hp => .inr ?_)
    obtain ⟨hg, hstatus⟩ := of_decide_eq_true hp
    exact .release hg hstatus
  | markMigrationTaskChecksumVerified id hash g => exact sql h (follows_verified id hash g)
  | markMigrationTaskChecksumMismatch copy g => exact sql h (follows_mismatch copy g)
  | tick =>
    cases o with
    | number n =>
      cases h
      exact .same rfl
    | _ => cases h
  | getMigration | getTask | createMigrationTaskWhileIndexingClaim
  | bulkCreateMigrationTasksWhileIndexingClaim | updateClaimedTaskStatus | transitionClaimedTask
  | updateClaimedTaskResolvedTargetPath | updateClaimedTaskMetadata | requeueFailedTasks
  | requeueOrphanedRunningTasks =>
    refine sql h (.same ?_)
    dsimp only [getMigration, getTask, createMigrationTaskWhileIndexingClaim,
      bulkCreateMigrationTasksWhileIndexingClaim, updateClaimedTaskStatus, transitionClaimedTask,
      updateClaimedTaskResolvedTargetPath, updateClaimedTaskMetadata, requeueFailedTasks,
      requeueOrphanedRunningTasks]
    split <;> rfl
  | verifyMigrationOwnership | isOrphanedImmediate | missesNotificationEvent | migrationTaskTotals
  | migrationIndexedTaskKeys | recordIndexingErrors | heartbeatTaskClaim | cancelPendingTasks
  | recoverAbandonedTasks | getUnverifiedCompletedTasks => exact sql h (.same rfl)
  | noteTraversed g selection errors | recordConnLoss workerID | recordConnLossTask workerID taskID
  | clearConnLoss workerID | clearConnLossTask workerID taskID | now =>
    cases h
    exact .same rfl
  | choice | failure | openProviders | resolveTarget | stream | visit s | connectSource | renewals
  | compareNext tasks => exact answer h

theorem exec_run [DecidableEq ι]
    (h : c.exec i o w = some (r, w')) : MigrationDb.run i c o w = some (r, w') :=
  (Option.filter_eq_some_iff.1 h).1

theorem run_deletes [DecidableEq ι] (h : MigrationDb.run i c o w = some (r, w')) (hc : c.deletes) :
    w'.shown = w.shown ∨ w'.parent = none := by
  rcases hc with rfl | rfl
  · rcases Outcome.sql_cases h with hr | ⟨-, rfl⟩
    · cases hr
      exact .inr rfl
    · exact .inl rfl
  · rcases Outcome.sql_cases h with hr | ⟨-, rfl⟩
    · have hw : w' = (w.deleteOldMigrations).2 := congrArg Prod.snd hr
      subst hw
      unfold deleteOldMigrations
      split
      · exact .inr rfl
      · exact .inl rfl
    · exact .inl rfl

theorem run_moved [DecidableEq ι]
    (h : MigrationDb.run i c o w = some (r, w')) (hm : w.parent = some m) (hc : ¬ c.deletes) :
    Moved c w m w' :=
  (run_follows h hc).moved m hm

theorem run_none [DecidableEq ι]
    (h : MigrationDb.run i c o w = some (r, w')) (hm : w.parent = none) : w'.parent = none := by
  by_cases hc : c.deletes
  · rcases run_deletes h hc with hsame | hnone
    · exact (Prod.mk.inj hsame).1.trans hm
    · exact hnone
  · exact (run_follows h hc).gone hm

theorem Stage.Step.of_terminal (h : Step now tasks errors c s s')
    (ht : s.status.isTerminal = true) (hne : s'.status ≠ s.status) :
    (∃ st e, c = .updateMigrationStatus st e) ∨
      (c = .resetFailedTasksForRetry ∧ s.status ≠ .cancelled ∧ s'.status = .running) ∨
      (c = .resetMigrationForReindex ∧ s'.status = .indexing) := by
  cases h with
  | setStatus => exact .inl ⟨_, _, rfl⟩
  | reindex => exact .inr (.inr ⟨rfl, rfl⟩)
  | retry hs =>
    refine .inr (.inl ⟨rfl, ?_, rfl⟩)
    rcases hs with hs | hs | hs <;> simp [hs]
  | reconcile hs =>
    exfalso
    apply hne
    simp [Stage.reconcile, Stage.reconciled, ht]
  | claim | renew | release => exact absurd rfl hne
  | lose hs | suspend hs | authFailed hs =>
    exact absurd hs (by revert ht; cases s.status <;> decide)
  | recover hs => simp [hs, MigrationStatus.isTerminal] at ht
  | resume hs => rcases hs with hs | hs <;> simp [hs, MigrationStatus.isTerminal] at ht
  | failIndexing hs => simp [hs.1, MigrationStatus.isTerminal] at ht
  | failStale hs | reschedule hs | trigger hs => simp [hs, MigrationStatus.isTerminal] at ht
  | discovered hs | nothingToDo hs | mismatch hs => simp [hs.1, MigrationStatus.isTerminal] at ht

end Clumoove.Queue
