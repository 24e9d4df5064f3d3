import Clumoove.Sanity.Queue.Lifecycle

/-! The owner of a migration hears of each of its ends once. A generation of notifications begins
where an end is left or reached, so that no two ends share one, and the event is written by the
transaction that brings the end. It takes only that nobody sets a migration that has completed to
FAILED. -/

namespace Clumoove.Queue

open List

variable {ι : Type} [DecidableEq ι]

/-- A time during which a migration is at one end, and the generation it is announced under. -/
structure Period where
  status : MigrationStatus
  generation : ℕ
  deriving DecidableEq

def NotificationEvent.period (e : NotificationEvent) : Period := ⟨e.status, e.runGeneration⟩

def Migration.period (m : Migration) : Period := ⟨m.status, m.notificationGeneration⟩

/-- An observer's record of the periods, the last one first. -/
def notePeriod (_ : ι) (s : MigrationStmt) (_ : Except DbError s.Val) (w w' : MigrationDb ι)
    (periods : List Period) : List Period :=
  match w'.parent with
  | some m =>
    if isTerminalMigrationStatus m.status ∧ w.parent.map (·.status) ≠ some m.status then
      m.period :: periods
    else periods
  | none => periods

def announcingCrew (role : ι → MigrationRole) :
    Crew.Parts ι MigrationStmt (fun s => Except DbError s.Val) (MigrationDb ι × List Period) Outcome :=
  (migrationCrew role).watched notePeriod fun _ periods => periods

/-- A status at an end is set only where the migration is not at another end. -/
def endsOnce (_ : ι) (s : MigrationStmt) (w : MigrationDb ι × List Period) : Bool :=
  match s with
  | .updateMigrationStatus st _ => w.1.parent.all fun m =>
    !isTerminalMigrationStatus st || !isTerminalMigrationStatus m.status || m.status = st
  | _ => true

/-- What a step does to the end of a migration: it is away from every end afterwards, and under a
later generation if it was at one; or it comes to an end, announced; or nothing changes. -/
inductive Stage.Turn (announces : Bool) (s s' : Stage) : Prop
  | away : isTerminalMigrationStatus s'.status = false →
      s.notificationGeneration ≤ s'.notificationGeneration →
      (isTerminalMigrationStatus s.status = true →
        s.notificationGeneration < s'.notificationGeneration) → Turn announces s s'
  | ends : isTerminalMigrationStatus s.status = false → announces = true →
      s.notificationGeneration ≤ s'.notificationGeneration → Turn announces s s'
  | stays : s'.status = s.status → s'.notificationGeneration = s.notificationGeneration →
      Turn announces s s'

theorem not_terminal_of_active (h : st.isActive = true) : isTerminalMigrationStatus st = false := by
  revert h
  cases st <;> decide

theorem Stage.Turn.goOn (h : isTerminalMigrationStatus s.status = false) : Turn a s s.goOn := by
  unfold Stage.goOn
  split_ifs
  · exact .away rfl le_rfl fun ht => absurd ht (by simp [h])
  · exact .away rfl le_rfl fun ht => absurd ht (by simp [h])

theorem Stage.Turn.reconcile : Turn true s (s.reconcile tasks errors) := by
  cases hs : isTerminalMigrationStatus s.status with
  | true =>
    have hterm : s.status.isTerminal = true := by revert hs; cases s.status <;> decide
    have hnot : ¬ (s.status = .running ∨ s.status = .verifying) := by
      rintro (h | h) <;> rw [h] at hs <;> exact absurd hs (by decide)
    refine .stays ?_ ?_
    · simp [Stage.reconcile, Stage.reconciled, hterm]
    · simp [Stage.reconcile, hnot]
  | false =>
    refine .ends hs rfl ?_
    simp only [Stage.reconcile]
    split_ifs <;> omega

theorem Stage.Turn.setStatus
    (h : isTerminalMigrationStatus st = true → isTerminalMigrationStatus s.status = true →
      s.status = st) : Turn true s (s.setStatus st) := by
  cases hst : isTerminalMigrationStatus st with
  | false =>
    refine .away hst ?_ ?_
    · simp only [Stage.setStatus]
      split_ifs <;> omega
    · intro ht
      simp [Stage.setStatus, ht, hst]
  | true =>
    cases hs : isTerminalMigrationStatus s.status with
    | false =>
      refine .ends hs rfl ?_
      simp [Stage.setStatus, hs]
    | true =>
      refine .stays (h hst hs).symm ?_
      simp [Stage.setStatus, hst]

theorem Stage.Step.turn (h : Step now tasks errors c s s')
    (hset : ∀ st e, c = .updateMigrationStatus st e → isTerminalMigrationStatus st = true →
      isTerminalMigrationStatus s.status = true → s.status = st) : Turn c.announces s s' := by
  -- a step from a status that is no end, to one that is none either
  have away {s' : Stage} (hs : isTerminalMigrationStatus s.status = false)
      (hs' : isTerminalMigrationStatus s'.status = false)
      (hg : s.notificationGeneration ≤ s'.notificationGeneration) : Turn c.announces s s' :=
    .away hs' hg fun ht => absurd ht (by simp [hs])
  have status {st : MigrationStatus} (hs : s.status = st) (hst : isTerminalMigrationStatus st = false) :
      isTerminalMigrationStatus s.status = false := by rw [hs, hst]
  cases h with
  | setStatus => exact .setStatus (hset _ _ rfl)
  | reconcile => exact .reconcile
  | lose hs | suspend hs => exact away (not_terminal_of_active hs) rfl le_rfl
  | recover hs => exact .goOn (status hs rfl)
  | resume hs =>
    rcases hs with hs | hs
    · exact .goOn (status hs rfl)
    · exact .goOn (status hs rfl)
  | failIndexing hs => exact .ends (status hs.1 rfl) rfl (Nat.le_succ _)
  | failStale hs => exact .ends (status hs rfl) rfl (Nat.le_succ _)
  | nothingToDo hs => exact .ends (status hs.1 rfl) rfl (Nat.le_succ _)
  | authFailed hs => exact .ends (not_terminal_of_active hs) rfl (Nat.le_succ _)
  | reschedule hs | trigger hs => exact away (status hs rfl) rfl le_rfl
  | discovered hs => exact away (status hs.1 rfl) rfl le_rfl
  | retry | reindex => exact .away rfl (Nat.le_succ _) fun _ => Nat.lt_succ_self _
  | claim | renew | release => exact .stays rfl rfl
  | mismatch hs =>
    refine away (status hs.1 rfl) ?_ le_rfl
    split_ifs
    · rfl
    · exact status hs.1 rfl

/-- The events tell of the periods and of nothing else, under generations that rise; away from every
end the generation has not been used, and at an end it is that of the last period. -/
structure Told (m : Migration) (events : List NotificationEvent) (periods : List Period) : Prop where
  events : events.map NotificationEvent.period = periods
  rising : periods.Pairwise fun p q => q.generation < p.generation
  used : ∀ p ∈ periods, p.generation ≤ m.notificationGeneration
  away : isTerminalMigrationStatus m.status = false →
    ∀ p ∈ periods, p.generation < m.notificationGeneration
  atEnd : isTerminalMigrationStatus m.status = true → periods.head? = some m.period

namespace Told

variable {m m' : Migration} {events : List NotificationEvent} {periods : List Period}

section

variable (h : Told m events periods) (hstatus : m'.status = m.status)
  (hgen : m'.notificationGeneration = m.notificationGeneration)
include h hstatus hgen

theorem announce_eq : m'.announce events = events := by
  unfold Migration.announce
  rw [if_neg]
  rintro ⟨hterm, hnone⟩
  rw [hstatus] at hterm
  apply hnone
  have hhead := h.atEnd hterm
  rw [← h.events] at hhead
  obtain ⟨e, he, hperiod⟩ := List.mem_map.1 (List.mem_of_mem_head? hhead)
  rw [List.any_eq_true]
  refine ⟨e, he, decide_eq_true ?_⟩
  rw [hgen]
  exact congrArg Period.generation hperiod

theorem stays : Told m' events periods := by
  constructor
  · exact h.events
  · exact h.rising
  · rw [hgen]
    exact h.used
  · rw [hgen, hstatus]
    exact h.away
  · rw [Migration.period, hgen, hstatus]
    exact h.atEnd

end

theorem leaves (h : Told m events periods) (hs' : isTerminalMigrationStatus m'.status = false)
    (hle : m.notificationGeneration ≤ m'.notificationGeneration)
    (hlt : isTerminalMigrationStatus m.status = true →
      m.notificationGeneration < m'.notificationGeneration) : Told m' events periods := by
  have hless : ∀ p ∈ periods, p.generation < m'.notificationGeneration := by
    intro p hp
    cases hs : isTerminalMigrationStatus m.status with
    | true => exact lt_of_le_of_lt (h.used p hp) (hlt hs)
    | false => exact lt_of_lt_of_le (h.away hs p hp) hle
  constructor
  · exact h.events
  · exact h.rising
  · intro p hp
    exact (hless p hp).le
  · exact fun _ => hless
  · intro ht
    rw [hs'] at ht
    cases ht

theorem ends (h : Told m events periods) (hs : isTerminalMigrationStatus m.status = false)
    (hs' : isTerminalMigrationStatus m'.status = true)
    (hle : m.notificationGeneration ≤ m'.notificationGeneration) :
    Told m' (m'.announce events) (m'.period :: periods) := by
  have hless : ∀ p ∈ periods, p.generation < m'.notificationGeneration := by
    intro p hp
    exact lt_of_lt_of_le (h.away hs p hp) hle
  have hnew : m'.announce events = m'.event :: events := by
    unfold Migration.announce
    rw [if_pos]
    refine ⟨hs', ?_⟩
    rw [List.any_eq_true]
    rintro ⟨e, he, hgen⟩
    have hp : e.period ∈ periods := by
      rw [← h.events]
      exact List.mem_map_of_mem he
    have hlt := hless _ hp
    have heq : e.period.generation = m'.notificationGeneration := of_decide_eq_true hgen
    omega
  constructor
  · rw [hnew, map_cons, h.events]
    rfl
  · exact pairwise_cons.2 ⟨hless, h.rising⟩
  · intro p hp
    rcases mem_cons.1 hp with rfl | hp
    · exact le_rfl
    · exact (hless p hp).le
  · intro ht
    rw [hs'] at ht
    cases ht
  · exact fun _ => rfl

theorem filter_eq (h : Told m events periods) (hp : p ∈ periods) :
    ∃ e, events.filter (·.runGeneration = p.generation) = [e] ∧ e.status = p.status := by
  obtain ⟨hevents, hrising, -, -, -⟩ := h
  subst hevents
  induction events with
  | nil => cases hp
  | cons e events ih =>
    rw [map_cons, pairwise_cons] at hrising
    obtain ⟨hfirst, hrest⟩ := hrising
    rcases mem_cons.1 hp with rfl | hp
    · refine ⟨e, ?_, rfl⟩
      have hself : decide (e.runGeneration = e.period.generation) = true := decide_eq_true rfl
      rw [filter_cons, if_pos hself, filter_eq_nil_iff.2]
      intro f hf hgen
      have hlt := hfirst _ (List.mem_map_of_mem hf)
      have heq : f.runGeneration = e.period.generation := of_decide_eq_true hgen
      exact absurd heq hlt.ne
    · obtain ⟨f, hf, hstatus⟩ := ih hp hrest
      refine ⟨f, ?_, hstatus⟩
      rw [filter_cons_of_neg, hf]
      have hlt := hfirst _ hp
      intro hgen
      exact absurd (of_decide_eq_true hgen).symm hlt.ne

end Told

def ToldOf (w : MigrationDb ι × List Period) : Prop :=
  ∀ m, w.1.parent = some m → Told m w.1.notificationEvents w.2

theorem Told.step {events events' : List NotificationEvent} (h : Told m events periods)
    (hturn : m.stage.Turn c.announces m'.stage) (hann : MigrationDb.Announced c m m' events events')
    (hperiods : periods' = if isTerminalMigrationStatus m'.status ∧ some m.status ≠ some m'.status
      then m'.period :: periods else periods) : Told m' events' periods' := by
  subst hperiods
  -- where the status is no other end, the call has written no event
  have same (hsame : events' = events)
      (hnot : ¬ (isTerminalMigrationStatus m'.status = true ∧ some m.status ≠ some m'.status))
      (hm' : Told m' events periods) : Told m' events'
        (if isTerminalMigrationStatus m'.status = true ∧ some m.status ≠ some m'.status
          then m'.period :: periods else periods) := by
    rw [if_neg hnot, hsame]
    exact hm'
  have unannounced (hno : m'.announce events = events) : events' = events := by
    rcases hann with ⟨he, -⟩ | ⟨-, he⟩
    · exact he
    · rw [he, hno]
  have stays (hstatus : m'.status = m.status)
      (hgen : m'.notificationGeneration = m.notificationGeneration) := by
    refine same (unannounced (h.announce_eq hstatus hgen)) ?_ (h.stays hstatus hgen)
    rintro ⟨-, hne⟩
    exact hne (congrArg some hstatus.symm)
  have away (hs' : isTerminalMigrationStatus m'.status = false) (hm' : Told m' events periods) := by
    refine same (unannounced ?_) (fun hand => absurd hand.1 (by simp [hs'])) hm'
    simp [Migration.announce, hs']
  cases hturn with
  | away hs' hle hlt => exact away hs' (h.leaves hs' hle hlt)
  | stays hstatus hgen => exact stays hstatus hgen
  | ends hs hannounces hle =>
    by_cases hs' : isTerminalMigrationStatus m'.status = true
    · have hne : m.status ≠ m'.status := by
        intro heq
        have hcontra : isTerminalMigrationStatus m.status = true := by rw [heq, hs']
        exact absurd (hs.symm.trans hcontra) (by decide)
      rw [if_pos ⟨hs', fun heq => hne (Option.some.inj heq)⟩]
      rcases hann with ⟨-, hstage⟩ | ⟨-, he⟩
      · exact absurd (congrArg Stage.status (hstage hannounces)).symm hne
      · rw [he]
        exact h.ends hs hs' hle
    · have hs' := Bool.eq_false_of_not_eq_true hs'
      exact away hs' (h.leaves hs' hle fun ht => absurd (hs.symm.trans ht) (by decide))

omit [DecidableEq ι] in
theorem MigrationDb.parent_of_shown {w w' : MigrationDb ι} (h : w'.shown = w.shown) :
    w'.parent = w.parent ∧ w'.notificationEvents = w.notificationEvents := Prod.mk.inj h

theorem ToldOf.exec {w w' : MigrationDb ι × List Period}
    (hx : ((announcingCrew role).restrict endsOnce).exec i s o w = some (r, w')) (h : ToldOf w) :
    ToldOf w' := by
  obtain ⟨honce, hwatched⟩ := Crew.Parts.exec_restrict.1 hx
  obtain ⟨hexec, hnote⟩ := Crew.Parts.exec_watched.1 hwatched
  have hrun := exec_run hexec
  intro m' hm'
  cases hm : w.1.parent with
  | none =>
    -- a row that is gone does not come back
    have hnone : w'.1.parent = none := run_none hrun hm
    rw [hnone] at hm'
    cases hm'
  | some m =>
    have hperiods : w'.2 = if isTerminalMigrationStatus m'.status ∧ some m.status ≠ some m'.status
        then m'.period :: w.2 else w.2 := by
      rw [hnote, notePeriod, hm', hm]
      rfl
    by_cases hdel : s.deletes
    · rcases run_deletes hrun hdel with hsame | hnone
      · obtain ⟨hparent, hevents⟩ := MigrationDb.parent_of_shown hsame
        have heq : m' = m := Option.some.inj ((hm'.symm.trans hparent).trans hm)
        subst heq
        exact (h m' hm).step (.stays rfl rfl) (c := s) (.inl ⟨hevents, fun _ => rfl⟩) hperiods
      · rw [hnone] at hm'
        cases hm'
    · obtain ⟨m₁, hm₁, hmoves, hann⟩ := run_moved hrun hm hdel
      have heq : m₁ = m' := Option.some.inj (hm₁.symm.trans hm')
      subst heq
      refine (h m hm).step ?_ hann hperiods
      rcases hmoves with hsame | hstep
      · exact .stays (congrArg Stage.status hsame) (congrArg Stage.notificationGeneration hsame)
      · apply hstep.turn
        intro st e hs hst hterm
        subst hs
        have hterm' : isTerminalMigrationStatus m.status = true := hterm
        have heq : m.status = st := by simpa [endsOnce, hm, hst, hterm'] using honce
        exact heq

def Untold (w : MigrationDb ι × List Period) : Prop :=
  w.1.notificationEvents = [] ∧ w.2 = [] ∧
    ∀ m, w.1.parent = some m → isTerminalMigrationStatus m.status = false

omit [DecidableEq ι] in
theorem toldOf_of_untold (h : Untold w) : ToldOf w := by
  obtain ⟨hevents, hperiods, hstatus⟩ := h
  intro m hm
  rw [hevents, hperiods]
  constructor
  · rfl
  · exact List.Pairwise.nil
  · simp
  · simp
  · intro hterm
    rw [hstatus m hm] at hterm
    cases hterm

/-- In every run in which a status at an end is never set over another end: no two periods share a
generation, each has exactly one event, which carries its status, no event tells of anything else,
and a migration at an end carries the status and the generation of its last period. -/
theorem ends_announced_once {role : ι → MigrationRole}
    {c : Crew.Config ι MigrationStmt (fun s => Except DbError s.Val) (MigrationDb ι × List Period)}
    (hreach : Crew.Reach ((announcingCrew role).restrict endsOnce) (fun _ _ => True) Untold c)
    {m : Migration} (hm : c.world.1.parent = some m) : (c.world.2.map (·.generation)).Nodup ∧
    (∀ p ∈ c.world.2, ∃ e, c.world.1.notificationEvents.filter (·.runGeneration = p.generation) = [e] ∧
      e.status = p.status) ∧ (∀ e ∈ c.world.1.notificationEvents, e.period ∈ c.world.2) ∧
    (isTerminalMigrationStatus m.status = true → c.world.2.head? = some m.period) := by
  have htold : ToldOf c.world := by
    refine hreach.world (fun hx h => ToldOf.exec hx h) (fun _ _ h => h) ?_
    intro w h
    exact toldOf_of_untold h
  have h := htold m hm
  refine ⟨?_, fun p hp => h.filter_eq hp, ?_, h.atEnd⟩
  · rw [List.Nodup, pairwise_map]
    exact h.rising.imp fun hlt => hlt.ne'
  · intro e he
    rw [← h.events]
    exact List.mem_map_of_mem he

def tokenRoles : Fin 2 → MigrationRole
  | 0 => .indexer
  | 1 => .rotateToken "google"

def untoldMigration : MigrationDb (Fin 2) × List Period :=
  ({ parent := some
      { status := .indexing, userID := some 1, selectedPaths := [['/']]
        indexingLeaseUntil := some indexingLeaseDuration } }, [])

def findingNothing : List (Crew.Label (Fin 2) Outcome) :=
  [.start 0, .exec 0 .done, .exec 0 .done, .exec 0 (.source none), .exec 0 .done,
    .exec 0 (.number 0), .exec 0 (.visit (.folder none [] [])), .exec 0 .done, .exec 0 .done,
    .exec 0 .done, .exec 0 .done]

theorem untold_untoldMigration : Untold untoldMigration := by
  refine ⟨rfl, rfl, ?_⟩
  intro m hm
  cases hm
  rfl

/-- What is told after the last call of the indexer. -/
theorem completed_announced_once :
    ∃ c, Crew.Reach ((announcingCrew tokenRoles).restrict endsOnce) (fun _ _ => True) Untold c ∧
      c.world.1.parent.map (·.status) = some .completed ∧ c.world.2.head? = some ⟨.completed, 1⟩ := by
  have hrun : (Crew.run ((announcingCrew tokenRoles).restrict endsOnce) findingNothing
      { world := untoldMigration }).map (fun c => c.world.1.parent.map Migration.period) =
      some (some ⟨.completed, 1⟩) := by decide +kernel
  obtain ⟨c, hreach, hperiod⟩ := Crew.Reach.run_map untold_untoldMigration hrun
  obtain ⟨m, hm, hp⟩ := Option.map_eq_some_iff.1 hperiod
  have hstatus : m.status = .completed := congrArg Period.status hp
  have h := (ends_announced_once hreach hm).2.2.2 (by rw [hstatus]; rfl)
  refine ⟨c, hreach, ?_, h.trans (congrArg some hp)⟩
  rw [hm]
  exact congrArg some hstatus

/-- The rotation finds the migration at work, the indexer completes it, and the rotation sets it to
FAILED: a period that no event tells of, under the generation of the one before. -/
theorem failure_never_announced :
    ∃ c, Crew.Reach (announcingCrew tokenRoles) (fun _ _ => True) (· = untoldMigration) c ∧
      c.world.1.parent.map Migration.period = some ⟨.failed, 1⟩ ∧
      c.world.2 = [⟨.failed, 1⟩, ⟨.completed, 1⟩] ∧
      c.world.1.notificationEvents.map NotificationEvent.period = [⟨.completed, 1⟩] := by
  have hrun : (Crew.run (announcingCrew tokenRoles) ([.start 1, .exec 1 .done,
      .exec 1 (.choice true), .exec 1 .done, .exec 1 (.choice true)] ++ findingNothing ++
        [.exec 1 .done]) { world := untoldMigration }).map
      (fun c => (c.world.1.parent.map Migration.period, c.world.2,
        c.world.1.notificationEvents.map NotificationEvent.period)) =
      some (some ⟨.failed, 1⟩, [⟨.failed, 1⟩, ⟨.completed, 1⟩], [⟨.completed, 1⟩]) := by
    decide +kernel
  obtain ⟨c, hreach, h⟩ := Crew.Reach.run_map (P := (· = untoldMigration)) rfl hrun
  obtain ⟨hperiod, hrest⟩ := Prod.mk.inj h
  obtain ⟨hperiods, hevents⟩ := Prod.mk.inj hrest
  exact ⟨c, hreach, hperiod, hperiods, hevents⟩

end Clumoove.Queue
