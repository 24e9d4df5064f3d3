import Clumoove.Sanity.Auth.Attempts
import Clumoove.Sanity.Auth.Calls
import Clumoove.Sanity.Auth.Rows

/-! Wrong secrets that are compared in one period, from the last success or expired lock on. A request
looks at the lock first and counts a failure at the end, so it takes that requests do not crowd
between the two and that every failure gets counted. A password is compared before the lock is looked at. -/

namespace Clumoove.Auth

open Prog AuthDb

variable {ι κ : Type} [DecidableEq ι] [DecidableEq κ]

def Activity.attempts : Activity → Bool
  | request (.login _ _) | request (.totp _) | request (.disable2FA _) | clock => true
  | _ => false

def AuthStmt.attempting : AuthStmt → Bool
  | allow | now | tick | presentToken | respond _ | checkPasswordHash _ _ | validateTOTP _ _
  | getUserByEmail _ | getUser | incrementLoginFailed _ | resetLoginFailed | incrementTOTPFailed _
  | resetTOTPFailed | consumeTOTPBackupCode _ | updateLastLoginAt | disableTOTP
  | storeRefreshToken _ _ => true
  | _ => false

namespace Secret

def event : Secret → (s : AuthStmt) → Except SqlError s.Val → Event
  | _, .now, .ok n => .time n
  | password, .getUserByEmail _, .ok u => .read u
  | password, .checkPasswordHash _ _, .ok right => .compare right
  | password, .incrementLoginFailed _, .ok _ => .count
  | password, .resetLoginFailed, .ok _ => .reset
  | code, .getUser, .ok u => .read u
  | code, .validateTOTP _ _, .ok right => .compare right
  | code, .incrementTOTPFailed _, .ok _ => .count
  | code, .resetTOTPFailed, .ok _ => .reset
  | code, .consumeTOTPBackupCode _, .ok true => .reset
  | code, .disableTOTP, .ok _ => .reset
  | _, _, _ => .other

def plain : Secret → AuthStmt → Bool
  | password, .checkPasswordHash _ _ | password, .incrementLoginFailed _ => false
  | code, .validateTOTP _ _ | code, .incrementTOTPFailed _ | code, .consumeTOTPBackupCode _ => false
  | _, s => s.attempting

/-- The order in which a request reads, compares and counts. -/
@[simps] def protocol (k : Secret) : Protocol AuthStmt (fun s => Except SqlError s.Val) Standing where
  next f s r := f.next k (k.event s r)
  allowed f s :=
    match k, s with
    | password, .getUserByEmail _ | code, .getUser => f.pends = false
    | password, .checkPasswordHash _ _ => ∃ u, f = .read u
    | code, .validateTOTP _ _ => f = .passed
    | password, .incrementLoginFailed _ | code, .incrementTOTPFailed _
    | code, .consumeTOTPBackupCode _ => f = .counting
    | _, s => s.attempting = true
  answers s r :=
    match k, s, r with
    | _, .now, .error _ => False
    | password, .incrementLoginFailed _, .error _ | code, .incrementTOTPFailed _, .error _
    | code, .consumeTOTPBackupCode _, .error _ => False
    | _, _, _ => True

end Secret

variable {k : Secret} {f : Standing}

theorem allowed_of_plain (hs : k.plain s = true)
    (hf : f.pends = false) : k.protocol.allowed f s := by
  cases k <;> cases s <;> first | exact hf | exact hs | cases hs

@[simp] theorem pends_time (hf : f.pends = false) : (f.next k (.time n)).pends = false := by
  cases f with
  | read u =>
    simp only [Standing.next]
    split_ifs <;> rfl
  | wrong u | counting => cases hf
  | away | passed => rfl

theorem pends_of_plain
    (hs : k.plain s = true) (hf : f.pends = false) : (f.next k (k.event s r)).pends = false := by
  have hother : (f.next k .other).pends = false := by simpa using hf
  cases k <;> cases s <;>
    first
      | cases hs; done
      | exact hother
      | (cases r <;> first | exact hother | exact pends_time hf | exact congrArg _ Standing.next_read |
          exact congrArg _ Standing.next_reset)

theorem follows_of_plain (hf : f.pends = false)
    (hx : Abides (.only fun s => k.plain s = true) x (fun _ _ => True) ()) :
    Abides k.protocol x (fun _ f => f.pends = false) f :=
  (uses_of_follows hx).follows_of_keeps (fun _ _ hs hf => allowed_of_plain hs hf)
    (fun _ _ _ hs hf _ => pends_of_plain hs hf) hf

/-- Requests with nothing to count when they begin, and nothing when they end. -/
theorem follows_attempts {a : Activity} (ha : a.attempts = true) (hf : f.pends = false) :
    Abides k.protocol a.program (fun _ f => f.pends = false) f := by
  cases a with
  | request q =>
    cases q with
    | login email password =>
      cases k with
      | password =>
        simp [Secret.event, AuthStmt.attempting, hf]
        intro u
        constructor <;> intro n <;> cases hactive : u.active <;>
          cases hforce : u.login.inForce n <;>
            simp [Standing.next, Secret.lockout, hactive, hforce]
      | code => exact follows_of_plain hf (by simp [Secret.plain, AuthStmt.attempting])
    | totp code | disable2FA code =>
      cases k with
      | password =>
        refine follows_of_plain hf ?_
        cases code <;> simp [Secret.plain, AuthStmt.attempting]
      | code =>
        cases code <;> simp [Secret.event, AuthStmt.attempting, hf]
        all_goals
          intros
          rename_i u _ n
          cases hforce : u.totp.inForce n <;> simp [Standing.next, Secret.lockout, hforce]
    | _ => cases ha
  | cleanUp => cases ha
  | clock => exact follows_of_plain hf (by cases k <;> simp [Secret.plain, AuthStmt.attempting])

/-! What the calls do to the lockout. -/

section Effect

variable {party : ι → κ} {w w' : AuthDb ι κ} {i : ι} {s : AuthStmt} {o : Outcome}
  {r : Except SqlError s.Val}

omit [DecidableEq κ] in
theorem written_alone {f : User → User} (htxs : w.txs = [])
    (h : Written i p f w b w') : w' = if b then { w with user := f w.user } else w := by
  cases h with
  | missed => rfl
  | pending _ _ ht _ =>
    rw [AuthDb.tx, htxs] at ht
    cases ht
  | done => rfl

theorem event_error : k.event s (.error e) = .other := by
  cases k <;> cases s <;> rfl

omit [DecidableEq ι] [DecidableEq κ] in
theorem effect_of_sql (h : o.sql x w = some (r, w')) (htxs : w.txs = [])
    (hx : x w = some (r, w') → w'.txs = [] ∧
      Effect k (k.event s r) (k.lockout w.user) w.now (k.lockout w'.user) w'.now) :
    w'.txs = [] ∧ Effect k (k.event s r) (k.lockout w.user) w.now (k.lockout w'.user) w'.now := by
  rcases Outcome.sql_cases h with ⟨-, rfl, rfl⟩ | hx'
  · rw [event_error]
    exact ⟨htxs, .other (Nat.le_refl _)⟩
  · exact hx hx'

omit [DecidableEq κ] in
theorem effect_of_writing {f : User → User}
    (h : o.sql (writing i f g) w = some (r, w')) (htxs : w.txs = [])
    (heffect : ∀ a, Effect k (k.event s (.ok a)) (k.lockout w.user) w.now (k.lockout (f w.user)) w.now) :
    w'.txs = [] ∧ Effect k (k.event s r) (k.lockout w.user) w.now (k.lockout w'.user) w'.now := by
  refine effect_of_sql h htxs ?_
  intro hx
  obtain ⟨hwritten, rfl⟩ := written_of_writing hx
  rw [written_alone htxs hwritten]
  exact ⟨htxs, heffect _⟩

theorem effect_of_run (h : AuthDb.run party i s o w = some (r, w')) (hs : s.attempting = true)
    (htxs : w.txs = []) : w'.txs = [] ∧
      Effect k (k.event s r) (k.lockout w.user) w.now (k.lockout w'.user) w'.now := by
  have hrow : w.row i = w.user := by simp [AuthDb.row, AuthDb.tx, htxs]
  have hother {e : Event} {u : User} {n : ℕ} (he : e = .other) (hu : k.lockout u = k.lockout w.user)
      (hn : w.now ≤ n) : Effect k e (k.lockout w.user) w.now (k.lockout u) n := by
    rw [he, hu]
    exact .other hn
  have hsame {e : Event} {u : User} (he : e = .other) (hu : k.lockout u = k.lockout w.user) :
      Effect k e (k.lockout w.user) w.now (k.lockout u) w.now := hother he hu (Nat.le_refl _)
  cases s with
  | allow =>
    rw [Outcome.decide_world h]
    exact ⟨htxs, hsame (by cases k <;> cases r <;> rfl) rfl⟩
  | presentToken =>
    rw [(Outcome.present_cases h).1]
    exact ⟨htxs, hsame (by cases k <;> cases r <;> rfl) rfl⟩
  | now =>
    cases h
    refine ⟨htxs, ?_⟩
    cases k <;> exact .time
  | tick =>
    cases o with
    | number n =>
      cases h
      exact ⟨htxs, hother (by cases k <;> rfl) rfl (Nat.le_add_right _ _)⟩
    | _ => cases h
  | respond reply =>
    cases h
    exact ⟨htxs, hsame (by cases k <;> rfl) rfl⟩
  -- what concerns one of the secrets leaves the other alone
  | checkPasswordHash _ _ | validateTOTP _ _ =>
    cases h
    refine ⟨htxs, ?_⟩
    cases k <;> first | exact .compare _ | exact hsame rfl rfl
  | getUserByEmail email =>
    refine effect_of_sql h htxs fun hx => ?_
    unfold getUserByEmail at hx
    split_ifs at hx <;> cases hx
    · refine ⟨htxs, ?_⟩
      rw [hrow]
      cases k <;> first | exact .read | exact hsame rfl rfl
    · exact ⟨htxs, hsame event_error rfl⟩
  | getUser =>
    refine effect_of_sql h htxs fun hx => ?_
    cases hx
    refine ⟨htxs, ?_⟩
    rw [hrow]
    cases k <;> first | exact .read | exact hsame rfl rfl
  | incrementLoginFailed lockUntil | incrementTOTPFailed lockUntil =>
    refine effect_of_writing h htxs fun a => ?_
    cases k <;> first | exact .count lockUntil | exact hsame rfl rfl
  | resetLoginFailed | resetTOTPFailed | disableTOTP =>
    refine effect_of_writing h htxs fun a => ?_
    cases k <;> first | exact .reset | exact hsame rfl rfl
  | consumeTOTPBackupCode code =>
    refine effect_of_sql h htxs fun hx => ?_
    obtain ⟨consumed, hwritten, rfl⟩ := written_of_writingIf hx
    rw [written_alone htxs hwritten]
    cases consumed with
    | false => exact ⟨htxs, hsame (by cases k <;> rfl) rfl⟩
    | true =>
      refine ⟨htxs, ?_⟩
      cases k <;> first | exact .reset | exact hsame rfl rfl
  | updateLastLoginAt => exact effect_of_writing h htxs fun _ => hsame (by cases k <;> rfl) rfl
  | storeRefreshToken e g =>
    rcases storeRefreshToken_cases h with ⟨⟨e, rfl⟩, rfl⟩ | ⟨rfl, ⟨t, ht, -⟩ | ⟨-, rfl⟩⟩
    · exact ⟨htxs, hsame event_error rfl⟩
    · rw [AuthDb.tx, htxs] at ht
      cases ht
    · exact ⟨htxs, hsame (by cases k <;> rfl) rfl⟩
  | _ => cases hs

end Effect

def watchedAttempts (k : Secret) (activity : ι → Activity) (party : ι → κ) :
    Crew.Parts ι AuthStmt (fun s => Except SqlError s.Val) (AuthDb ι κ × Attempts ι) Outcome :=
  (authCrew activity party).watched (fun i s r w w' h =>
      h.note k i (k.event s r) (k.lockout w.user) (k.lockout w'.user) w.now w'.now)
    (fun i h => h.move i .away)

/-- A request reads the row only where there is room for one more failure, and a login only reads the
row of an active account that is not locked. -/
def leavesRoom (k : Secret) (i : ι) (s : AuthStmt) (v : AuthDb ι κ × Attempts ι) : Bool :=
  match k, s with
  | .password, .getUserByEmail email => email = v.1.user.email →
      ((v.2.standing i).reads ∨ v.2.room .password v.1.user.login) ∧ v.1.user.active ∧
        ¬ v.1.user.login.inForce v.1.now
  | .code, .getUser => (v.2.standing i).reads ∨ v.2.room .code v.1.user.totp
  | _, _ => true

/-- A failure that has been compared is counted: the request does not break off before that, and the
database can be reached. -/
def countsFailures (v : AuthDb ι κ × Attempts ι) : Crew.Label ι Outcome → Bool
  | .exec i o => (v.2.standing i).pends → o ≠ .unavailable
  | .stop i => !(v.2.standing i).pends
  | _ => true

def PeriodBegins (k : Secret) (v : AuthDb ι κ × Attempts ι) : Prop :=
  v.1.txs = [] ∧ (k.lockout v.1.user).failedAttempts = 0 ∧
    (k.lockout v.1.user).inForce v.1.now = false ∧ v.2 = {}

section Session

variable {activity : ι → Activity} {party : ι → κ} {i : ι} {s : AuthStmt} {o : Outcome}
  {r : Except SqlError s.Val} {v v' : AuthDb ι κ × Attempts ι}

def Throttled (k : Secret) (v : AuthDb ι κ × Attempts ι) : Prop :=
  v.1.txs = [] ∧ Bounded k (k.lockout v.1.user) v.1.now v.2

theorem exec_watchedAttempts :
    ((watchedAttempts k activity party).restrict (leavesRoom k)).exec i s o v = some (r, v') ↔
      leavesRoom k i s v = true ∧ AuthDb.run party i s o v.1 = some (r, v'.1) ∧
        v'.2 = v.2.note k i (k.event s r) (k.lockout v.1.user) (k.lockout v'.1.user) v.1.now
          v'.1.now := by
  rw [Crew.Parts.exec_restrict, watchedAttempts, Crew.Parts.exec_watched]
  exact Iff.rfl

omit [DecidableEq ι] [DecidableEq κ] in
theorem PeriodBegins.throttled (hv : PeriodBegins k v) : Throttled k v := by
  obtain ⟨htxs, hfailed, hforce, hwatch⟩ := hv
  have hpos : 0 < k.maxAttempts := by cases k <;> decide
  refine ⟨htxs, ?_⟩
  rw [hwatch]
  exact
    { room := by simp [hfailed]
      below := by omega
      reading := nofun
      pending := nofun
      locked := fun _ => ⟨rfl, nofun⟩
      unlocked := fun _ => Nat.zero_le _
      fair := by simp
      wrong := Nat.zero_le _
      late := rfl }

theorem permitted_of_allowed (hallowed : k.protocol.allowed (v.2.standing i) s)
    (hroom : leavesRoom k i s v = true) (hx : AuthDb.run party i s o v.1 = some (r, w'))
    (htxs : v.1.txs = []) : Permitted k (k.event s r) i (k.lockout v.1.user) v.1.now v.2 := by
  have hrow : v.1.row i = v.1.user := by simp [AuthDb.row, AuthDb.tx, htxs]
  cases k with
  | password =>
    cases s with
    | getUserByEmail email =>
      rcases Outcome.sql_cases hx with ⟨-, rfl, -⟩ | hget
      · trivial
      · unfold getUserByEmail at hget
        rw [hrow] at hget
        split_ifs at hget with hemail <;> cases hget
        · obtain ⟨hroom, hactive, hforce⟩ := of_decide_eq_true hroom hemail.symm
          exact ⟨hallowed, hroom, fun _ => ⟨hactive, eq_false_of_ne_true hforce⟩⟩
        · trivial
    | checkPasswordHash password hash =>
      cases hx
      exact hallowed
    | incrementLoginFailed lockUntil =>
      cases r with
      | ok locked => exact hallowed
      | error e => trivial
    | _ => cases r <;> trivial
  | code =>
    cases s with
    | getUser =>
      rcases Outcome.sql_cases hx with ⟨-, rfl, -⟩ | hget
      · trivial
      · cases hget
        exact ⟨hallowed, of_decide_eq_true hroom, fun h => by cases h⟩
    | validateTOTP secret code =>
      cases hx
      exact hallowed
    | incrementTOTPFailed lockUntil =>
      cases r with
      | ok locked => exact hallowed
      | error e => trivial
    | consumeTOTPBackupCode code =>
      rcases r with _ | (_ | _) <;> trivial
    | _ => cases r <;> trivial

theorem attempting_of_allowed (hallowed : k.protocol.allowed f s) : s.attempting = true := by
  cases k <;> cases s <;> first | rfl | exact hallowed

theorem answers_of_run (hcounts : countsFailures v (.exec i o) = true)
    (hallowed : k.protocol.allowed (v.2.standing i) s)
    (hx : AuthDb.run party i s o v.1 = some (r, w')) : k.protocol.answers s r := by
  have hreached {β : Type} {x : AuthSql ι κ β} {r : Except SqlError β}
      (hf : v.2.standing i = .counting) (h : o.sql x v.1 = some (r, w')) : x v.1 = some (r, w') := by
    rcases Outcome.sql_cases h with ⟨ho, -, -⟩ | hx
    · have hdone : o ≠ .unavailable := of_decide_eq_true hcounts (by rw [hf]; rfl)
      exact absurd ho hdone
    · exact hx
  cases k with
  | password =>
    cases s with
    | incrementLoginFailed lockUntil =>
      obtain ⟨-, rfl⟩ := written_of_writing (hreached hallowed hx)
      trivial
    | now =>
      cases hx
      trivial
    | _ => cases r <;> trivial
  | code =>
    cases s with
    | incrementTOTPFailed lockUntil =>
      obtain ⟨-, rfl⟩ := written_of_writing (hreached hallowed hx)
      trivial
    | consumeTOTPBackupCode code =>
      obtain ⟨consumed, -, rfl⟩ := written_of_writingIf (hreached hallowed hx)
      trivial
    | now =>
      cases hx
      trivial
    | _ => cases r <;> trivial

def throttleSession (hattempts : ∀ i, (activity i).attempts = true) :
    Crew.Session ((watchedAttempts k activity party).restrict (leavesRoom k))
      (fun v l => countsFailures v l = true) Standing where
  T _ := k.protocol
  state i v := v.2.standing i
  idle _ f := f.pends = false
  inv := Throttled k
  program i f hf := by
    refine Follows.bind ((follows_attempts (hattempts i) hf).follows.mono ?_)
    intro r f' hf'
    cases r <;> exact hf'
  answers hok _ hallowed hx := answers_of_run hok hallowed (exec_watchedAttempts.1 hx).2.1
  next hx := by
    obtain ⟨-, -, hnote⟩ := exec_watchedAttempts.1 hx
    rw [hnote]
    refine ⟨if_pos rfl, ?_⟩
    intro j hj
    exact if_neg hj
  keep _ hinv hallowed _ hx := by
    obtain ⟨hroom, hrun, hnote⟩ := exec_watchedAttempts.1 hx
    obtain ⟨htxs, heffect⟩ := effect_of_run hrun (attempting_of_allowed hallowed) hinv.1
    refine ⟨htxs, ?_⟩
    rw [hnote]
    exact hinv.2.event (permitted_of_allowed hallowed hroom hrun hinv.1) heffect
  finish i v _ := by
    show (if i = i then Standing.away else _).pends = false
    rw [if_pos rfl]
    rfl
  stop i v _ := by
    show (if i = i then Standing.away else _).pends = false
    rw [if_pos rfl]
    rfl
  others i j v hj := if_neg hj
  leave i v hends hinv := by
    have hpends : (v.2.standing i).pends = false := by
      rcases hends with hidle | hstop
      · exact hidle
      · simpa [countsFailures] using hstop
    refine ⟨?_, hinv.2.depart hpends⟩
    show v.1.txs.erase i = []
    rw [hinv.1]
    rfl

end Session

/-- In every period no more wrong secrets are compared than the maximum, and none under a lock. -/
theorem lockout_bounds_guessing {k : Secret} {activity : ι → Activity} {party : ι → κ}
    (hattempts : ∀ i, (activity i).attempts = true)
    {c : Crew.Config ι AuthStmt (fun s => Except SqlError s.Val) (AuthDb ι κ × Attempts ι)}
    (hreach : Crew.Reach ((watchedAttempts k activity party).restrict (leavesRoom k))
      (fun v l => countsFailures v l = true) (PeriodBegins k) c) :
    c.world.2.wrong ≤ k.maxAttempts ∧ c.world.2.late = false := by
  have hholds := (throttleSession hattempts).sound (fun _ => PeriodBegins.throttled) ?_ hreach
  · have hbounded : Throttled k c.world := hholds.inv
    exact ⟨hbounded.2.wrong, hbounded.2.late⟩
  · intro i v hv
    obtain ⟨-, -, -, hwatch⟩ := hv
    show (v.2.standing i).pends = false
    rw [hwatch]
    rfl

def wrongLogin : Fin 1 → Activity := fun _ => .request (.login 1 3)

def loginAccount : AuthDb (Fin 1) Unit × Attempts (Fin 1) :=
  ({ user := { email := 1, passwordHash := 2 } }, {})

def loginCompares : List (Crew.Label (Fin 1) Outcome) :=
  [.start 0, .exec 0 (.choice true), .exec 0 .done, .exec 0 .done]

def loginCounts : List (Crew.Label (Fin 1) Outcome) :=
  List.replicate 4 (.exec 0 .done) ++ [.finish 0]

def fiveLogins : List (Crew.Label (Fin 1) Outcome) :=
  (List.replicate 5 (loginCompares ++ loginCounts)).flatten

/-- Five failures one after the other, which lock the account. -/
theorem five_failures_lock :
    ∃ c, Crew.Reach ((watchedAttempts .password wrongLogin fun _ => ()).restrict (leavesRoom .password))
        (fun v l => countsFailures v l = true) (PeriodBegins .password) c ∧
      c.world.1.user.login = ⟨0, some 900⟩ ∧ c.world.2.wrong = 5 ∧
      c.world.2.wrong ≤ Secret.password.maxAttempts ∧ c.world.2.late = false := by
  have hrun : (Crew.runIf
      ((watchedAttempts .password wrongLogin fun _ => ()).restrict (leavesRoom .password))
      countsFailures fiveLogins { world := loginAccount }).map
      (fun c => (c.world.1.user.login, c.world.2.wrong)) = some (⟨0, some 900⟩, 5) := by
    decide +kernel
  obtain ⟨c, hreach, h⟩ := Crew.Reach.runIf_map (P := PeriodBegins .password) (fun _ _ h => h)
    ⟨rfl, rfl, rfl, rfl⟩ hrun
  obtain ⟨hlogin, hwrong⟩ := Prod.mk.inj h
  exact ⟨c, hreach, hlogin, hwrong, lockout_bounds_guessing (fun _ => rfl) hreach⟩

def wrongCode : Fin 6 → Activity := fun _ => .request (.totp (.totp 8 0))

def codeAccount : AuthDb (Fin 6) Unit × Attempts (Fin 6) :=
  ({ user := { email := 1, passwordHash := 2, totpEnabled := true, totpSecretEnc := some 7 }
     bearer := fun _ => [⟨true, false, 300, 0⟩] }, {})

def crowdedCodes : List (Crew.Label (Fin 6) Outcome) :=
  (List.finRange 6).flatMap (fun i => [.start i, .exec i (.choice true), .exec i (.number 0),
    .exec i .done, .exec i .done, .exec i .done]) ++ (List.finRange 6).map fun i => .exec i .done

/-- After five failures a sixth password is compared under the lock; and of six codes at once all are
compared. -/
theorem guesses_beyond_maximum :
    (∃ c, Crew.Reach (watchedAttempts .password wrongLogin fun _ => ()) (fun _ _ => True)
        (PeriodBegins .password) c ∧
      c.world.2.late = true ∧ Secret.password.maxAttempts < c.world.2.wrong) ∧
    ∃ c, Crew.Reach (watchedAttempts .code wrongCode fun _ => ()) (fun _ _ => True)
        (PeriodBegins .code) c ∧
      c.world.1.user.totp = {} ∧ Secret.code.maxAttempts < c.world.2.wrong := by
  constructor
  · have hrun : (Crew.run (watchedAttempts .password wrongLogin fun _ => ())
        (fiveLogins ++ loginCompares) { world := loginAccount }).map
        (fun c => (c.world.2.late, c.world.2.wrong)) = some (true, 6) := by decide +kernel
    obtain ⟨c, hreach, h⟩ := Crew.Reach.run_map (P := PeriodBegins .password)
      ⟨rfl, rfl, rfl, rfl⟩ hrun
    obtain ⟨hlate, hwrong⟩ := Prod.mk.inj h
    exact ⟨c, hreach, hlate, by rw [hwrong]; decide⟩
  · have hrun : (Crew.run (watchedAttempts .code wrongCode fun _ => ()) crowdedCodes
        { world := codeAccount }).map (fun c => (c.world.1.user.totp, c.world.2.wrong)) =
        some ({}, 6) := by decide +kernel
    obtain ⟨c, hreach, h⟩ := Crew.Reach.run_map (P := PeriodBegins .code) ⟨rfl, rfl, rfl, rfl⟩ hrun
    obtain ⟨htotp, hwrong⟩ := Prod.mk.inj h
    exact ⟨c, hreach, htotp, by rw [hwrong]; decide⟩

end Clumoove.Auth
