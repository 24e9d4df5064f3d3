import Clumoove.Sanity.Auth.Frames
import Clumoove.Sanity.Auth.Calls

/-! Somebody who knows the password of an account and reads its mailbox, but has no session and none
of the codes, does not get past the second factor: whatever they and others request, at any number of
places at once. -/

namespace Clumoove.Auth

open Prog AuthDb List

variable {ι κ : Type} [DecidableEq ι] [DecidableEq κ]

/-- A code that is not one of the account's: neither of its secret nor one of its backup codes. -/
def Code.Strange (secret : ℕ) (codes : List ℕ) : Code → Prop
  | .totp s _ => s ≠ secret
  | .backup n => n ∉ codes

def Activity.code : Activity → Option Code
  | .request (.totp code) | .request (.enable2FA code) | .request (.disable2FA code) => some code
  | _ => none

/-- An answer without a session: no refresh token, and no signed token but those of a step on the
way. -/
def Reply.Sessionless (r : Reply) : Prop :=
  r.cookies = [] ∧ ∀ t ∈ r.bearer, requireAuthenticated t = false

def User.Guarded (secret : ℕ) (codes : List ℕ) (u : User) : Prop :=
  u.totpEnabled = true ∧ u.totpSecretEnc = some secret ∧ ∀ n ∈ u.totpBackupCodes, n ∈ codes

section Client

variable (client : κ) (secret : ℕ) (codes : List ℕ)

structure Outside (w : AuthDb ι κ) : Prop where
  rows : EveryRow (User.Guarded secret codes) w
  bearer : ∀ t ∈ w.bearer client, requireAuthenticated t = false
  cookies : w.cookies client = []

/-- What the client's requests do, and what they learn. -/
@[simps] def clientProtocol : Protocol AuthStmt (fun s => Except SqlError s.Val) Unit where
  next _ _ _ := ()
  allowed _ s := s ≠ .disableTOTP ∧ ∀ r, s = .respond r → r.Sessionless
  answers s r :=
    match s, r with
    | .presentToken, .ok t => requireAuthenticated t = false
    | .presentRefreshToken, .ok _ => False
    | .getUser, .ok u => u.Guarded secret codes
    | .getUserByEmail _, .ok u => u.Guarded secret codes
    | .validateTOTP k code, .ok b => k = secret → code.Strange secret codes → b = false
    | .consumeTOTPBackupCode n, .ok b => n ∉ codes → b = false
    | _, _ => True

variable {client secret codes}

/-! The answers that the client gets. -/

@[simp] theorem sessionless_error : (Reply.error status code).Sessionless :=
  ⟨rfl, nofun⟩

@[simp] theorem sessionless_success : Reply.success.Sessionless := ⟨rfl, nofun⟩

@[simp] theorem sessionless_totpRequired {now : ℕ} :
    (Reply.totpRequired (generate2FATempToken u now)).Sessionless := by
  refine ⟨rfl, ?_⟩
  intro t ht
  rw [mem_singleton.1 ht]
  rfl

@[simp] theorem sessionless_mustChange {now : ℕ} :
    (Reply.mustChangePassword (generateMustChangePasswordToken u now)).Sessionless := by
  refine ⟨rfl, ?_⟩
  intro t ht
  rw [mem_singleton.1 ht]
  rfl

theorem authorize_eq_none {now : ℕ}
    (h : requireAuthenticated t = false) : authorize now state t = none := by
  simp [authorize, h]

/-- No token of a step on the way opens a route behind the middleware. -/
theorem follows_behind
    (hok : Q (.ok (.error 401 .unauthorized)) ()) (herror : ∀ e, Q (.error e) ()) :
    Abides (clientProtocol secret codes) (behind authorize handler) Q () := by
  simp [hok, herror]
  intro t ht now u _ c hc
  rw [authorize_eq_none ht] at hc
  cases hc

theorem follows_client (a : Activity)
    (hcode : ∀ code, a.code = some code → code.Strange secret codes) :
    Abides (clientProtocol secret codes) a.program (fun _ _ => True) () := by
  cases a with
  | request q =>
    cases q with
    | login email password =>
      simp
      intro u hu _ _ _ _ htotp
      rw [hu.1] at htotp
      cases htotp
    | totp code =>
      have hstrange := hcode code rfl
      cases code with
      | totp k step =>
        simp
        intro c _ _ _ u hu _ _ _ k' hk'
        cases hu.2.1.symm.trans hk'
        exact fun h => absurd hstrange (h rfl)
      | backup n =>
        simp
        intro c _ _ _ u hu _ _ _ k hk
        cases hu.2.1.symm.trans hk
        exact ⟨fun hn => absurd (hu.2.2 n hn) hstrange, fun h => absurd hstrange (h rfl)⟩
    | changePassword currentPassword newPassword =>
      simp
      intro _ _ _ _ _ _ _ _ _ _ _ u hu htotp
      rw [hu.1] at htotp
      cases htotp
    | setup2FA | enable2FA code | disable2FA code | changeEmail newEmail | fileTicket archive =>
      simp [follows_behind, -behind_eq, -handle2FAEnable_eq, handle2FAEnable]
    | _ => simp
  | _ => simp

/-! Whole runs. -/

variable {i : ι} {s : AuthStmt} {o : Outcome} {r : Except SqlError s.Val} {w w' : AuthDb ι κ}
  {party : ι → κ}

theorem Outside.answers (hw : Outside client secret codes w) (hi : party i = client)
    (hx : AuthDb.run party i s o w = some (r, w')) : (clientProtocol secret codes).answers s r := by
  cases r with
  | error e =>
    cases s <;> trivial
  | ok a =>
    cases s with
    | presentToken =>
      obtain ⟨-, ⟨t, ht, hr⟩ | hr⟩ := Outcome.present_cases hx
      · cases hr
        exact hw.bearer a (hi ▸ ht)
      · cases hr
    | presentRefreshToken =>
      obtain ⟨-, ⟨t, ht, hr⟩ | hr⟩ := Outcome.present_cases hx
      · rw [hi, hw.cookies] at ht
        cases ht
      · cases hr
    | getUser =>
      rcases Outcome.sql_cases hx with ⟨-, hr, -⟩ | hx
      · cases hr
      · cases hx
        exact hw.rows.row i
    | getUserByEmail email =>
      rcases Outcome.sql_cases hx with ⟨-, hr, -⟩ | hx
      · cases hr
      · unfold AuthDb.getUserByEmail at hx
        split_ifs at hx <;> cases hx
        exact hw.rows.row i
    | validateTOTP k code =>
      cases hx
      rintro rfl hcode
      cases code with
      | backup n => rfl
      | totp secret' step => exact decide_eq_false fun hvalid => hcode hvalid.1
    | consumeTOTPBackupCode n =>
      intro hn
      rcases Outcome.sql_cases hx with ⟨-, hr, -⟩ | hx
      · cases hr
      · obtain ⟨b, hb, hr⟩ := written_of_writingIf hx
        cases hr
        cases hb with
        | missed hp => rfl
        | pending hp _ _ _ =>
          exact absurd ((hw.rows.row i).2.2 n (of_decide_eq_true hp).2) hn
        | done hp _ _ =>
          exact absurd ((hw.rows.row i).2.2 n (of_decide_eq_true hp).2) hn
    | _ => trivial

theorem guarded_effect (hs : s ≠ .disableTOTP)
    (heffect : s.effect = some (p, f)) (hp : p u = true) (hu : u.Guarded secret codes) :
    (f u).Guarded secret codes := by
  cases s with
  | disableTOTP => exact absurd rfl hs
  | consumeTOTPBackupCode n =>
    cases heffect
    exact ⟨hu.1, hu.2.1, fun k hk => hu.2.2 k (mem_of_mem_filter hk)⟩
  | setTOTPSecret | enableTOTP =>
    cases heffect
    dsimp only at hp
    rw [hu.1] at hp
    cases hp
  | incrementLoginFailed t | resetLoginFailed | incrementTOTPFailed t | resetTOTPFailed
  | updateLastLoginAt | setPassword hash | setEmail email | suspend | reactivate =>
    cases heffect
    exact hu
  | _ => cases heffect

theorem Outside.run (hw : Outside client secret codes w)
    (hx : AuthDb.run party i s o w = some (r, w')) (hs : s ≠ .disableTOTP)
    (hreply : ∀ reply, s = .respond reply → party i = client → reply.Sessionless) :
    Outside client secret codes w' := by
  have hrows : EveryRow (User.Guarded secret codes) w' :=
    run_everyRow hx (fun p f heffect u hp hu => guarded_effect hs heffect hp hu) hw.rows
  by_cases hr : ∃ reply, s = .respond reply
  · obtain ⟨reply, rfl⟩ := hr
    cases hx
    by_cases hi : client = party i
    · obtain ⟨hcookies, hbearer⟩ := hreply reply rfl hi.symm
      refine ⟨hrows, ?_, ?_⟩
      · intro t ht
        simp only [AuthDb.respond, if_pos hi] at ht
        rcases mem_append.1 ht with ht | ht
        · exact hbearer t ht
        · exact hw.bearer t ht
      · simp only [AuthDb.respond, if_pos hi, hcookies, hw.cookies, append_nil]
    · refine ⟨hrows, ?_, ?_⟩
      · simpa [AuthDb.respond, hi] using hw.bearer
      · simpa [AuthDb.respond, hi] using hw.cookies
  · have hheld := run_held hx fun reply h => hr ⟨reply, h⟩
    obtain ⟨hbearer, hcookies⟩ := Prod.mk.inj hheld
    exact ⟨hrows, hbearer ▸ hw.bearer, hcookies ▸ hw.cookies⟩

/-- Nobody but the client tries to disable the second factor: it stays enabled as far as the others
are concerned. -/
def keepsSecondFactor (client : κ) (party : ι → κ) (i : ι) (s : AuthStmt) (_ : AuthDb ι κ) : Bool :=
  s = .disableTOTP → party i = client

def outsideSession {activity : ι → Activity} (hcodes : ∀ i, party i = client → ∀ code,
    (activity i).code = some code → code.Strange secret codes) :
    Crew.Session ((authCrew activity party).restrict (keepsSecondFactor client party))
      (fun _ _ => True) Unit where
  T i :=
    { next := fun _ _ _ => ()
      allowed := fun u s => party i = client → (clientProtocol secret codes).allowed u s
      answers := fun s r => party i = client → (clientProtocol secret codes).answers s r }
  state _ _ := ()
  idle _ _ := True
  inv := Outside client secret codes
  program i u _ := by
    by_cases hi : party i = client
    · simp only [hi, forall_const]
      exact Follows.bind ((follows_client (activity i) (hcodes i hi)).follows.mono fun _ _ _ => trivial)
    · exact Follows.of_allowed (fun _ _ h => absurd h hi) _ u
  answers _ hw _ hx hi := hw.answers hi (Crew.Parts.exec_restrict.1 hx).2
  next _ := ⟨rfl, fun _ _ => rfl⟩
  keep {i s _ _ _ _} _ hw hallowed _ hx := by
    obtain ⟨hmay, hx⟩ := Crew.Parts.exec_restrict.1 hx
    refine hw.run hx ?_ fun reply hs hi => (hallowed hi).2 reply hs
    intro hs
    have hi : party i = client := of_decide_eq_true hmay hs
    exact (hallowed hi).1 hs
  finish _ _ _ := trivial
  stop _ _ _ := trivial
  others _ _ _ _ := rfl
  leave _ _ _ hw := ⟨hw.rows.endTx, hw.bearer, hw.cookies⟩

def SecondFactorEnabled (client : κ) (secret : ℕ) (codes : List ℕ) (w : AuthDb ι κ) : Prop :=
  w.user.Guarded secret codes ∧ w.txs = [] ∧ w.bearer client = [] ∧ w.cookies client = []

omit [DecidableEq κ] in
theorem SecondFactorEnabled.outside (hw : SecondFactorEnabled client secret codes w) :
    Outside client secret codes w := by
  obtain ⟨huser, htxs, hbearer, hcookies⟩ := hw
  refine ⟨⟨huser, ?_⟩, ?_, hcookies⟩
  · intro j t u ht
    rw [AuthDb.tx, htxs] at ht
    cases ht
  · rw [hbearer]
    intro _ h
    cases h

end Client

/-- Whatever the client requests, and whatever others do meanwhile: no token they ever hold passes
the middleware, at any time and in any state of the account, and they never hold a refresh token. And
no token of a step on the way is accepted anywhere but in its own step. -/
theorem second_factor_not_bypassed {client : κ} {secret : ℕ} {codes : List ℕ} {party : ι → κ}
    {activity : ι → Activity} (hcodes : ∀ i, party i = client → ∀ code,
      (activity i).code = some code → code.Strange secret codes)
    {c : Crew.Config ι AuthStmt (fun s => Except SqlError s.Val) (AuthDb ι κ)}
    (hreach : Crew.Reach ((authCrew activity party).restrict (keepsSecondFactor client party))
      (fun _ _ => True) (SecondFactorEnabled client secret codes) c) :
    (∀ t ∈ c.world.bearer client, ∀ now state, authorize now state t = none) ∧
      c.world.cookies client = [] ∧ ∀ u issued now state,
        authorize now state (generate2FATempToken u issued) = none ∧
        authorizeMustChange now state (generate2FATempToken u issued) = none ∧
        authorize now state (generateMustChangePasswordToken u issued) = none ∧
        validate2FATempToken now (generateMustChangePasswordToken u issued) = false := by
  have hholds := (outsideSession hcodes).sound (fun _ => SecondFactorEnabled.outside)
    (fun _ _ _ => trivial) hreach
  have hw : Outside client secret codes c.world := hholds.inv
  refine ⟨fun t ht now state => authorize_eq_none (hw.bearer t ht), hw.cookies, ?_⟩
  intro u issued now state
  refine ⟨authorize_eq_none rfl, ?_, authorize_eq_none rfl, ?_⟩
  · simp [authorizeMustChange, generate2FATempToken, generateToken]
  · simp [validate2FATempToken, generateMustChangePasswordToken, generateToken]

def guessing : Fin 2 → Activity
  | 0 => .request (.login 1 2)
  | 1 => .request (.totp (.totp 8 0))

def guardedAccount : AuthDb (Fin 2) Unit where
  user := { email := 1, passwordHash := 2, totpEnabled := true, totpSecretEnc := some 7 }

/-- After the guess the client still has the token of the first step only. -/
theorem guess_gets_no_session :
    ∃ c, Crew.Reach ((authCrew guessing fun _ => ()).restrict (keepsSecondFactor () fun _ => ()))
        (fun _ _ => True) (SecondFactorEnabled () 7 []) c ∧
      c.world.bearer () = [⟨true, false, 300, 0⟩] ∧ c.world.user.totp.failedAttempts = 1 ∧
      authorize 0 c.world.user ⟨true, false, 300, 0⟩ = none := by
  have hrun : (Crew.run ((authCrew guessing fun _ => ()).restrict (keepsSecondFactor () fun _ => ()))
      ([.start 0, .exec 0 (.choice true)] ++ List.replicate 6 (.exec 0 .done) ++
        [.start 1, .exec 1 (.choice true), .exec 1 (.number 0)] ++ List.replicate 7 (.exec 1 .done))
      { world := guardedAccount }).map
      (fun c => (c.world.bearer (), c.world.user.totp.failedAttempts)) =
      some ([⟨true, false, 300, 0⟩], 1) := by decide +kernel
  obtain ⟨c, hreach, h⟩ := Crew.Reach.run_map (P := SecondFactorEnabled () 7 [])
    ⟨⟨rfl, rfl, fun _ h => h⟩, rfl, rfl, rfl⟩ hrun
  obtain ⟨hbearer, hfailed⟩ := Prod.mk.inj h
  have hcodes : ∀ i, (fun _ : Fin 2 => ()) i = () → ∀ code, (guessing i).code = some code →
      code.Strange 7 [] := by
    intro i _ code hcode
    obtain rfl | rfl : i = 0 ∨ i = 1 := by omega
    · cases hcode
    · cases hcode
      exact (by decide : (8 : ℕ) ≠ 7)
  have hnone := (second_factor_not_bypassed hcodes hreach).1 ⟨true, false, 300, 0⟩
    (by rw [hbearer]; exact mem_singleton_self _)
  exact ⟨c, hreach, hbearer, hfailed, hnone 0 c.world.user⟩

end Clumoove.Auth
