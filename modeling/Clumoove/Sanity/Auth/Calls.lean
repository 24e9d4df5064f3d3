import Clumoove.Spec.Auth.Handlers

/-! The requests are executed by `simp`, call by call, and which calls each of them makes. -/

namespace Clumoove.Auth

open Prog

def AuthStmt.authorizes : AuthStmt → Bool
  | presentToken | now | getUser => true
  | _ => false

def AuthStmt.issues : AuthStmt → Bool
  | updateLastLoginAt | now | storeRefreshToken _ _ => true
  | _ => false

def AuthStmt.checks : AuthStmt → Bool
  | now | validateTOTP _ _ | resetTOTPFailed | consumeTOTPBackupCode _ | incrementTOTPFailed _ => true
  | _ => false

def AuthStmt.transacts : AuthStmt → Bool
  | begin | commit | rollback | selectRefreshTokens | deleteRefreshTokens _ => true
  | _ => false

def Request.calls : Request → AuthStmt → Bool
  | login _ _, .allow | login _ _, .getUserByEmail _ | login _ _, .checkPasswordHash _ _
  | login _ _, .resetLoginFailed | login _ _, .incrementLoginFailed _ => true
  | login _ _, s => s.issues
  | totp _, .allow | totp _, .presentToken | totp _, .getUser => true
  | totp _, s => s.checks || s.issues
  | refresh, .presentRefreshToken | refresh, .consumeRefreshToken _ | refresh, .getUser
  | refresh, .lockUser | refresh, .now | refresh, .storeRefreshToken _ _ => true
  | refresh, s => s.transacts
  | logout, .presentRefreshToken | logout, .deleteRefreshTokens _ => true
  | setup2FA, .generateSecret | setup2FA, .setTOTPSecret _ => true
  | setup2FA, s => s.authorizes
  | enable2FA _, .validateTOTP _ _ | enable2FA _, .generateBackupCodes
  | enable2FA _, .enableTOTP _ _ => true
  | enable2FA _, s => s.authorizes
  | disable2FA _, .disableTOTP => true
  | disable2FA _, s => s.authorizes || s.checks
  | changePassword _ _, .checkPasswordHash _ _ | changePassword _ _, .setPassword _
  | changePassword _ _, .selectRefreshTokens | changePassword _ _, .deleteRefreshTokens _ => true
  | changePassword _ _, s => s.authorizes || s.issues
  | forgotPassword _, .allow | forgotPassword _, .choice | forgotPassword _, .getUserByEmail _
  | forgotPassword _, .now | forgotPassword _, .createPasswordResetToken _ => true
  | resetPassword _, .allow | resetPassword _, .presentMailedToken
  | resetPassword _, .claimPasswordResetToken _ | resetPassword _, .setPassword _
  | resetPassword _, .resetLoginFailed => true
  | resetPassword _, s => s.transacts
  | changeEmail _, .allow | changeEmail _, .choice | changeEmail _, .deleteEmailChangeTokens
  | changeEmail _, .createEmailChangeToken _ _ => true
  | changeEmail _, s => s.authorizes
  | confirmEmailChange, .allow | confirmEmailChange, .presentMailedToken | confirmEmailChange, .choice
  | confirmEmailChange, .selectEmailChangeToken _ | confirmEmailChange, .useEmailChangeToken _
  | confirmEmailChange, .setEmail _ => true
  | confirmEmailChange, s => s.transacts
  | suspendUser, .lockUser | suspendUser, .choice | suspendUser, .suspend => true
  | suspendUser, s => s.transacts
  | reactivateUser, .reactivate => true
  | fileTicket _, .createTicket _ _ => true
  | fileTicket _, s => s.authorizes
  | fileDownload _, .allow | fileDownload _, .presentTicket | fileDownload _, .redeemTicket _ _ => true
  | _, _ => false

def Activity.calls : Activity → AuthStmt → Bool
  | request _, .respond _ => true
  | request q, s => q.calls s
  | cleanUp, .deleteExpiredPasswordResetTokens | cleanUp, .deleteExpiredEmailChangeTokens => true
  | clock, .tick => true
  | _, _ => false

/-! Execution. -/

attribute [simp] call tryCall inTx deleteAllRefreshTokens issueTokens loginFailed loginSucceeded handleLogin
  rotate handleRefresh handleLogout totpFailed handleTOTP consumeTOTPBackupCode handle2FASetup enableWith
  handle2FADisable
  rotatedSession changePassword handleChangePassword handleForgotPassword claimPasswordResetToken
  handleResetPassword handleChangeEmail claimEmailChangeToken handleConfirmEmailChange suspendUser
  handleAdminSuspendUser handleAdminReactivateUser handleFileTicket handleFileDownload Request.handler serve
  Activity.program

@[simp] theorem SqlError.forall_iff {P : SqlError → Prop} : (∀ e, P e) ↔ P .noRows ∧ P .unavailable := by
  refine ⟨fun h => ⟨h _, h _⟩, fun h e => ?_⟩
  cases e with
  | noRows => exact h.1
  | unavailable => exact h.2

section Execution

variable {S : Type} {T : Protocol AuthStmt (fun s => Except SqlError s.Val) S} {s : S}

@[simp] theorem abides_elim : Abides T (o.elim x f) Q s ↔
      (o = none → Abides T x Q s) ∧ ∀ a, o = some a → Abides T (f a) Q s := by
  cases o <;> simp

@[simp] theorem behind_eq :
    behind accept handler = (do
      match ← attempt (call .presentToken) with
      | .error _ => return .error 401 .unauthorized
      | .ok c =>
        let now ← call .now
        match ← attempt (call .getUser) with
        | .error _ => return .error 401 .unauthorized
        | .ok state => (accept now state c).elim (pure (.error 401 .unauthorized)) handler) := by
  refine congrArg (attempt (call .presentToken) >>= ·) (funext fun r => ?_)
  cases r with
  | error e => rfl
  | ok c =>
    refine congrArg (call .now >>= ·) (funext fun now => ?_)
    refine congrArg (attempt (call .getUser) >>= ·) (funext fun r => ?_)
    cases r with
    | error e => rfl
    | ok state => cases h : accept now state c <;> simp [h]

@[simp] theorem checkCode_eq {u : User} {code : Code} {status : ℕ} {accepted : AuthWork Reply} :
    checkCode u code status accepted = (do
      let now ← call .now
      if u.totp.inForce now then return .error 429 .rateLimited
      else u.totpSecretEnc.elim (pure (.error 500 .internalError)) fun secret => do
        if ← call (.validateTOTP secret code) then
          call .resetTOTPFailed
          accepted
        else if ← consumeTOTPBackupCode u code then accepted
        else totpFailed status) := by
  unfold checkCode
  cases u.totpSecretEnc <;> rfl

@[simp] theorem handle2FAEnable_eq : handle2FAEnable code = behind authorize (fun _ => do
    let u ← call .getUser if u.totpEnabled then return .error 409 .totpAlreadyEnabled
    else u.totpSecretEnc.elim (pure (.error 400 .totpNoPendingSetup)) fun secret => do
      if ← call (.validateTOTP secret code) then enableWith secret
      else return .error 400 .totpInvalidCode) := by
  refine congrArg (behind authorize) (funext fun _ => ?_)
  refine congrArg (call .getUser >>= ·) (funext fun u => ?_)
  cases u.totpSecretEnc <;> rfl

end Execution

end Clumoove.Auth
