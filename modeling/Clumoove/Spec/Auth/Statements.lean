import Clumoove.Spec.Auth.Account

/-! The calls that the handlers of the API make on an account, and what they do. A request presents
what the one who makes it has been given before, and ends with an answer to them. -/

namespace Clumoove.Auth

inductive ErrorCode
  | rateLimited
  | credentialsInvalid
  | userDisabled
  | internalError
  | unauthorized
  | passwordInvalid
  | totpSessionInvalid
  | totpNotEnabled
  | totpInvalidCode
  | totpAlreadyEnabled
  | totpNoPendingSetup
  | refreshTokenMissing
  | refreshTokenInvalid
  | resetTokenInvalid
  | emailChangeTokenInvalid
  | emailUnchanged
  | emailAlreadyExists
  | mailNotConfigured
  | lastAdmin
  | filesDownloadTicketInvalid
  deriving DecidableEq

inductive Reply
  | error (status : ℕ) (code : ErrorCode)
  | success
  | totpRequired (tempSession : Claims)
  | mustChangePassword (tempSession : Claims)
  | tokens (accessToken : Claims) (refreshToken : ℕ)
  | provisioning (secret : ℕ)
  | backupCodes (codes : List ℕ)
  deriving DecidableEq

def Reply.bearer : Reply → List Claims
  | .totpRequired c | .mustChangePassword c | .tokens c _ => [c]
  | _ => []

def Reply.cookies : Reply → List ℕ
  | .tokens _ id => [id]
  | _ => []

inductive AuthStmt
  | allow
  | choice
  | now
  | tick
  | presentToken
  | presentRefreshToken
  | presentMailedToken
  | presentTicket
  | respond (r : Reply)
  | checkPasswordHash (password hash : ℕ)
  | validateTOTP (secret : ℕ) (code : Code)
  | generateSecret
  | generateBackupCodes
  | getUserByEmail (email : ℕ)
  | getUser
  | incrementLoginFailed (lockUntil : ℕ)
  | resetLoginFailed
  | incrementTOTPFailed (lockUntil : ℕ)
  | resetTOTPFailed
  | consumeTOTPBackupCode (code : ℕ)
  | updateLastLoginAt
  | setPassword (hash : ℕ)
  | setTOTPSecret (secret : ℕ)
  | enableTOTP (secret : ℕ) (codes : List ℕ)
  | disableTOTP
  | setEmail (email : ℕ)
  | suspend
  | reactivate
  | lockUser
  | storeRefreshToken (expiresAt origin : ℕ)
  | selectRefreshTokens
  | deleteRefreshTokens (ids : List ℕ)
  | consumeRefreshToken (id : ℕ)
  | createPasswordResetToken (expiresAt : ℕ)
  | claimPasswordResetToken (id : ℕ)
  | deleteEmailChangeTokens
  | createEmailChangeToken (newEmail expiresAt : ℕ)
  | selectEmailChangeToken (id : ℕ)
  | useEmailChangeToken (id : ℕ)
  | deleteExpiredPasswordResetTokens
  | deleteExpiredEmailChangeTokens
  | begin
  | commit
  | rollback
  | createTicket (archive : Bool) (expiresAt : ℕ)
  | redeemTicket (archive : Bool) (id : ℕ)
  deriving DecidableEq

abbrev AuthStmt.Val : AuthStmt → Type
  | .allow | .choice | .checkPasswordHash _ _ | .validateTOTP _ _ | .incrementLoginFailed _
  | .incrementTOTPFailed _ | .consumeTOTPBackupCode _ | .setTOTPSecret _ | .enableTOTP _ _
  | .lockUser => Bool
  | .now | .presentRefreshToken | .presentMailedToken | .presentTicket | .generateSecret
  | .storeRefreshToken _ _ | .selectEmailChangeToken _ | .setPassword _ => ℕ
  | .presentToken => Claims
  | .generateBackupCodes | .selectRefreshTokens => List ℕ
  | .getUserByEmail _ | .getUser => User
  | .consumeRefreshToken _ => RefreshToken
  | _ => Unit

/-- What comes about at a call: it goes through or it does not, or the surroundings decide. -/
inductive Outcome
  | done
  | unavailable
  | number (n : ℕ)
  | choice (b : Bool)
  deriving DecidableEq

def backupCodeCount : ℕ := 10

section Exec

variable {ι κ : Type} [DecidableEq ι] [DecidableEq κ] (party : ι → κ) (i : ι)

def Outcome.sql {α : Type} (o : Outcome) (x : AuthSql ι κ α) : AuthSql ι κ α := fun w =>
  match o with
  | .done => x w
  | .unavailable => some (.error .unavailable, w)
  | _ => none

def Outcome.present {α : Type} (o : Outcome) (held : List α) : AuthSql ι κ α := fun w =>
  match o with
  | .number n => (held[n]?).map fun a => (.ok a, w)
  | .unavailable => some (.error .noRows, w)
  | _ => none

def Outcome.decide (o : Outcome) : AuthSql ι κ Bool := fun w =>
  match o with
  | .choice b => some (.ok b, w)
  | _ => none

/-- The one who has made the request gets what is in the answer. -/
def AuthDb.respond (r : Reply) (w : AuthDb ι κ) : AuthDb ι κ :=
  { w with
    bearer := fun k => if k = party i then r.bearer ++ w.bearer k else w.bearer k
    cookies := fun k => if k = party i then r.cookies ++ w.cookies k else w.cookies k }

def AuthDb.fresh (n : ℕ) (w : AuthDb ι κ) : AuthDb ι κ := { w with nextID := w.nextID + n }

open AuthDb

def AuthDb.run : (s : AuthStmt) → Outcome → AuthSql ι κ s.Val
  | .allow, o => o.decide
  | .choice, o => o.decide
  | .now, _ => fun w => some (.ok w.now, w)
  | .tick, .number n => fun w => some (.ok (), { w with now := w.now + n })
  | .tick, _ => fun _ => none
  | .presentToken, o => fun w => o.present (w.bearer (party i)) w
  | .presentRefreshToken, o => fun w => o.present (w.cookies (party i)) w
  -- whoever reads the mailbox or guesses
  | .presentMailedToken, .number n => fun w => some (.ok n, w)
  | .presentMailedToken, _ => fun _ => none
  | .presentTicket, .number n => fun w => some (.ok n, w)
  | .presentTicket, _ => fun _ => none
  | .respond r, _ => fun w => some (.ok (), w.respond party i r)
  | .checkPasswordHash password hash, _ => fun w => some (.ok (password = hash), w)
  | .validateTOTP secret code, _ => fun w => some (.ok (validate secret code w.now), w)
  | .generateSecret, _ => fun w => some (.ok w.nextID, w.fresh 1)
  | .generateBackupCodes, _ => fun w =>
    some (.ok ((List.range backupCodeCount).map (w.nextID + ·)), w.fresh backupCodeCount)
  | .getUserByEmail email, o => o.sql (getUserByEmail i email)
  | .getUser, o => o.sql (getUser i)
  | .incrementLoginFailed lockUntil, o => o.sql (incrementLoginFailed i lockUntil)
  | .resetLoginFailed, o => o.sql (resetLoginFailed i)
  | .incrementTOTPFailed lockUntil, o => o.sql (incrementTOTPFailed i lockUntil)
  | .resetTOTPFailed, o => o.sql (resetTOTPFailed i)
  | .consumeTOTPBackupCode code, o => o.sql (consumeTOTPBackupCode i code)
  | .updateLastLoginAt, o => o.sql (updateLastLoginAt i)
  | .setPassword hash, o => o.sql (setPassword i hash)
  | .setTOTPSecret secret, o => o.sql (setTOTPSecret i secret)
  | .enableTOTP secret codes, o => o.sql (enableTOTP i secret codes)
  | .disableTOTP, o => o.sql (disableTOTP i)
  | .setEmail email, o => o.sql (setEmail i email)
  | .suspend, o => o.sql (suspend i)
  | .reactivate, o => o.sql (reactivate i)
  | .lockUser, o => o.sql (lockUser i)
  | .storeRefreshToken expiresAt origin, o => o.sql (storeRefreshToken i expiresAt origin)
  | .selectRefreshTokens, o => o.sql (selectRefreshTokens i)
  | .deleteRefreshTokens ids, o => o.sql (deleteRefreshTokens i ids)
  | .consumeRefreshToken id, o => o.sql (consumeRefreshToken i id)
  | .createPasswordResetToken expiresAt, o => o.sql (createPasswordResetToken expiresAt)
  | .claimPasswordResetToken id, o => o.sql (claimPasswordResetToken i id)
  | .deleteEmailChangeTokens, o => o.sql (deleteEmailChangeTokens i)
  | .createEmailChangeToken newEmail expiresAt, o => o.sql (createEmailChangeToken newEmail expiresAt)
  | .selectEmailChangeToken id, o => o.sql (selectEmailChangeToken i id)
  | .useEmailChangeToken id, o => o.sql (useEmailChangeToken i id)
  | .deleteExpiredPasswordResetTokens, o => o.sql (deleteExpiredPasswordResetTokens i)
  | .deleteExpiredEmailChangeTokens, o => o.sql (deleteExpiredEmailChangeTokens i)
  | .begin, o => o.sql (begin i)
  | .commit, o => o.sql (commit i)
  | .rollback, o => o.sql (rollback i)
  | .createTicket archive expiresAt, o => o.sql (createTicket archive expiresAt)
  | .redeemTicket archive id, o => o.sql (redeemTicket archive id)

end Exec

end Clumoove.Auth
