import Clumoove.Spec.Auth.Statements

/-! The handlers of the API that deal with one account, as programs of calls, and the requests that
anybody may make. What a handler does not answer itself ends in an internal error. -/

namespace Clumoove.Auth

open Prog

abbrev AuthWork := Fallible AuthStmt AuthStmt.Val SqlError

def call (s : AuthStmt) : AuthWork s.Val := perform s

def tryCall (s : AuthStmt) : AuthWork Unit := do
  let _ ← attempt (call s)

def inTx {α : Type} (body : AuthWork α) : AuthWork α := do
  call .begin
  let r ← attempt body
  tryCall .rollback
  match r with
  | .ok a => return a
  | .error e => throw e

def deleteAllRefreshTokens : AuthWork Unit := do
  call (.deleteRefreshTokens (← call .selectRefreshTokens))

/-! Signed tokens. -/

def accessTokenTTL : ℕ := 900
def tempTokenTTL : ℕ := 300
def leeway : ℕ := 30
def refreshTokenTTL : ℕ := 604800
def mailedTokenTTL : ℕ := 14400
def fileTicketTTL : ℕ := 60

def generateToken (u : User) (now ttl : ℕ) (twoFA mustChange : Bool) : Claims where
  twoFAPending := twoFA
  mustChangePassword := mustChange
  expiresAt := now + ttl
  generation := u.generation

def generateAccessToken (u : User) (now : ℕ) : Claims :=
  generateToken u now accessTokenTTL false u.mustChangePassword

def generate2FATempToken (u : User) (now : ℕ) : Claims := generateToken u now tempTokenTTL true false

def generateMustChangePasswordToken (u : User) (now : ℕ) : Claims :=
  generateToken u now tempTokenTTL false true

def validateToken (now : ℕ) (c : Claims) : Bool := now < c.expiresAt + leeway

def validate2FATempToken (now : ℕ) (c : Claims) : Bool := validateToken now c && c.twoFAPending

def requireAuthenticated (c : Claims) : Bool := !c.twoFAPending && !c.mustChangePassword

def refreshClaimsFromAuthState (c : Claims) (state : User) : Option Claims :=
  if state.active then
    some { c with mustChangePassword := c.mustChangePassword || state.mustChangePassword }
  else none

/-- `AuthMiddleware` for a token, at a time and in a state of the account. -/
def authorize (now : ℕ) (state : User) (c : Claims) : Option Claims :=
  if validateToken now c && requireAuthenticated c then
    (refreshClaimsFromAuthState c state).filter requireAuthenticated
  else none

def authorizeMustChange (now : ℕ) (state : User) (c : Claims) : Option Claims :=
  if validateToken now c && !c.twoFAPending then
    (refreshClaimsFromAuthState c state).filter fun _ => c.mustChangePassword = state.mustChangePassword
  else none

def behind (accept : ℕ → User → Claims → Option Claims) (handler : Claims → AuthWork Reply) :
    AuthWork Reply := do
  match ← attempt (call .presentToken) with
  | .error _ => return .error 401 .unauthorized
  | .ok c =>
    let now ← call .now
    match ← attempt (call .getUser) with
    | .error _ => return .error 401 .unauthorized
    | .ok state =>
      match accept now state c with
      | none => return .error 401 .unauthorized
      | some claims => handler claims

/-! Sessions. -/

/-- `origin` is the observer's note that goes with the token. -/
def issueTokens (u : User) (origin : ℕ) : AuthWork Reply := do
  tryCall .updateLastLoginAt
  let now ← call .now
  let id ← call (.storeRefreshToken (now + refreshTokenTTL) origin)
  return .tokens (generateAccessToken u now) id

def loginFailed : AuthWork Reply := do
  let now ← call .now
  match ← attempt (call (.incrementLoginFailed (now + loginLockDuration))) with
  | .ok true => return .error 429 .rateLimited
  | _ => return .error 401 .credentialsInvalid

def loginSucceeded (u : User) : AuthWork Reply := do
  tryCall .resetLoginFailed
  let now ← call .now
  if u.mustChangePassword then
    return .mustChangePassword (generateMustChangePasswordToken u now)
  else if u.totpEnabled then return .totpRequired (generate2FATempToken u now)
  else issueTokens u u.generation

def handleLogin (email password : ℕ) : AuthWork Reply := do
  if ← call .allow then
    match ← attempt (call (.getUserByEmail email)) with
    | .error .noRows => return .error 401 .credentialsInvalid
    | .error .unavailable => return .error 500 .internalError
    | .ok u =>
      -- the password is compared before anything else is looked at
      let passwordValid ← call (.checkPasswordHash password u.passwordHash)
      let now ← call .now
      if ¬ u.active then return .error 403 .userDisabled
      else if u.login.inForce now then return .error 429 .rateLimited
      else if passwordValid then loginSucceeded u
      else loginFailed
  else return .error 429 .rateLimited

def rotate (old : RefreshToken) : AuthWork Reply := do
  let u ← call .getUser
  if ← call .lockUser then
    let now ← call .now
    let id ← call (.storeRefreshToken (now + refreshTokenTTL) old.origin)
    call .commit
    return .tokens (generateAccessToken u (← call .now)) id
  else
    deleteAllRefreshTokens
    call .commit
    return .error 403 .userDisabled

def handleRefresh : AuthWork Reply := do
  match ← attempt (call .presentRefreshToken) with
  | .error _ => return .error 401 .refreshTokenMissing
  | .ok id => inTx do
    match ← attempt (call (.consumeRefreshToken id)) with
    | .error .noRows => return .error 401 .refreshTokenInvalid
    | .error .unavailable => return .error 500 .internalError
    | .ok old => rotate old

def handleLogout : AuthWork Reply := do
  match ← attempt (call .presentRefreshToken) with
  | .error _ => return .success
  | .ok id =>
    tryCall (.deleteRefreshTokens [id])
    return .success

/-! The second factor. -/

def consumeTOTPBackupCode (u : User) : Code → AuthWork Bool
  | .backup n => if n ∈ u.totpBackupCodes then call (.consumeTOTPBackupCode n) else return false
  | .totp _ _ => return false

def totpFailed (status : ℕ) : AuthWork Reply := do
  let now ← call .now
  if ← call (.incrementTOTPFailed (now + totpLockDuration)) then return .error 429 .rateLimited
  else return .error status .totpInvalidCode

/-- The check of a code that `handleTOTP` and `handle2FADisable` have in common. -/
def checkCode (u : User) (code : Code) (status : ℕ) (accepted : AuthWork Reply) : AuthWork Reply := do
  let now ← call .now
  if u.totp.inForce now then return .error 429 .rateLimited
  else match u.totpSecretEnc with
    | none => return .error 500 .internalError
    | some secret =>
      if ← call (.validateTOTP secret code) then
        call .resetTOTPFailed
        accepted
      else if ← consumeTOTPBackupCode u code then accepted
      else totpFailed status

def handleTOTP (code : Code) : AuthWork Reply := do
  if ← call .allow then
    match ← attempt (call .presentToken) with
    | .error _ => return .error 401 .totpSessionInvalid
    | .ok claims =>
      let now ← call .now
      if validate2FATempToken now claims then
        let u ← call .getUser
        if u.totpEnabled then
          checkCode u code 401 do
            if u.mustChangePassword then
              return .mustChangePassword (generateMustChangePasswordToken u (← call .now))
            else issueTokens u claims.generation
        else return .error 401 .totpNotEnabled
      else return .error 401 .totpSessionInvalid
  else return .error 429 .rateLimited

def handle2FASetup : AuthWork Reply := behind authorize fun _ => do
  let u ← call .getUser
  if u.totpEnabled then return .error 409 .totpAlreadyEnabled
  else
    let secret ← call .generateSecret
    if ← call (.setTOTPSecret secret) then return .provisioning secret
    else return .error 409 .totpAlreadyEnabled

def enableWith (secret : ℕ) : AuthWork Reply := do
  let codes ← call .generateBackupCodes
  if ← call (.enableTOTP secret codes) then return .backupCodes codes
  else
    let latest ← call .getUser
    if latest.totpEnabled then return .error 409 .totpAlreadyEnabled
    else return .error 409 .totpNoPendingSetup

def handle2FAEnable (code : Code) : AuthWork Reply := behind authorize fun _ => do
  let u ← call .getUser
  if u.totpEnabled then return .error 409 .totpAlreadyEnabled
  else match u.totpSecretEnc with
    | none => return .error 400 .totpNoPendingSetup
    | some secret =>
      if ← call (.validateTOTP secret code) then enableWith secret
      else return .error 400 .totpInvalidCode

def handle2FADisable (code : Code) : AuthWork Reply := behind authorize fun _ => do
  let u ← call .getUser
  if u.totpEnabled then
    checkCode u code 400 do
      call .disableTOTP
      return .success
  else return .error 400 .totpNotEnabled

/-! Passwords and addresses. -/

/-- The end of a forced change. The observer counts the session to the generation of the new
password. -/
def rotatedSession (generation : ℕ) : AuthWork Reply := do
  let u ← call .getUser
  let rotated := { u with mustChangePassword := false, generation }
  if rotated.totpEnabled then return .totpRequired (generate2FATempToken rotated (← call .now))
  else issueTokens rotated generation

def changePassword (mustChange : Bool) (newPassword : ℕ) : AuthWork Reply := do
  let generation ← call (.setPassword newPassword)
  let _ ← attempt deleteAllRefreshTokens
  if mustChange then rotatedSession generation
  else return .success

def handleChangePassword (currentPassword newPassword : ℕ) : AuthWork Reply :=
  behind authorizeMustChange fun claims => do
    let u ← call .getUser
    if claims.mustChangePassword then changePassword true newPassword
    else if ← call (.checkPasswordHash currentPassword u.passwordHash) then
      changePassword false newPassword
    else return .error 401 .passwordInvalid

def handleForgotPassword (email : ℕ) : AuthWork Reply := do
  if ← call .allow then
    -- a mail server is configured
    if ← call .choice then
      match ← attempt (call (.getUserByEmail email)) with
      | .error _ => return .success
      | .ok _ =>
        let now ← call .now
        tryCall (.createPasswordResetToken (now + mailedTokenTTL))
        return .success
    else return .success
  else return .error 429 .rateLimited

def claimPasswordResetToken (id newPassword : ℕ) : AuthWork Unit := inTx do
  call (.claimPasswordResetToken id)
  let _ ← call (.setPassword newPassword)
  deleteAllRefreshTokens
  call .commit

def handleResetPassword (newPassword : ℕ) : AuthWork Reply := do
  if ← call .allow then
    let id ← call .presentMailedToken
    match ← attempt (claimPasswordResetToken id newPassword) with
    | .error .noRows => return .error 400 .resetTokenInvalid
    | .error .unavailable => return .error 500 .internalError
    | .ok _ =>
      tryCall .resetLoginFailed
      return .success
  else return .error 429 .rateLimited

def handleChangeEmail (newEmail : ℕ) : AuthWork Reply := behind authorize fun _ => do
  if ← call .allow then
    let u ← call .getUser
    if newEmail = u.email then return .error 400 .emailUnchanged
    -- the address belongs to another account
    else if ← call .choice then return .error 409 .emailAlreadyExists
    else if ← call .choice then
      let now ← call .now
      call .deleteEmailChangeTokens
      call (.createEmailChangeToken newEmail (now + mailedTokenTTL))
      return .success
    else return .error 400 .mailNotConfigured
  else return .error 429 .rateLimited

def claimEmailChangeToken (id : ℕ) : AuthWork Bool := inTx do
  let newEmail ← call (.selectEmailChangeToken id)
  if ← call .choice then return false
  else
    call (.useEmailChangeToken id)
    call (.setEmail newEmail)
    deleteAllRefreshTokens
    call .commit
    return true

def handleConfirmEmailChange : AuthWork Reply := do
  if ← call .allow then
    let id ← call .presentMailedToken
    match ← attempt (claimEmailChangeToken id) with
    | .error .noRows => return .error 400 .emailChangeTokenInvalid
    | .error .unavailable => return .error 500 .internalError
    | .ok false => return .error 409 .emailAlreadyExists
    | .ok true =>
      let _ ← attempt deleteAllRefreshTokens
      return .success
  else return .error 429 .rateLimited

/-! Suspension, tickets and the clean-up. -/

/-- `SuspendUser` as far as it concerns the account itself, and whether it was allowed. -/
def suspendUser : AuthWork Bool := inTx do
  let _ ← call .lockUser
  -- the last active administrator stays
  if ← call .choice then return false
  else
    call .suspend
    deleteAllRefreshTokens
    call .commit
    return true

def handleAdminSuspendUser : AuthWork Reply := do
  if ← suspendUser then return .success else return .error 409 .lastAdmin

def handleAdminReactivateUser : AuthWork Reply := do
  call .reactivate
  return .success

/-- `handleFileDownloadTicket` and `handleFileArchiveTicket`, once the files are found. -/
def handleFileTicket (archive : Bool) : AuthWork Reply := behind authorize fun _ => do
  let now ← call .now
  call (.createTicket archive (now + fileTicketTTL))
  return .success

def handleFileDownload (archive : Bool) : AuthWork Reply := do
  if ← call .allow then
    let id ← call .presentTicket
    match ← attempt (call (.redeemTicket archive id)) with
    | .error _ => return .error 404 .filesDownloadTicketInvalid
    | .ok _ => return .success
  else return .error 429 .rateLimited

inductive Request
  | login (email password : ℕ)
  | totp (code : Code)
  | refresh
  | logout
  | setup2FA
  | enable2FA (code : Code)
  | disable2FA (code : Code)
  | changePassword (currentPassword newPassword : ℕ)
  | forgotPassword (email : ℕ)
  | resetPassword (newPassword : ℕ)
  | changeEmail (newEmail : ℕ)
  | confirmEmailChange
  | suspendUser
  | reactivateUser
  | fileTicket (archive : Bool)
  | fileDownload (archive : Bool)
  deriving DecidableEq

def Request.handler : Request → AuthWork Reply
  | login email password => handleLogin email password
  | totp code => handleTOTP code
  | refresh => handleRefresh
  | logout => handleLogout
  | setup2FA => handle2FASetup
  | enable2FA code => handle2FAEnable code
  | disable2FA code => handle2FADisable code
  | changePassword currentPassword newPassword => handleChangePassword currentPassword newPassword
  | forgotPassword email => handleForgotPassword email
  | resetPassword newPassword => handleResetPassword newPassword
  | changeEmail newEmail => handleChangeEmail newEmail
  | confirmEmailChange => handleConfirmEmailChange
  | suspendUser => handleAdminSuspendUser
  | reactivateUser => handleAdminReactivateUser
  | fileTicket archive => handleFileTicket archive
  | fileDownload archive => handleFileDownload archive

def serve (handler : AuthWork Reply) : AuthWork Unit := do
  match ← attempt handler with
  | .ok r => call (.respond r)
  | .error _ => call (.respond (.error 500 .internalError))

/-- What goes on: requests, the clean-up of old tokens, and time. -/
inductive Activity
  | request (r : Request)
  | cleanUp
  | clock
  deriving DecidableEq

def Activity.program : Activity → AuthWork Unit
  | request r => serve r.handler
  | cleanUp => do
    tryCall .deleteExpiredPasswordResetTokens
    tryCall .deleteExpiredEmailChangeTokens
  | clock => call .tick

/-- Any number of requests by anybody. A request that breaks off loses its transaction. -/
def authCrew {ι κ : Type} [DecidableEq ι] [DecidableEq κ] (activity : ι → Activity) (party : ι → κ) :
    Crew.Parts ι AuthStmt (fun s => Except SqlError s.Val) (AuthDb ι κ) Outcome where
  ready _ _ := true
  program i := (activity i).program.run >>= fun _ => .ret ()
  exec i := AuthDb.run party i
  leave i w := w.endTx i

end Clumoove.Auth
