import Clumoove.Lib.Crew
import Clumoove.Lib.GoMap
import Clumoove.Lib.Table

/-! One account: its row in `users`, its sessions, the tokens that are mailed to its owner and the
tickets for downloads, with the transactions on them. Passwords, codes and random tokens are compared
and never computed with, so a hash is the number it stands for. -/

namespace Clumoove.Auth

open Table

inductive SqlError
  | noRows
  | unavailable
  deriving DecidableEq

/-- The failed attempts on a secret, and the lock that they lead to. -/
structure Lockout where
  failedAttempts : ℕ := 0
  lockedUntil : Option ℕ := none
  deriving DecidableEq

namespace Lockout

def inForce (now : ℕ) (l : Lockout) : Bool := l.lockedUntil.any (now < ·)

def increment (maxAttempts lockUntil : ℕ) (l : Lockout) : Lockout :=
  if l.failedAttempts + 1 ≥ maxAttempts then { failedAttempts := 0, lockedUntil := some lockUntil }
  else { l with failedAttempts := l.failedAttempts + 1 }

end Lockout

def loginMaxAttempts : ℕ := 5
def loginLockDuration : ℕ := 900
def totpMaxAttempts : ℕ := 5
def totpLockDuration : ℕ := 900

/-- What a user types as the second factor: what an authenticator shows for a secret in one step of
30 seconds, or a backup code. -/
inductive Code
  | totp (secret step : ℕ)
  | backup (number : ℕ)
  deriving DecidableEq

/-- `totp2fa.Validate`: the step of now and one on each side. -/
def validate (secret : ℕ) (code : Code) (now : ℕ) : Bool :=
  match code with
  | .totp s step => s = secret ∧ now / 30 ≤ step + 1 ∧ step ≤ now / 30 + 1
  | .backup _ => false

/-- The row of the account. -/
structure User where
  email : ℕ
  passwordHash : ℕ
  active : Bool := true
  mustChangePassword : Bool := false
  totpEnabled : Bool := false
  totpSecretEnc : Option ℕ := none
  totpBackupCodes : List ℕ := []
  totp : Lockout := {}
  login : Lockout := {}
  /-- An observer's count of the new passwords and the suspensions. -/
  generation : ℕ := 0
  deriving DecidableEq

namespace User

def incrementLoginFailed (lockUntil : ℕ) (u : User) : User :=
  { u with login := u.login.increment loginMaxAttempts lockUntil }

variable (u : User)

def resetLoginFailed : User := { u with login := {} }

def incrementTOTPFailed (lockUntil : ℕ) (u : User) : User :=
  { u with totp := u.totp.increment totpMaxAttempts lockUntil }

def resetTOTPFailed : User := { u with totp := {} }

def hasBackupCode (code : ℕ) (u : User) : Bool := u.totpEnabled ∧ code ∈ u.totpBackupCodes

def consumeTOTPBackupCode (code : ℕ) (u : User) : User :=
  { u with totpBackupCodes := u.totpBackupCodes.filter (· ≠ code), totp := {} }

def setPassword (hash : ℕ) (u : User) : User :=
  { u with passwordHash := hash, mustChangePassword := false, generation := u.generation + 1 }

def setTOTPSecret (secret : ℕ) (u : User) : User := { u with totpSecretEnc := some secret }

def enableTOTP (codes : List ℕ) (u : User) : User :=
  { u with totpEnabled := true, totpBackupCodes := codes, totp := {} }

def disableTOTP : User :=
  { u with totpEnabled := false, totpSecretEnc := none, totpBackupCodes := [], totp := {} }

def setEmail (email : ℕ) (u : User) : User := { u with email }

def suspend : User := { u with active := false, generation := u.generation + 1 }

def reactivate : User := { u with active := true }

end User

/-- A row of `refresh_tokens`. -/
structure RefreshToken where
  id : ℕ
  expiresAt : ℕ
  /-- An observer's note: the generation in which the credentials were checked that it stems from. -/
  origin : ℕ
  deriving DecidableEq

/-- A row of `password_reset_tokens`. -/
structure MailedToken where
  id : ℕ
  expiresAt : ℕ
  used : Bool := false
  deriving DecidableEq

/-- A row of `email_change_tokens`. -/
structure EmailChangeToken extends MailedToken where
  newEmail : ℕ
  deriving DecidableEq

/-- A ticket for one download, of a file or of an archive, as it is kept in Redis. -/
structure Ticket where
  id : ℕ
  archive : Bool
  expiresAt : ℕ
  deriving DecidableEq

structure Claims where
  twoFAPending : Bool
  mustChangePassword : Bool
  expiresAt : ℕ
  /-- An observer's note: the generation in which the password was checked. -/
  generation : ℕ
  deriving DecidableEq

/-- How a transaction has the user's row locked: for a change of columns that nobody refers to, or
altogether. -/
inductive LockMode
  | noKeyUpdate
  | update
  deriving DecidableEq

/-- A transaction under way: what it has written, which nobody else sees before it commits, and the
rows that it has locked by that. -/
structure Tx where
  startedAt : ℕ
  lock : Option LockMode := none
  user : Option User := none
  deleted : List ℕ := []
  inserted : List RefreshToken := []
  resetToken : Option ℕ := none
  emailToken : Option ℕ := none
  deriving DecidableEq

/-- `ι` names the requests that are under way, `κ` those who make them. -/
structure AuthDb (ι κ : Type) where
  user : User
  refreshTokens : List RefreshToken := []
  resetTokens : List MailedToken := []
  emailTokens : List EmailChangeToken := []
  tickets : List Ticket := []
  txs : GoMap ι Tx := []
  now : ℕ := 0
  /-- Random tokens never come twice. -/
  nextID : ℕ := 0
  /-- The signed tokens that somebody has been given. -/
  bearer : κ → List Claims := fun _ => []
  /-- The refresh tokens that somebody has been given. -/
  cookies : κ → List ℕ := fun _ => []

/-- A statement that has to wait for a lock has no result yet. -/
abbrev AuthSql (ι κ α : Type) := AuthDb ι κ → Option (Except SqlError α × AuthDb ι κ)

namespace AuthDb

variable {ι κ : Type} [DecidableEq ι] (i : ι) (w : AuthDb ι κ)

def tx : Option Tx := w.txs.get i

def setTx (t : Tx) (w : AuthDb ι κ) : AuthDb ι κ := { w with txs := w.txs.set i t }

def endTx : AuthDb ι κ := { w with txs := w.txs.erase i }

def others (p : Tx → Bool) (w : AuthDb ι κ) : Bool := w.txs.any fun e => e.1 ≠ i ∧ p e.2

def userLocked : Bool := w.others i fun t => t.lock.isSome

/-- `NOW()`, which is the beginning of the transaction. -/
def clock : ℕ := match w.tx i with | some t => t.startedAt | none => w.now

def row : User := ((w.tx i).bind (·.user)).getD w.user

/-- `UPDATE users … WHERE …`: it waits for the row it is going to change. -/
def updateUser (mode : LockMode) (p : User → Bool) (f : User → User) (w : AuthDb ι κ) :
    Option (Bool × AuthDb ι κ) :=
  if p (w.row i) then
    if w.userLocked i then none
    else match w.tx i with
      | some t =>
        let lock := if t.lock = some .update then t.lock else some mode
        some (true, w.setTx i { t with lock, user := some (f (w.row i)) })
      | none => some (true, { w with user := f w.user })
  else some (false, w)

/-! Statements. -/

def getUserByEmail (email : ℕ) : AuthSql ι κ User := fun w =>
  if (w.row i).email = email then some (.ok (w.row i), w) else some (.error .noRows, w)

def getUser : AuthSql ι κ User := fun w => some (.ok (w.row i), w)

/-- A change of the row under a condition, and whether it was met. -/
def writingIf (p : User → Bool) (f : User → User) : AuthSql ι κ Bool := fun w =>
  (w.updateUser i .noKeyUpdate p f).map fun (b, w') => (.ok b, w')

/-- A change of the row whatever it holds, and what is returned of the new row. -/
def writing {α : Type} (f : User → User) (returning : AuthDb ι κ → User → α) : AuthSql ι κ α := fun w =>
  (w.updateUser i .noKeyUpdate (fun _ => true) f).map fun (_, w') => (.ok (returning w (w'.row i)), w')

def incrementLoginFailed (lockUntil : ℕ) : AuthSql ι κ Bool :=
  writing i (User.incrementLoginFailed lockUntil) fun w u => u.login.inForce (w.clock i)

def resetLoginFailed : AuthSql ι κ Unit := writing i User.resetLoginFailed fun _ _ => ()

def incrementTOTPFailed (lockUntil : ℕ) : AuthSql ι κ Bool :=
  writing i (User.incrementTOTPFailed lockUntil) fun w u => u.totp.inForce (w.clock i)

def resetTOTPFailed : AuthSql ι κ Unit := writing i User.resetTOTPFailed fun _ _ => ()

def consumeTOTPBackupCode (code : ℕ) : AuthSql ι κ Bool :=
  writingIf i (User.hasBackupCode code) (User.consumeTOTPBackupCode code)

/-- `last_login_at` decides nothing, but the row has to be written. -/
def updateLastLoginAt : AuthSql ι κ Unit := writing i id fun _ _ => ()

/-- The observer is told the new generation. -/
def setPassword (hash : ℕ) : AuthSql ι κ ℕ := writing i (User.setPassword hash) fun _ u => u.generation

def setTOTPSecret (secret : ℕ) : AuthSql ι κ Bool :=
  writingIf i (fun u => !u.totpEnabled) (User.setTOTPSecret secret)

def enableTOTP (secret : ℕ) (codes : List ℕ) : AuthSql ι κ Bool :=
  writingIf i (fun u => !u.totpEnabled && u.totpSecretEnc = some secret) (User.enableTOTP codes)

def disableTOTP : AuthSql ι κ Unit := writing i User.disableTOTP fun _ _ => ()

/-- The row is locked altogether, since the column is unique. -/
def setEmail (email : ℕ) : AuthSql ι κ Unit := fun w =>
  (w.updateUser i .update (fun _ => true) (User.setEmail email)).map fun (_, w') => (.ok (), w')

def suspend : AuthSql ι κ Unit := writing i User.suspend fun _ _ => ()

def reactivate : AuthSql ι κ Unit := writing i User.reactivate fun _ _ => ()

def lockUser : AuthSql ι κ Bool := fun w =>
  if w.userLocked i then none
  else match w.tx i with
    | some t => some (.ok (w.row i).active, w.setTx i { t with lock := some .update })
    | none => some (.ok w.user.active, w)

/-- The insert refers to the user's row, so it waits for those who have locked it altogether. -/
def storeRefreshToken (expiresAt origin : ℕ) : AuthSql ι κ ℕ := fun w =>
  if w.others i fun t => t.lock = some .update then none
  else
    let token : RefreshToken := { id := w.nextID, expiresAt, origin }
    let w' := { w with nextID := w.nextID + 1 }
    match w.tx i with
    | some t => some (.ok token.id, w'.setTx i { t with inserted := token :: t.inserted })
    | none => some (.ok token.id, { w' with refreshTokens := token :: w.refreshTokens })

/-- The rows that a `DELETE` comes upon, with those that others have deleted and not committed. -/
def selectRefreshTokens : AuthSql ι κ (List ℕ) := fun w =>
  match w.tx i with
  | some t => some (.ok ((t.inserted ++ w.refreshTokens).map (·.id)), w)
  | none => some (.ok (w.refreshTokens.map (·.id)), w)

/-- The rows are deleted that are still there, after those who have locked them are gone. -/
def deleteRefreshTokens (ids : List ℕ) : AuthSql ι κ Unit := fun w =>
  if w.others i fun t => t.deleted.any (· ∈ ids) then none
  else match w.tx i with
    | some t => some (.ok (), w.setTx i { t with
        deleted := (w.refreshTokens.map (·.id)).filter (· ∈ ids) ++ t.deleted
        inserted := t.inserted.filter (·.id ∉ ids) })
    | none => some (.ok (), { w with refreshTokens := w.refreshTokens.filter (·.id ∉ ids) })

/-- `DELETE … WHERE token_hash = $1 AND expires_at > NOW() RETURNING …`. -/
def consumeRefreshToken (id : ℕ) : AuthSql ι κ RefreshToken := fun w =>
  match w.refreshTokens.find? fun t => t.id = id ∧ w.clock i < t.expiresAt with
  | none => some (.error .noRows, w)
  | some token =>
    if w.others i fun t => id ∈ t.deleted then none
    else match w.tx i with
      | some t =>
        if id ∈ t.deleted then some (.error .noRows, w)
        else some (.ok token, w.setTx i { t with deleted := id :: t.deleted })
      | none => some (.ok token, { w with refreshTokens := w.refreshTokens.filter (·.id ≠ id) })

def createPasswordResetToken (expiresAt : ℕ) : AuthSql ι κ Unit := fun w =>
  some (.ok (), { w with
    nextID := w.nextID + 1, resetTokens := { id := w.nextID, expiresAt } :: w.resetTokens })

def deleteEmailChangeTokens : AuthSql ι κ Unit := fun w =>
  if w.others i fun t => t.emailToken.isSome then none
  else some (.ok (), { w with emailTokens := [] })

def createEmailChangeToken (newEmail expiresAt : ℕ) : AuthSql ι κ Unit := fun w =>
  some (.ok (), { w with
    nextID := w.nextID + 1
    emailTokens := { id := w.nextID, newEmail, expiresAt } :: w.emailTokens })

/-- `UPDATE password_reset_tokens SET used = TRUE WHERE … RETURNING user_id`. -/
def claimPasswordResetToken (id : ℕ) : AuthSql ι κ Unit := fun w =>
  if w.resetTokens.any fun t => t.id = id ∧ ¬ t.used ∧ w.clock i < t.expiresAt then
    if w.others i fun t => t.resetToken = some id then none
    else match w.tx i with
      | some t => some (.ok (), w.setTx i { t with resetToken := some id })
      | none => some (.ok (), { w with
          resetTokens := updateWhere (·.id = id) (fun t => { t with used := true }) w.resetTokens })
  else some (.error .noRows, w)

def selectEmailChangeToken (id : ℕ) : AuthSql ι κ ℕ := fun w =>
  match w.emailTokens.find? fun t => t.id = id ∧ ¬ t.used ∧ w.clock i < t.expiresAt with
  | some t => some (.ok t.newEmail, w)
  | none => some (.error .noRows, w)

/-- `UPDATE email_change_tokens SET used = TRUE WHERE token_hash = $1`. -/
def useEmailChangeToken (id : ℕ) : AuthSql ι κ Unit := fun w =>
  if w.others i fun t => t.emailToken = some id then none
  else match w.tx i with
    | some t => some (.ok (), w.setTx i { t with emailToken := some id })
    | none => some (.ok (), { w with
        emailTokens := updateWhere (·.id = id) (fun t => { t with used := true }) w.emailTokens })

def outdated (now : ℕ) (t : MailedToken) : Bool := t.expiresAt < now ∨ t.used

def deleteExpiredPasswordResetTokens : AuthSql ι κ Unit := fun w =>
  if w.others i fun t => w.resetTokens.any fun r => outdated (w.clock i) r ∧ t.resetToken = some r.id then
    none
  else some (.ok (), { w with resetTokens := w.resetTokens.filter fun r => !outdated (w.clock i) r })

def deleteExpiredEmailChangeTokens : AuthSql ι κ Unit := fun w =>
  if w.others i fun t => w.emailTokens.any fun r =>
      outdated (w.clock i) r.toMailedToken ∧ t.emailToken = some r.id then none
  else some (.ok (), { w with
    emailTokens := w.emailTokens.filter fun r => !outdated (w.clock i) r.toMailedToken })

def begin : AuthSql ι κ Unit := fun w => some (.ok (), w.setTx i { startedAt := w.now })

def publish (t : Tx) (w : AuthDb ι κ) : AuthDb ι κ :=
  { w with
    user := t.user.getD w.user
    refreshTokens := t.inserted ++ w.refreshTokens.filter (·.id ∉ t.deleted)
    resetTokens := updateWhere (fun r => t.resetToken = some r.id) (fun r => { r with used := true })
      w.resetTokens
    emailTokens := updateWhere (fun r => t.emailToken = some r.id) (fun r => { r with used := true })
      w.emailTokens }

def commit : AuthSql ι κ Unit := fun w =>
  match w.tx i with
  | some t => some (.ok (), (w.publish t).endTx i)
  | none => some (.ok (), w)

def rollback : AuthSql ι κ Unit := fun w => some (.ok (), w.endTx i)

def createTicket (archive : Bool) (expiresAt : ℕ) : AuthSql ι κ Unit := fun w =>
  some (.ok (), { w with
    nextID := w.nextID + 1, tickets := { id := w.nextID, archive, expiresAt } :: w.tickets })

/-- `GETDEL`, of a key that expires. -/
def redeemTicket (archive : Bool) (id : ℕ) : AuthSql ι κ Unit := fun w =>
  if w.tickets.any fun t => t.id = id ∧ t.archive = archive ∧ w.now < t.expiresAt then
    some (.ok (), { w with tickets := w.tickets.filter (·.id ≠ id) })
  else some (.error .noRows, w)

end AuthDb

end Clumoove.Auth
