import Clumoove.Sanity.Auth.Calls
import Clumoove.Sanity.Auth.Rotations
import Clumoove.Sanity.Auth.Sessions

/-! When a new password has been set or the account has been suspended, no session of before is left,
as long as sessions are stored only for the account as it is and the deletion of the others goes
through. A refresh token is exchanged once at most, whatever happens. -/

namespace Clumoove.Auth

open Prog AuthDb List

variable {ι κ : Type} [DecidableEq ι] [DecidableEq κ]

/-- An observer's record: how far the requests have come, the versions of the account that they have
made, the last version that somebody was told of, and the refresh tokens that were exchanged. -/
structure Revocations (ι : Type) where
  progress : GoMap ι Progress := []
  generation : ι → ℕ := fun _ => 0
  revoked : ℕ := 0
  rotated : List ℕ := []

namespace Revocations

def stage (h : Revocations ι) (i : ι) : Progress := (h.progress.get i).getD {}

/-- The tokens that are exchanged for others with a call. -/
def rotates (p : Progress) : (s : AuthStmt) → Except SqlError s.Val → List ℕ
  | .commit, .ok _ => if p.stored then p.rotating.toList else []
  | _, _ => []

/-- The version of the account that is final with a call: its password is in force for everybody when
the request is answered. -/
def finishes (p : Progress) (g : ℕ) : AuthStmt → ℕ
  | .respond _ => if p.changed && !p.inTx then g else 0
  | _ => 0

def note (i : ι) (s : AuthStmt) (r : Except SqlError s.Val) (_w w' : AuthDb ι κ)
    (h : Revocations ι) : Revocations ι where
  progress := h.progress.set i ((h.stage i).next s r)
  generation j := if j = i then s.made (w'.row i).generation (h.generation i) r else h.generation j
  revoked := max h.revoked (finishes (h.stage i) (h.generation i) s)
  rotated := rotates (h.stage i) s r ++ h.rotated

def forget (i : ι) (h : Revocations ι) : Revocations ι := { h with progress := h.progress.erase i }

end Revocations

def watchedRevocations (activity : ι → Activity) (party : ι → κ) :
    Crew.Parts ι AuthStmt (fun s => Except SqlError s.Val) (AuthDb ι κ × Revocations ι) Outcome :=
  (authCrew activity party).watched Revocations.note Revocations.forget

/-- The database can be reached while a password has been changed and the sessions are still there. -/
def deletesSessions (v : AuthDb ι κ × Revocations ι) : Crew.Label ι Outcome → Bool
  | .exec i .unavailable => !(v.2.stage i).exposed
  | _ => true

/-! The programs. -/

@[simps] def revokeProtocol : Protocol AuthStmt (fun s => Except SqlError s.Val) Progress where
  next p s r := p.next s r
  allowed p s := p.permits s

theorem follows_program (a : Activity) : Abides revokeProtocol a.program (fun _ _ => True) {} := by
  cases a with
  | request q =>
    cases q with
    | totp code | disable2FA code => cases code <;> simp [Progress.permits, Progress.next]
    | _ => simp [Progress.permits, Progress.next, Progress.exposed]
  | cleanUp | clock => simp [Progress.permits]

/-! All of it together. -/

/-- No session of before the last version that somebody was told of is left, and no refresh token was
exchanged twice. -/
structure Revoked (v : AuthDb ι κ × Revocations ι) : Prop where
  current : Current v.1
  once : RotatedOnce v.1 v.2.rotated
  nodup : v.2.rotated.Nodup
  stands : ∀ j, Stands v.1 j (v.2.stage j) (v.2.generation j)
  reached : v.2.revoked ≤ v.1.user.generation
  clean : ∀ a ∈ v.1.refreshTokens, v.2.revoked ≤ a.origin

section Session

variable {activity : ι → Activity} {party : ι → κ} {i : ι} {s : AuthStmt} {o : Outcome}
  {r : Except SqlError s.Val} {v v' : AuthDb ι κ × Revocations ι}

/-- A session is stored only while the account is as it was when its credentials were checked. -/
def keepsCurrent (i : ι) (s : AuthStmt) (v : AuthDb ι κ × Revocations ι) : Bool := storesCurrent i s v.1

theorem exec_watchedRevocations :
    ((watchedRevocations activity party).restrict keepsCurrent).exec i s o v = some (r, v') ↔
      storesCurrent i s v.1 = true ∧ AuthDb.run party i s o v.1 = some (r, v'.1) ∧
        v'.2 = v.2.note i s r v.1 v'.1 := by
  rw [Crew.Parts.exec_restrict, watchedRevocations, Crew.Parts.exec_watched]
  exact Iff.rfl

omit [DecidableEq κ] in
theorem Revocations.stage_note {h : Revocations ι} :
    (h.note i s r w w').stage j = if j = i then (h.stage i).next s r else h.stage j := by
  unfold stage note
  rw [GoMap.get_set]
  split_ifs <;> rfl

omit [DecidableEq κ] in
theorem Revocations.stage_forget {h : Revocations ι} :
    (h.forget i).stage j = if j = i then {} else h.stage j := by
  unfold stage forget
  rw [GoMap.get_erase]
  split_ifs <;> rfl

theorem Revocations.nodup_rotates : (rotates p s r).Nodup := by
  unfold rotates
  split
  · split_ifs
    · cases p.rotating <;> simp
    · exact nodup_nil
  · exact nodup_nil

namespace Revoked

omit [DecidableEq κ] in
theorem deleted_of_rotates {id : ℕ} (h : Revoked v)
    (hid : id ∈ Revocations.rotates (v.2.stage i) s r) : ∃ t, v.1.tx i = some t ∧ id ∈ t.deleted := by
  unfold Revocations.rotates at hid
  split at hid
  · split_ifs at hid
    · exact (h.stands i).rotating id (Option.mem_toList.1 hid)
    · cases hid
  · cases hid

theorem rotates (h : Revoked v) (hrun : AuthDb.run party i s o v.1 = some (r, v'.1)) :
    RotatedOnce v'.1 (Revocations.rotates (v.2.stage i) s r ++ v.2.rotated) ∧
      (Revocations.rotates (v.2.stage i) s r ++ v.2.rotated).Nodup := by
  refine ⟨?_, ?_⟩
  · by_cases hs : s = .commit
    · subst hs
      rcases commit_cases hrun with ⟨⟨e, rfl⟩, hw⟩ | ⟨rfl, ⟨t, ht, hw⟩ | ⟨hnone, hw⟩⟩
      · rw [hw]
        exact h.once
      · rw [hw]
        refine h.once.publish ht ?_
        intro id hid
        obtain ⟨t', ht', hmem⟩ := h.deleted_of_rotates hid
        rw [ht] at ht'
        cases ht'
        exact hmem
      · have hnil : Revocations.rotates (v.2.stage i) .commit (.ok ()) = [] := by
          refine eq_nil_iff_forall_not_mem.2 ?_
          intro id hid
          obtain ⟨t, ht, -⟩ := h.deleted_of_rotates hid
          rw [hnone] at ht
          cases ht
        rw [hw, hnil]
        exact h.once
    · have hnil : Revocations.rotates (v.2.stage i) s r = [] := by
        cases s with
        | commit => exact absurd rfl hs
        | _ => rfl
      rw [hnil]
      exact h.once.run hrun hs
  · refine nodup_append.2 ⟨Revocations.nodup_rotates, h.nodup, ?_⟩
    -- a token that is deleted is still in the table, where none of the others is
    intro id hid id' hid' heq
    subst heq
    obtain ⟨t, ht, hmem⟩ := h.deleted_of_rotates hid
    obtain ⟨a, ha, rfl⟩ := h.once.held ht id hmem
    exact (h.once.stored a ha).2 hid'

omit [DecidableEq κ] in
/-- What a member has finished is a version of the account that is in the table, and no session of
before is left. -/
theorem finished (h : Revoked v) (hpermits : (v.2.stage i).permits s) :
    Revocations.finishes (v.2.stage i) (v.2.generation i) s ≤ v.1.user.generation ∧
      ∀ a ∈ v.1.refreshTokens,
        Revocations.finishes (v.2.stage i) (v.2.generation i) s ≤ a.origin := by
  cases s with
  | respond reply =>
    unfold Revocations.finishes
    split_ifs with hdone
    · simp only [Bool.and_eq_true, Bool.not_eq_true'] at hdone
      obtain ⟨hchanged, hin⟩ := hdone
      have hstands := h.stands i
      have hnone : v.1.tx i = none := by
        have hsome := hstands.inTx
        rw [hin] at hsome
        simpa using hsome.symm
      have hcleared : (v.2.stage i).cleared = true := by
        rcases hpermits hchanged hin with hcleared | hfailed
        · exact hcleared
        · rw [hstands.failed] at hfailed
          cases hfailed
      refine ⟨?_, ?_⟩
      · have hle := hstands.changed hchanged
        rw [Stands.row_of_noTx hnone] at hle
        exact hle
      · intro a ha
        rcases hstands.cleared hchanged hcleared a ha with ⟨t, ht, -⟩ | ⟨-, hle⟩
        · rw [hnone] at ht
          cases ht
        · exact hle
    · exact ⟨Nat.zero_le _, fun _ _ => Nat.zero_le _⟩
  | _ => exact ⟨Nat.zero_le _, fun _ _ => Nat.zero_le _⟩

theorem exec (h : Revoked v) (hok : deletesSessions v (.exec i o) = true)
    (hpermits : (v.2.stage i).permits s)
    (hx : ((watchedRevocations activity party).restrict keepsCurrent).exec i s o v = some (r, v')) :
    Revoked v' := by
  obtain ⟨hmay, hrun, hnote⟩ := exec_watchedRevocations.1 hx
  have hsteady := Steady.run h.current hmay hrun
  obtain ⟨honce, hnodup⟩ := h.rotates hrun
  obtain ⟨hversion, hsessions⟩ := h.finished hpermits
  have hreached (hdown : o = .unavailable) : (v.2.stage i).exposed = false := by
    subst hdown
    simpa [deletesSessions] using hok
  have hstands := (h.stands i).run hmay hpermits hreached hrun
  obtain ⟨w', h'⟩ := v'
  obtain rfl : h' = v.2.note i s r v.1 w' := hnote
  refine ⟨h.current.run hmay hrun ?_, honce, hnodup, ?_, ?_, ?_⟩
  · intro e n t hs ht
    subst hs
    have hin : (v.2.stage i).inTx = true := by rw [(h.stands i).inTx, ht]; rfl
    obtain ⟨t', ht', hlock⟩ := (h.stands i).locked (hpermits hin).1
    rw [ht] at ht'
    cases ht'
    exact hlock
  · intro j
    rw [Revocations.stage_note]
    by_cases hj : j = i
    · subst hj
      simpa [Revocations.note] using hstands
    · simpa [Revocations.note, hj] using (h.stands j).others hsteady hj
  · exact Nat.max_le.2 ⟨Nat.le_trans h.reached hsteady.generation,
      Nat.le_trans hversion hsteady.generation⟩
  · intro a ha
    rcases hsteady.tokens a ha with hold | ⟨horigin, -⟩
    · exact Nat.max_le.2 ⟨h.clean a hold, hsessions a hold⟩
    · exact Nat.max_le.2 ⟨horigin ▸ h.reached, horigin ▸ hversion⟩

omit [DecidableEq κ] in
theorem leave (h : Revoked v) : Revoked (v.1.endTx i, v.2.forget i) where
  current := h.current.endTx
  once := h.once.endTx
  nodup := h.nodup
  stands j := by
    rw [Revocations.stage_forget]
    by_cases hj : j = i
    · subst hj
      rw [if_pos rfl]
      exact .start (by rw [tx_endTx, if_pos rfl])
    · rw [if_neg hj]
      refine (h.stands j).others (i := i) (.of_same ?_ rfl fun _ ha => ha) hj
      intro k hk
      rw [tx_endTx, if_neg hk]
  reached := h.reached
  clean := h.clean

end Revoked

def revokeSession : Crew.Session ((watchedRevocations activity party).restrict keepsCurrent)
    (fun v l => deletesSessions v l = true) Progress where
  T _ := revokeProtocol
  state i v := v.2.stage i
  idle _ p := p = {}
  ended _ _ := True
  inv := Revoked
  program i p hp := by
    refine Follows.bind ?_
    rw [hp]
    exact (follows_program (activity i)).follows.mono fun _ _ _ => trivial
  answers _ _ _ _ := trivial
  next hx := by
    obtain ⟨-, -, hnote⟩ := exec_watchedRevocations.1 hx
    rw [hnote]
    exact ⟨Revocations.stage_note.trans (if_pos rfl), fun j hj => Revocations.stage_note.trans (if_neg hj)⟩
  keep hok hinv hallowed _ hx := hinv.exec hok hallowed hx
  finish i v _ := Revocations.stage_forget.trans (if_pos rfl)
  stop i v _ := Revocations.stage_forget.trans (if_pos rfl)
  others i j v hj := Revocations.stage_forget.trans (if_neg hj)
  leave _ _ _ hinv := hinv.leave

/-- Nothing is under way, and the numbers of the sessions will not be given out again. -/
def NothingRevoked (v : AuthDb ι κ × Revocations ι) : Prop :=
  v.1.txs = [] ∧ v.2.progress = [] ∧ v.2.revoked = 0 ∧ v.2.rotated = [] ∧
    ∀ a ∈ v.1.refreshTokens, a.id < v.1.nextID

omit [DecidableEq κ] in
theorem NothingRevoked.stage (hv : NothingRevoked v) (j : ι) : v.2.stage j = {} := by
  obtain ⟨-, hprogress, -⟩ := hv
  rw [Revocations.stage, hprogress]
  rfl

omit [DecidableEq κ] in
theorem NothingRevoked.revoked (hv : NothingRevoked v) : Revoked v := by
  have hstage := hv.stage
  obtain ⟨htxs, -, hrevoked, hrotated, hids⟩ := hv
  have hnone (j : ι) : v.1.tx j = none := by
    rw [AuthDb.tx, htxs]
    rfl
  exact
    { current := ⟨by constructor <;> simp [hnone], by simp [hnone], by simp [hnone]⟩
      once := ⟨by simp [hrotated], fun a ha => ⟨hids a ha, by simp [hrotated]⟩, by simp [hnone],
        by simp [hnone], by simp [hnone], by simp [hnone]⟩
      nodup := by simp [hrotated]
      stands j := by
        rw [hstage]
        exact .start (hnone j)
      reached := by simp [hrevoked]
      clean := by simp [hrevoked] }

end Session

/-- Once somebody has been told of a new password or a suspension, no session is stored whose
credentials were checked before it; and every refresh token is exchanged once at most. -/
theorem revocation_complete {activity : ι → Activity} {party : ι → κ}
    {c : Crew.Config ι AuthStmt (fun s => Except SqlError s.Val) (AuthDb ι κ × Revocations ι)}
    (hreach : Crew.Reach ((watchedRevocations activity party).restrict keepsCurrent)
      (fun v l => deletesSessions v l = true) NothingRevoked c) :
    (∀ a ∈ c.world.1.refreshTokens, c.world.2.revoked ≤ a.origin) ∧ c.world.2.rotated.Nodup := by
  have hholds := revokeSession.sound (fun _ => NothingRevoked.revoked) (fun j _ hv => hv.stage j) hreach
  have hinv : Revoked c.world := hholds.inv
  exact ⟨hinv.clean, hinv.nodup⟩

/-- The owner changes the password, logs in with the new one, and goes on with the new session. -/
def newPassword : Fin 3 → Activity
  | 0 => .request (.changePassword 2 5)
  | 1 => .request (.login 1 5)
  | 2 => .request .refresh

def oldSession : AuthDb (Fin 3) Unit × Revocations (Fin 3) :=
  ({ user := { email := 1, passwordHash := 2 }, refreshTokens := [⟨0, 1000, 0⟩], nextID := 1
     bearer := fun _ => [⟨false, false, 900, 0⟩] }, {})

/-- The old session is gone, the new one is exchanged once. -/
theorem old_session_revoked :
    ∃ c, Crew.Reach ((watchedRevocations newPassword fun _ => ()).restrict keepsCurrent)
        (fun v l => deletesSessions v l = true) NothingRevoked c ∧
      c.world.1.refreshTokens.map (·.id) = [2] ∧ c.world.2.revoked = 1 ∧ c.world.2.rotated = [1] ∧
      (∀ a ∈ c.world.1.refreshTokens, c.world.2.revoked ≤ a.origin) ∧ c.world.2.rotated.Nodup := by
  have hrun : (Crew.runIf ((watchedRevocations newPassword fun _ => ()).restrict keepsCurrent)
      deletesSessions
      (.start 0 :: .exec 0 (.number 0) :: List.replicate 8 (.exec 0 .done) ++
        .finish 0 :: .start 1 :: .exec 1 (.choice true) :: List.replicate 9 (.exec 1 .done) ++
        .finish 1 :: .start 2 :: .exec 2 (.number 0) :: List.replicate 10 (.exec 2 .done) ++ [.finish 2])
      { world := oldSession }).map
      (fun c => (c.world.1.refreshTokens.map (·.id), c.world.2.revoked, c.world.2.rotated)) =
      some ([2], 1, [1]) := by
    decide +kernel
  obtain ⟨c, hreach, h⟩ := Crew.Reach.runIf_map (P := NothingRevoked) (fun _ _ h => h)
    ⟨rfl, rfl, rfl, rfl, by decide⟩ hrun
  obtain ⟨hids, h⟩ := Prod.mk.inj h
  obtain ⟨hrevoked, hrotated⟩ := Prod.mk.inj h
  exact ⟨c, hreach, hids, hrevoked, hrotated, revocation_complete hreach⟩

/-- The owner changes the password while somebody else logs in with the old one. -/
def lateLogin : Fin 2 → Activity
  | 0 => .request (.changePassword 2 5)
  | 1 => .request (.login 1 2)

/-- The owner changes the password while somebody else goes on with a session. -/
def lateRefresh : Fin 2 → Activity
  | 0 => .request (.changePassword 2 5)
  | 1 => .request .refresh

def sharedSession : AuthDb (Fin 2) Unit × Revocations (Fin 2) :=
  ({ user := { email := 1, passwordHash := 2 }, refreshTokens := [⟨0, 1000, 0⟩], nextID := 1
     bearer := fun _ => [⟨false, false, 900, 0⟩], cookies := fun _ => [0] }, {})

/-- The request of the owner up to where the old sessions are listed. -/
def setNewPassword (owner : ι) : List (Crew.Label ι Outcome) :=
  .start owner :: .exec owner (.number 0) :: List.replicate 6 (.exec owner .done)

/-- A session of before the new password is stored when the owner has been told of it: of a login that
had read the old password, of a session that was being exchanged, or because the deletion did not go
through. -/
theorem old_sessions_left :
    (∃ c, Crew.Reach (watchedRevocations lateLogin fun _ => ()) (fun _ _ => True) NothingRevoked c ∧
      c.world.1.refreshTokens.map (·.origin) = [0] ∧ c.world.2.revoked = 1) ∧
    (∃ c, Crew.Reach (watchedRevocations lateRefresh fun _ => ()) (fun _ _ => True) NothingRevoked c ∧
      c.world.1.refreshTokens.map (·.origin) = [0] ∧ c.world.2.revoked = 1) ∧
    ∃ c, Crew.Reach ((watchedRevocations lateRefresh fun _ => ()).restrict keepsCurrent)
        (fun _ _ => True) NothingRevoked c ∧
      c.world.1.refreshTokens.map (·.origin) = [0] ∧ c.world.2.revoked = 1 := by
  have hleft (M : Crew.Parts (Fin 2) AuthStmt (fun s => Except SqlError s.Val) _ Outcome)
      (ls : List (Crew.Label (Fin 2) Outcome)) (hrun : (Crew.run M ls
      { world := sharedSession }).map (fun c => (c.world.1.refreshTokens.map (·.origin), c.world.2.revoked)) =
        some ([0], 1)) : ∃ c, Crew.Reach M (fun _ _ => True) NothingRevoked c ∧
      c.world.1.refreshTokens.map (·.origin) = [0] ∧ c.world.2.revoked = 1 := by
    obtain ⟨c, hreach, h⟩ := Crew.Reach.run_map (P := NothingRevoked) ⟨rfl, rfl, rfl, rfl, by decide⟩ hrun
    exact ⟨c, hreach, (Prod.mk.inj h).1, (Prod.mk.inj h).2⟩
  refine ⟨hleft _ (.start 1 :: .exec 1 (.choice true) :: List.replicate 7 (.exec 1 .done) ++ setNewPassword 0 ++
      [.exec 0 .done, .exec 0 .done, .exec 1 .done, .exec 1 .done]) (by decide +kernel),
    hleft _ ([.start 1, .exec 1 (.number 0), .exec 1 .done, .exec 1 .done] ++ setNewPassword 0 ++
      List.replicate 5 (.exec 1 .done) ++ [.exec 0 .done, .exec 0 .done]) (by decide +kernel),
    hleft _ (setNewPassword 0 ++ [.exec 0 .unavailable, .exec 0 .done]) (by decide +kernel)⟩

def Quiet (w : AuthDb ι κ) : Prop :=
  w.txs = [] ∧ ∀ a ∈ w.refreshTokens, a.id < w.nextID

/-- The number has been a token's, which is neither stored nor about to be. -/
def Gone (w : AuthDb ι κ) (id : ℕ) : Prop :=
  id < w.nextID ∧ (∀ a ∈ w.refreshTokens, a.id ≠ id) ∧
    ∀ j t, w.tx j = some t → ∀ a ∈ t.inserted, a.id ≠ id

omit [DecidableEq κ] in
theorem rotatedOnce_singleton {w : AuthDb ι κ} {id : ℕ} :
    RotatedOnce w [id] ↔ RotatedOnce w [] ∧ Gone w id := by
  constructor
  · intro h
    refine ⟨⟨nofun, fun a ha => ⟨(h.stored a ha).1, not_mem_nil⟩, fun ht a ha => ?_, h.apart, h.held,
      h.alone⟩, h.gone id mem_cons_self, fun a ha => ?_, fun j t ht a ha => ?_⟩
    · exact ⟨(h.pending ht a ha).1, not_mem_nil, (h.pending ht a ha).2.2⟩
    · simpa using (h.stored a ha).2
    · simpa using (h.pending ht a ha).2.1
  · rintro ⟨h, hlt, hstored, hpending⟩
    refine ⟨by simpa using hlt, fun a ha => ⟨(h.stored a ha).1, by simpa using hstored a ha⟩,
      fun ht a ha => ?_, h.apart, h.held, h.alone⟩
    exact ⟨(h.pending ht a ha).1, by simpa using hpending _ _ ht a ha, (h.pending ht a ha).2.2⟩

/-- No request, and none that breaks off, brings a token back that is gone. -/
theorem RotatedOnce.exec {activity : ι → Activity} {party : ι → κ} {gone : List ℕ} {i : ι}
    {s : AuthStmt} {o : Outcome} {w w' : AuthDb ι κ} {r : Except SqlError s.Val}
    (hrun : (authCrew activity party).exec i s o w = some (r, w')) (h : RotatedOnce w gone) :
    RotatedOnce w' gone := by
  by_cases hs : s = .commit
  · subst hs
    rcases commit_cases hrun with ⟨-, rfl⟩ | ⟨-, ⟨t, ht, rfl⟩ | ⟨-, rfl⟩⟩
    · exact h
    · exact h.publish ht (forall_mem_nil _)
    · exact h
  · exact h.run hrun hs

/-- Whatever is requested, fails or is stopped: one transaction at a time has the account's row, two never
take the same refresh token, and a token that is gone at some point of a run is gone from then on. -/
theorem refresh_tokens_used_up {activity : ι → Activity} {party : ι → κ}
    {c c' : Crew.Config ι AuthStmt (fun s => Except SqlError s.Val) (AuthDb ι κ)}
    {ls : List (Crew.Label ι Outcome)}
    (hreach : Crew.Reach (authCrew activity party) (fun _ _ => True) Quiet c)
    (hrun : Crew.run (authCrew activity party) ls c = some c') :
    (Locks c.world ∧ RotatedOnce c.world []) ∧ ∀ id, Gone c.world id → Gone c'.world id := by
  have honce : RotatedOnce c.world [] := by
    refine hreach.world (P := fun w => RotatedOnce w []) .exec (fun _ _ h => h.endTx) ?_
    rintro w ⟨htxs, hstored⟩
    have hnone (j : ι) : w.tx j = none := by rw [AuthDb.tx, htxs]; rfl
    exact ⟨forall_mem_nil _, fun a ha => ⟨hstored a ha, not_mem_nil⟩, by simp [hnone], by simp [hnone],
      by simp [hnone], by simp [hnone]⟩
  have hlocks : Locks c.world := by
    refine hreach.world (P := Locks) (fun hx h => h.run hx) (fun _ _ h => h.endTx) ?_
    rintro w ⟨htxs, -⟩
    have hnone (j : ι) : w.tx j = none := by rw [AuthDb.tx, htxs]; rfl
    constructor <;> simp [hnone]
  refine ⟨⟨hlocks, honce⟩, fun id hgone => (rotatedOnce_singleton.1 ?_).2⟩
  exact Crew.run_world (P := fun w => RotatedOnce w [id]) .exec (fun _ _ h => h.endTx) hrun
    (rotatedOnce_singleton.2 ⟨honce, hgone⟩)

/-- The token of a session that has been exchanged stays away while the password is changed. -/
theorem refresh_tokens_used_up_late : ∃ c c', Crew.Reach (authCrew lateRefresh fun _ => ())
    (fun _ _ => True) Quiet c ∧ Crew.run (authCrew lateRefresh fun _ => ()) (setNewPassword 0) c = some c' ∧
      c'.world.refreshTokens.map (·.id) = [1] ∧ Gone c'.world 0 := by
  have hrun : ((Crew.run (authCrew lateRefresh fun _ => ()) (.start 1 :: .exec 1 (.number 0) ::
      List.replicate 10 (.exec 1 .done) ++ [.finish 1]) { world := sharedSession.1 }).bind fun c =>
        (Crew.run (authCrew lateRefresh fun _ => ()) (setNewPassword 0) c).map fun c' =>
          ((c.world.nextID, c.world.refreshTokens.map (·.id), c.world.txs.isEmpty),
            c'.world.refreshTokens.map (·.id))) = some ((2, [1], true), [1]) := by
    decide +kernel
  obtain ⟨c, hc, hrest⟩ := Option.bind_eq_some_iff.1 hrun
  obtain ⟨c', hc', heq⟩ := Option.map_eq_some_iff.1 hrest
  simp only [Prod.mk.injEq] at heq
  obtain ⟨⟨hnext, hids, htxs⟩, hids'⟩ := heq
  rw [← Crew.runIf_true] at hc
  have hstart : Crew.Reach (authCrew lateRefresh fun _ => ()) (fun _ _ => True) Quiet
      { world := sharedSession.1 } := .start ⟨rfl, by decide⟩
  have hreach := hstart.runIf (fun _ _ _ => trivial) hc
  refine ⟨c, c', hreach, hc', hids', (refresh_tokens_used_up hreach hc').2 0 ⟨by omega, ?_, ?_⟩⟩
  · intro a ha hid
    have hmem := mem_map_of_mem (f := (·.id)) ha
    rw [hids, hid] at hmem
    simp at hmem
  · intro j t ht
    rw [AuthDb.tx, isEmpty_iff.1 htxs] at ht
    cases ht

end Clumoove.Auth
