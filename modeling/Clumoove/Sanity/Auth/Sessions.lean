import Clumoove.Sanity.Auth.Frames

/-! Sessions and the versions of the account they belong to. As long as a session is stored only while
the account is as it was when its credentials were checked, a session that is stored belongs to the
version of the account in the table, and whoever deletes the sessions of earlier versions leaves none. -/

namespace Clumoove.Auth

open AuthDb List

variable {ι κ : Type} [DecidableEq ι] {w w' : AuthDb ι κ} {i j : ι}

variable {p : User → Bool} {f : User → User} {t t' : Tx}

/-- A session is stored only while the account is as it was when its credentials were checked, and
nobody else is about to change it. -/
def storesCurrent (i : ι) (s : AuthStmt) (w : AuthDb ι κ) : Bool :=
  match s with
  | .storeRefreshToken _ origin => origin = w.user.generation && !w.userLocked i
  | _ => true

def Unlocked (i : ι) (w : AuthDb ι κ) : Prop := ∀ j t, j ≠ i → w.tx j = some t → t.lock = none

theorem unlocked_of_userLocked (h : w.userLocked i = false) : Unlocked i w := by
  intro j t hj ht
  simpa using others_false h hj ht

theorem unlocked_of_lock (h : Locks w) (ht : w.tx i = some t) (hlock : t.lock ≠ none) :
    Unlocked i w := by
  intro j t' hj ht'
  by_contra hlock'
  exact hj (h.alone ht' ht hlock' hlock)

theorem AuthDb.Written.lock
    (h : Written i p f w true w') (ht' : w'.tx i = some t') : t'.lock ≠ none := by
  cases h with
  | pending _ _ _ hlock =>
    obtain rfl := own_setTx ht'
    exact hlock
  | done _ _ hnone =>
    rw [show w.tx i = some t' from ht'] at hnone
    cases hnone

theorem AuthDb.Written.row (h : Written i p f w true w') : w'.row i = f (w.row i) := by
  cases h with
  | pending _ _ _ _ => simp [AuthDb.row]
  | done _ _ hnone =>
    have hnone' : ({ w with user := f w.user } : AuthDb ι κ).tx i = none := hnone
    simp [AuthDb.row, hnone, hnone']

theorem generation_le_effect {s : AuthStmt}
    (hs : s.effect = some (p, f)) (u : User) : u.generation ≤ (f u).generation := by
  cases s with
  | setPassword hash | suspend =>
    cases hs
    exact Nat.le_succ _
  | incrementLoginFailed t | resetLoginFailed | incrementTOTPFailed t | resetTOTPFailed
  | consumeTOTPBackupCode code | updateLastLoginAt | setTOTPSecret secret | enableTOTP secret codes
  | disableTOTP | setEmail email | reactivate =>
    cases hs
    exact Nat.le_refl _
  | _ => cases hs

structure Current (w : AuthDb ι κ) : Prop where
  locks : Locks w
  ahead : ∀ {j t u}, w.tx j = some t → t.user = some u → w.user.generation ≤ u.generation
  inserted : ∀ {j t}, w.tx j = some t → ∀ a ∈ t.inserted,
    a.origin = w.user.generation ∧ t.lock ≠ none

/-- What a call of one member means for the others. -/
structure Steady (i : ι) (w w' : AuthDb ι κ) : Prop where
  others : ∀ j, j ≠ i → w'.tx j = w.tx j
  generation : w.user.generation ≤ w'.user.generation
  renewed : w'.user.generation = w.user.generation ∨ Unlocked i w
  tokens : ∀ a ∈ w'.refreshTokens, a ∈ w.refreshTokens ∨
    (a.origin = w.user.generation ∧ Unlocked i w)

theorem Current.row_le (h : Current w) (i : ι) : w.user.generation ≤ (w.row i).generation := by
  unfold AuthDb.row
  cases hrow : (w.tx i).bind (·.user) with
  | none => exact Nat.le_refl _
  | some u =>
    obtain ⟨t, ht, hu⟩ := Option.bind_eq_some_iff.1 hrow
    exact h.ahead ht hu

theorem Steady.of_same (hothers : ∀ j, j ≠ i → w'.tx j = w.tx j) (huser : w'.user = w.user)
    (htokens : ∀ a ∈ w'.refreshTokens, a ∈ w.refreshTokens) : Steady i w w' where
  others := hothers
  generation := Nat.le_of_eq (by rw [huser])
  renewed := .inl (by rw [huser])
  tokens a ha := .inl (htokens a ha)

theorem Steady.publish (h : Current w) (ht : w.tx i = some t) :
    Steady i w ((w.publish t).endTx i) where
  others := others_endTx
  generation := by
    show w.user.generation ≤ (t.user.getD w.user).generation
    cases hu : t.user with
    | none => exact Nat.le_refl _
    | some u => exact h.ahead ht hu
  renewed := by
    show (t.user.getD w.user).generation = w.user.generation ∨ _
    cases hu : t.user with
    | none => exact .inl rfl
    | some u => exact .inr (unlocked_of_lock h.locks ht (h.locks.pending ht (hu ▸ nofun)))
  tokens a ha := by
    rcases mem_append.1 ha with ha | ha
    · obtain ⟨horigin, hlock⟩ := h.inserted ht a ha
      exact .inr ⟨horigin, unlocked_of_lock h.locks ht hlock⟩
    · exact .inl (mem_filter.1 ha).1

section Run

variable [DecidableEq κ] {party : ι → κ} {s : AuthStmt} {o : Outcome} {r : Except SqlError s.Val}

theorem tokens_of_run (hmay : storesCurrent i s w = true)
    (hrun : AuthDb.run party i s o w = some (r, w')) (htopic : s.topic ≠ .transaction) :
    ∀ a ∈ w'.refreshTokens, a ∈ w.refreshTokens ∨
      (a.origin = w.user.generation ∧ w.tx i = none ∧ Unlocked i w) := by
  by_cases hrefresh : s.topic = .refresh
  · cases refreshed_of_run hrun hrefresh with
    | same | pending => exact fun _ ha => .inl ha
    | done hnone _ hnew =>
      intro a ha
      rcases hnew a ha with hold | ⟨e, rfl⟩
      · exact .inl hold
      · simp only [storesCurrent, Bool.and_eq_true, decide_eq_true_eq, Bool.not_eq_true'] at hmay
        exact .inr ⟨hmay.1, hnone, unlocked_of_userLocked hmay.2⟩
  · rw [(run_frame hrun).refreshTokens hrefresh htopic]
    exact fun _ ha => .inl ha

theorem renewed_of_run (hrun : AuthDb.run party i s o w = some (r, w'))
    (htopic : s.topic ≠ .transaction) : w.user.generation ≤ w'.user.generation ∧
      (w'.user.generation = w.user.generation ∨ Unlocked i w) := by
  have hsame : w.user.generation ≤ w.user.generation ∧
      (w.user.generation = w.user.generation ∨ Unlocked i w) := ⟨Nat.le_refl _, .inl rfl⟩
  rcases run_cases hrun with rfl | ⟨e, heffect, hwritten⟩ | heffect
  · exact hsame
  · cases hwritten with
    | pending _ _ _ _ => exact hsame
    | done _ hfree _ =>
      exact ⟨generation_le_effect heffect w.user, .inr (unlocked_of_userLocked hfree)⟩
  rw [(run_frame hrun).user (topic_ne_row heffect) htopic]
  exact hsame

theorem Steady.run (h : Current w) (hmay : storesCurrent i s w = true)
    (hrun : AuthDb.run party i s o w = some (r, w')) : Steady i w w' := by
  have hothers := (run_frame hrun).others
  by_cases htopic : s.topic = .transaction
  · rcases transaction_cases hrun htopic with rfl | ⟨-, rfl⟩ | ⟨-, t, ht, rfl⟩ | ⟨-, rfl⟩
    · exact .of_same hothers rfl fun _ ha => ha
    · exact .of_same hothers rfl fun _ ha => ha
    · exact .publish h ht
    · exact .of_same hothers rfl fun _ ha => ha
  · obtain ⟨hle, hrenewed⟩ := renewed_of_run hrun htopic
    refine ⟨hothers, hle, hrenewed, ?_⟩
    intro a ha
    rcases tokens_of_run hmay hrun htopic a ha with hold | ⟨horigin, -, hfree⟩
    · exact .inl hold
    · exact .inr ⟨horigin, hfree⟩

structure Kept (s : AuthStmt) (t t' : Tx) : Prop where
  lock : t.lock ≠ none → t'.lock ≠ none
  deleted : ∀ id ∈ t.deleted, id ∈ t'.deleted
  inserted : ∀ a ∈ t'.inserted, a ∈ t.inserted ∨ ∃ e, s = .storeRefreshToken e a.origin

theorem Kept.refl : Kept s t t := ⟨id, fun _ hid => hid, fun _ ha => .inl ha⟩

theorem Kept.of_frame (h : TxFrame s t t') (hlock : t.lock ≠ none → t'.lock ≠ none)
    (hrefresh : s.topic ≠ .refresh) : Kept s t t' where
  lock := hlock
  deleted := by
    rw [h.deleted hrefresh]
    exact fun _ hid => hid
  inserted := by
    rw [h.inserted hrefresh]
    exact fun _ ha => .inl ha

theorem noTx_of_run (hrun : AuthDb.run party i s o w = some (r, w')) (hs : s ≠ .begin)
    (hnone : w.tx i = none) : w'.tx i = none := by
  by_cases htopic : s.topic = .transaction
  · rcases transaction_cases hrun htopic with rfl | ⟨hbegin, -⟩ | ⟨-, t, ht, -⟩ | ⟨-, rfl⟩
    · exact hnone
    · exact absurd hbegin hs
    · rw [hnone] at ht
      cases ht
    · rw [tx_endTx, if_pos rfl]
  · rcases (run_frame hrun).own htopic with hsame | ⟨t, -, ht, -, -⟩
    · exact hsame.trans hnone
    · rw [hnone] at ht
      cases ht

section

variable (hrun : AuthDb.run party i s o w = some (r, w')) (htopic : s.topic ≠ .transaction)
include hrun htopic

theorem kept_of_run (ht : w.tx i = some t) : ∃ t', w'.tx i = some t' ∧ Kept s t t' := by
  have hset {t' : Tx} {v : AuthDb ι κ} (h : Kept s t t') :
      ∃ t'', (v.setTx i t').tx i = some t'' ∧ Kept s t t'' :=
    ⟨t', by rw [tx_setTx, if_pos rfl], h⟩
  have hsame : ∃ t', w.tx i = some t' ∧ Kept s t t' := ⟨t, ht, .refl⟩
  rcases run_cases hrun with rfl | ⟨e, heffect, hwritten⟩ | heffect
  · exact hsame
  · cases hwritten with
    | pending _ _ ht' hlock =>
      rw [ht] at ht'
      cases ht'
      exact hset ⟨fun _ => hlock, fun _ hid => hid, fun _ ha => .inl ha⟩
    | done _ _ hnone =>
      rw [ht] at hnone
      cases hnone
  by_cases hlock : s.topic = .lock
  · cases s with
    | lockUser =>
      rcases lockUser_cases hrun with ⟨-, rfl⟩ | ⟨-, -, ⟨t', ht', rfl⟩ | ⟨-, rfl⟩⟩
      · exact hsame
      · rw [ht] at ht'
        cases ht'
        exact hset ⟨fun _ => nofun, fun _ hid => hid, fun _ ha => .inl ha⟩
      · exact hsame
    | _ => cases hlock
  · by_cases hrefresh : s.topic = .refresh
    · cases refreshed_of_run hrun hrefresh with
      | same => exact hsame
      | pending ht' _ hdeleted hinserted =>
        rw [ht] at ht'
        cases ht'
        exact hset ⟨id, hdeleted, hinserted⟩
      | done _ _ _ => exact hsame
    · rcases (run_frame hrun).own htopic with heq | ⟨t₀, t', ht₀, ht', htx⟩
      · exact ⟨t, heq ▸ ht, .refl⟩
      · rw [ht] at ht₀
        cases ht₀
        have hkept := htx.lock (topic_ne_row heffect) hlock
        exact ⟨t', ht', .of_frame htx (fun h => hkept ▸ h) hrefresh⟩

theorem row_le_of_run : (w.row i).generation ≤ (w'.row i).generation := by
  rcases run_cases hrun with rfl | ⟨e, heffect, hwritten⟩ | heffect
  · exact Nat.le_refl _
  · rw [hwritten.row]
    exact generation_le_effect heffect (w.row i)
  have hrow := topic_ne_row heffect
  have hframe := run_frame hrun
  have huser := hframe.user hrow htopic
  suffices hsame : w.row i = w'.row i from Nat.le_of_eq (congrArg _ hsame)
  unfold AuthDb.row
  rcases hframe.own htopic with hsame | ⟨t, t', ht, ht', htx⟩
  · rw [hsame, huser]
  · simp only [ht, ht', Option.bind_some, htx.user hrow, huser]

theorem user_of_run (ht' : w'.tx i = some t') : w'.user = w.user := by
  rcases run_cases hrun with rfl | ⟨e, heffect, hwritten⟩ | heffect
  · rfl
  · cases hwritten with
    | pending _ _ _ _ => rfl
    | done _ _ hnone =>
      rw [show w.tx i = some t' from ht'] at hnone
      cases hnone
  · exact (run_frame hrun).user (topic_ne_row heffect) htopic

end

section

variable (h : Current w) (hmay : storesCurrent i s w = true)
  (hrun : AuthDb.run party i s o w = some (r, w'))
  (hlocked : ∀ e n t, s = .storeRefreshToken e n → w.tx i = some t → t.lock ≠ none)
include h hmay hrun hlocked

theorem Current.own (htopic : s.topic ≠ .transaction) (ht' : w'.tx i = some t') :
    (∀ u, t'.user = some u → w'.user.generation ≤ u.generation) ∧
      ∀ a ∈ t'.inserted, a.origin = w'.user.generation ∧ t'.lock ≠ none := by
  have huser := user_of_run hrun htopic ht'
  rw [huser]
  refine ⟨?_, ?_⟩
  · intro u hu
    have hrow : w'.row i = u := by simp [AuthDb.row, ht', hu]
    calc w.user.generation ≤ (w.row i).generation := h.row_le i
      _ ≤ (w'.row i).generation := row_le_of_run hrun htopic
      _ = u.generation := by rw [hrow]
  · cases ht : w.tx i with
    | none =>
      have hnone := noTx_of_run hrun (fun hs => htopic (hs ▸ rfl)) ht
      rw [hnone] at ht'
      cases ht'
    | some t =>
      obtain ⟨t'', ht'', hkept⟩ := kept_of_run hrun htopic ht
      rw [ht'] at ht''
      cases ht''
      intro a ha
      rcases hkept.inserted a ha with hold | ⟨e, hs⟩
      · obtain ⟨horigin, hlock⟩ := h.inserted ht a hold
        exact ⟨horigin, hkept.lock hlock⟩
      · rw [hs] at hmay
        simp only [storesCurrent, Bool.and_eq_true, decide_eq_true_eq] at hmay
        exact ⟨hmay.1, hkept.lock (hlocked e a.origin t hs ht)⟩

/-- A step of a member keeps what is known, as long as sessions are stored in a transaction only once it
has locked the row. -/
theorem Current.run : Current w' := by
  have hsteady := Steady.run h hmay hrun
  -- the version in the table is the one of before for whoever has the row
  have hsame {j : ι} {t : Tx} (hj : j ≠ i) (ht : w.tx j = some t) (hlock : t.lock ≠ none) :
      w'.user.generation = w.user.generation := by
    rcases hsteady.renewed with heq | hfree
    · exact heq
    · exact absurd (hfree j t hj ht) hlock
  have hown {t' : Tx} (ht' : w'.tx i = some t') :
      (∀ u, t'.user = some u → w'.user.generation ≤ u.generation) ∧
        ∀ a ∈ t'.inserted, a.origin = w'.user.generation ∧ t'.lock ≠ none := by
    by_cases htopic : s.topic = .transaction
    · rcases transaction_cases hrun htopic with rfl | ⟨-, rfl⟩ | ⟨-, t, -, rfl⟩ | ⟨-, rfl⟩
      · exact ⟨fun u hu => h.ahead ht' hu, h.inserted ht'⟩
      · obtain rfl := own_setTx ht'
        exact ⟨nofun, nofun⟩
      · exact own_endTx ht'
      · exact own_endTx ht'
    · exact h.own hmay hrun hlocked htopic ht'
  refine ⟨h.locks.run hrun, ?_, ?_⟩
  · intro j t' u ht' hu
    by_cases hj : j = i
    · subst hj
      exact (hown ht').1 u hu
    · rw [hsteady.others j hj] at ht'
      rw [hsame hj ht' (h.locks.pending ht' (hu ▸ nofun))]
      exact h.ahead ht' hu
  · intro j t' ht' a ha
    by_cases hj : j = i
    · subst hj
      exact (hown ht').2 a ha
    · rw [hsteady.others j hj] at ht'
      obtain ⟨horigin, hlock⟩ := h.inserted ht' a ha
      rw [hsame hj ht' hlock]
      exact ⟨horigin, hlock⟩

end

end Run

theorem Current.endTx (h : Current w) : Current (w.endTx i) where
  locks := h.locks.endTx
  ahead := by
    intro j t u ht hu
    rw [tx_endTx] at ht
    split_ifs at ht with hj
    exact h.ahead ht hu
  inserted := by
    intro j t ht
    rw [tx_endTx] at ht
    split_ifs at ht with hj
    exact h.inserted ht

/-! How far a request has come with the sessions. -/

structure Progress where
  inTx : Bool := false
  locked : Bool := false
  /-- The refresh token that is to be exchanged. -/
  rotating : Option ℕ := none
  stored : Bool := false
  /-- There is a new password, or the account is suspended. -/
  changed : Bool := false
  listed : Option (List ℕ) := none
  cleared : Bool := false
  /-- The sessions could not be deleted after the password was changed. -/
  failed : Bool := false
  deriving DecidableEq

namespace Progress

def exposed (p : Progress) : Bool := p.changed && !p.inTx && !p.cleared

def next (p : Progress) : (s : AuthStmt) → Except SqlError s.Val → Progress
  | .begin, .ok _ => { inTx := true }
  | .commit, .ok _ => { p with inTx := false, locked := false, rotating := none, stored := false }
  | .rollback, .ok _ => if p.inTx then {} else p
  | .lockUser, .ok _ => { p with locked := p.inTx }
  | .setPassword _, .ok _ | .suspend, .ok _ =>
    { p with locked := p.inTx, changed := true, listed := none, cleared := false }
  | .consumeRefreshToken _, .ok token => { p with rotating := some token.id }
  | .storeRefreshToken _ _, .ok _ => { p with stored := p.stored || p.inTx }
  | .selectRefreshTokens, .ok ids => { p with listed := some ids }
  | .deleteRefreshTokens ids, .ok _ => { p with cleared := p.cleared || p.listed = some ids }
  | .selectRefreshTokens, .error _ | .deleteRefreshTokens _, .error _ =>
    { p with failed := p.failed || p.exposed }
  | _, _ => p

/-- The calls that a request makes when it has come so far. -/
def permits (p : Progress) : AuthStmt → Prop
  | .consumeRefreshToken _ => p.inTx = true
  | .setPassword _ | .suspend => p.stored = false
  | .storeRefreshToken _ _ => p.inTx = true → p.locked = true ∧ p.changed = false
  | .commit => p.changed = true → p.cleared = true
  | .respond _ => p.changed = true → p.inTx = false → p.cleared = true ∨ p.failed = true
  | _ => True

end Progress

/-- What is known of a member that has come so far, where `g` is the version of the account that it has
made. -/
structure Stands (w : AuthDb ι κ) (j : ι) (p : Progress) (g : ℕ) : Prop where
  inTx : p.inTx = (w.tx j).isSome
  locked : p.locked = true → ∃ t, w.tx j = some t ∧ t.lock ≠ none
  rotating : ∀ id, p.rotating = some id → ∃ t, w.tx j = some t ∧ id ∈ t.deleted
  stored : p.stored = false → ∀ t, w.tx j = some t → t.inserted = []
  changed : p.changed = true → g ≤ (w.row j).generation
  pending : p.changed = true → ∀ t, w.tx j = some t → t.lock ≠ none ∧ p.stored = false
  listed : ∀ ids, p.changed = true → p.listed = some ids →
    ∀ a ∈ w.refreshTokens, a.id ∈ ids ∨ (w.tx j = none ∧ g ≤ a.origin)
  cleared : p.changed = true → p.cleared = true →
    ∀ a ∈ w.refreshTokens, (∃ t, w.tx j = some t ∧ a.id ∈ t.deleted) ∨ (w.tx j = none ∧ g ≤ a.origin)
  failed : p.failed = false

namespace Stands

variable {p : Progress} {g : ℕ}

theorem fresh (hin : b = (w.tx j).isSome)
    (hstored : ∀ t, w.tx j = some t → t.inserted = []) : Stands w j { inTx := b } g :=
  ⟨hin, nofun, nofun, fun _ => hstored, nofun, nofun, nofun, nofun, rfl⟩

theorem start (hnone : w.tx j = none) : Stands w j {} g :=
  .fresh (by rw [hnone]; rfl) fun t ht => absurd (hnone.symm.trans ht) nofun

theorem mono (h : Stands w j p g)
    (hsome : ∀ t, w.tx j = some t → ∃ t', w'.tx j = some t' ∧ (t.lock ≠ none → t'.lock ≠ none) ∧
      (∀ id ∈ t.deleted, id ∈ t'.deleted) ∧ (p.stored = false → t.inserted = [] → t'.inserted = []))
    (hnone : w.tx j = none → w'.tx j = none) (hrow : (w.row j).generation ≤ (w'.row j).generation)
    (htokens : ∀ a ∈ w'.refreshTokens, a ∈ w.refreshTokens ∨
      (a.origin = w.user.generation ∧ ∀ t, w.tx j = some t → t.lock = none)) : Stands w' j p g := by
  -- a new session belongs to the new version, since nobody has the row
  have hnew {a : RefreshToken} (hchanged : p.changed = true) (horigin : a.origin = w.user.generation)
      (hfree : ∀ t, w.tx j = some t → t.lock = none) : w'.tx j = none ∧ g ≤ a.origin := by
    cases ht : w.tx j with
    | some t => exact absurd (hfree t ht) (h.pending hchanged t ht).1
    | none =>
      have hle := h.changed hchanged
      have huser : w.row j = w.user := by simp [AuthDb.row, ht]
      rw [huser] at hle
      exact ⟨hnone ht, horigin ▸ hle⟩
  have hback {t' : Tx} (ht' : w'.tx j = some t') : ∃ t, w.tx j = some t := by
    cases ht : w.tx j with
    | some t => exact ⟨t, rfl⟩
    | none =>
      rw [hnone ht] at ht'
      cases ht'
  refine ⟨?_, ?_, ?_, ?_, ?_, ?_, ?_, ?_, h.failed⟩
  · rw [h.inTx]
    cases ht : w.tx j with
    | none => rw [hnone ht]
    | some t =>
      obtain ⟨t', ht', -⟩ := hsome t ht
      rw [ht']
      rfl
  · intro hlocked
    obtain ⟨t, ht, hlock⟩ := h.locked hlocked
    obtain ⟨t', ht', hlock', -⟩ := hsome t ht
    exact ⟨t', ht', hlock' hlock⟩
  · intro id hid
    obtain ⟨t, ht, hmem⟩ := h.rotating id hid
    obtain ⟨t', ht', -, hdeleted, -⟩ := hsome t ht
    exact ⟨t', ht', hdeleted id hmem⟩
  · intro hstored t' ht'
    obtain ⟨t, ht⟩ := hback ht'
    obtain ⟨t'', ht'', -, -, hinserted⟩ := hsome t ht
    rw [ht'] at ht''
    cases ht''
    exact hinserted hstored (h.stored hstored t ht)
  · intro hchanged
    exact Nat.le_trans (h.changed hchanged) hrow
  · intro hchanged t' ht'
    obtain ⟨t, ht⟩ := hback ht'
    obtain ⟨t'', ht'', hlock, -⟩ := hsome t ht
    rw [ht'] at ht''
    cases ht''
    obtain ⟨hheld, hstored⟩ := h.pending hchanged t ht
    exact ⟨hlock hheld, hstored⟩
  · intro ids hchanged hids a ha
    rcases htokens a ha with hold | ⟨horigin, hfree⟩
    · rcases h.listed ids hchanged hids a hold with hmem | ⟨ht, hle⟩
      · exact .inl hmem
      · exact .inr ⟨hnone ht, hle⟩
    · exact .inr (hnew hchanged horigin hfree)
  · intro hchanged hcleared a ha
    rcases htokens a ha with hold | ⟨horigin, hfree⟩
    · rcases h.cleared hchanged hcleared a hold with ⟨t, ht, hmem⟩ | ⟨ht, hle⟩
      · obtain ⟨t', ht', -, hdeleted, -⟩ := hsome t ht
        exact .inl ⟨t', ht', hdeleted _ hmem⟩
      · exact .inr ⟨hnone ht, hle⟩
    · exact .inr (hnew hchanged horigin hfree)

theorem others (h : Stands w j p g) (hsteady : Steady i w w') (hj : j ≠ i) : Stands w' j p g := by
  have htx := hsteady.others j hj
  refine h.mono ?_ ?_ ?_ ?_
  · intro t ht
    exact ⟨t, htx.trans ht, id, fun _ hid => hid, fun _ hnil => hnil⟩
  · exact fun hnone => htx.trans hnone
  · unfold AuthDb.row
    rw [htx]
    cases hrow : (w.tx j).bind (·.user) with
    | none => exact hsteady.generation
    | some u => exact Nat.le_refl _
  · intro a ha
    rcases hsteady.tokens a ha with hold | ⟨horigin, hfree⟩
    · exact .inl hold
    · exact .inr ⟨horigin, fun t ht => hfree j t hj ht⟩

/-! The calls of the member itself. -/

theorem row_of_noTx (hnone : w.tx j = none) : w.row j = w.user := by simp [AuthDb.row, hnone]

theorem begin : Stands (w.setTx j { startedAt := w.now }) j { inTx := true } g := by
  have htx : (w.setTx j { startedAt := w.now }).tx j = some { startedAt := w.now } := by
    rw [tx_setTx, if_pos rfl]
  refine .fresh (by rw [htx]; rfl) ?_
  intro t ht
  cases htx.symm.trans ht
  rfl

section

variable (h : Stands w j p g)
include h

theorem commit (ht : w.tx j = some t)
    (hcleared : p.changed = true → p.cleared = true) : Stands ((w.publish t).endTx j) j
      { p with inTx := false, locked := false, rotating := none, stored := false } g := by
  have hnone : ((w.publish t).endTx j).tx j = none := by rw [tx_endTx, if_pos rfl]
  have hempty (hchanged : p.changed = true) {a : RefreshToken}
      (ha : a ∈ ((w.publish t).endTx j).refreshTokens) {P : Prop} : P := by
    rcases mem_append.1 ha with ha | ha
    · rw [h.stored (h.pending hchanged t ht).2 t ht] at ha
      cases ha
    · obtain ⟨ha, hkept⟩ := mem_filter.1 ha
      rcases h.cleared hchanged (hcleared hchanged) a ha with ⟨t', ht', hmem⟩ | ⟨hnone', -⟩
      · rw [ht] at ht'
        cases ht'
        exact absurd hmem (of_decide_eq_true hkept)
      · rw [ht] at hnone'
        cases hnone'
  refine ⟨?_, nofun, nofun, ?_, ?_, ?_, ?_, ?_, h.failed⟩
  · rw [hnone]
    rfl
  · intro _ t' ht'
    rw [hnone] at ht'
    cases ht'
  · intro hchanged
    have hrow : ((w.publish t).endTx j).row j = w.row j := by
      rw [row_of_noTx hnone, AuthDb.row, ht]
      rfl
    rw [hrow]
    exact h.changed hchanged
  · intro _ t' ht'
    rw [hnone] at ht'
    cases ht'
  · exact fun _ hchanged _ a ha => hempty hchanged ha
  · exact fun hchanged _ a ha => hempty hchanged ha

theorem commit_none (hnone : w.tx j = none) :
    Stands w j { p with inTx := false, locked := false, rotating := none, stored := false } g :=
  { h with
    inTx := by rw [hnone]; rfl
    locked := nofun
    rotating := nofun
    stored := fun _ t ht => absurd (hnone.symm.trans ht) nofun
    pending := fun _ t ht => absurd (hnone.symm.trans ht) nofun }

theorem rollback : Stands (w.endTx j) j (if p.inTx then {} else p) g := by
  have hnone : (w.endTx j).tx j = none := by rw [tx_endTx, if_pos rfl]
  split_ifs with hin
  · exact start hnone
  · have hfalse : (w.tx j).isSome = false := h.inTx ▸ eq_false_of_ne_true hin
    have hold : w.tx j = none := by simpa using hfalse
    refine h.mono ?_ (fun _ => hnone) ?_ (fun a ha => .inl ha)
    · intro t ht
      rw [hold] at ht
      cases ht
    · rw [row_of_noTx hold, row_of_noTx hnone]
      exact Nat.le_refl _

theorem lock (hlock : ∀ t, w.tx j = some t → t.lock ≠ none) :
    Stands w j { p with locked := p.inTx } g := by
  refine { h with locked := fun hin => ?_ }
  have hsome : (w.tx j).isSome = true := h.inTx ▸ hin
  obtain ⟨t, ht⟩ := Option.isSome_iff_exists.1 hsome
  exact ⟨t, ht, hlock t ht⟩

theorem renew (hlock : ∀ t, w.tx j = some t → t.lock ≠ none) (hstored : p.stored = false) :
    Stands w j { p with locked := p.inTx, changed := true, listed := none, cleared := false }
      (w.row j).generation :=
  { h with
    locked := (h.lock hlock).locked
    changed := fun _ => Nat.le_refl _
    pending := fun _ t ht => ⟨hlock t ht, hstored⟩
    listed := nofun
    cleared := nofun }

theorem rotate {id : ℕ} (ht : w.tx j = some t) (hid : id ∈ t.deleted) :
    Stands w j { p with rotating := some id } g := by
  refine { h with rotating := fun id' heq => ?_ }
  cases heq
  exact ⟨t, ht, hid⟩

theorem store (hchanged : p.changed = false) : Stands w j { p with stored := true } g :=
  { h with
    stored := nofun
    pending := fun htrue => absurd (hchanged.symm.trans htrue) nofun }

theorem list (hall : ∀ a ∈ w.refreshTokens, a.id ∈ ids) :
    Stands w j { p with listed := some ids } g := by
  refine { h with listed := fun ids' _ heq a ha => ?_ }
  cases heq
  exact .inl (hall a ha)

theorem clear (hall : p.changed = true → p.listed = some ids → ∀ a ∈ w.refreshTokens,
      (∃ t, w.tx j = some t ∧ a.id ∈ t.deleted) ∨ (w.tx j = none ∧ g ≤ a.origin)) :
    Stands w j { p with cleared := p.cleared || p.listed = some ids } g := by
  refine { h with cleared := fun hchanged hcleared => ?_ }
  rcases Bool.or_eq_true_iff.1 hcleared with hbefore | hnow
  · exact h.cleared hchanged hbefore
  · exact hall hchanged (of_decide_eq_true hnow)

/-- The sessions could not be deleted, but the password was not changed. -/
theorem miss (hexposed : p.exposed = false) :
    Stands w j { p with failed := p.failed || p.exposed } g :=
  { h with failed := by rw [h.failed, hexposed]; rfl }

end

section Run

variable [DecidableEq κ] {party : ι → κ} {s : AuthStmt} {o : Outcome} {r : Except SqlError s.Val}

theorem keep (h : Stands w i p g) (hmay : storesCurrent i s w = true)
    (hrun : AuthDb.run party i s o w = some (r, w')) (htopic : s.topic ≠ .transaction)
    (hstored : p.stored = false → ∀ e n, s = .storeRefreshToken e n → w.tx i = none) :
    Stands w' i p g := by
  refine h.mono ?_ ?_ (row_le_of_run hrun htopic) ?_
  · intro t ht
    obtain ⟨t', ht', hkept⟩ := kept_of_run hrun htopic ht
    refine ⟨t', ht', hkept.lock, hkept.deleted, ?_⟩
    intro hstill hnil
    refine eq_nil_iff_forall_not_mem.2 ?_
    intro a ha
    rcases hkept.inserted a ha with hold | ⟨e, hs⟩
    · rw [hnil] at hold
      cases hold
    · rw [hstored hstill e _ hs] at ht
      cases ht
  · exact noTx_of_run hrun fun hs => htopic (hs ▸ rfl)
  · intro a ha
    rcases tokens_of_run hmay hrun htopic a ha with hold | ⟨horigin, hnone, -⟩
    · exact .inl hold
    · refine .inr ⟨horigin, ?_⟩
      intro t ht
      rw [hnone] at ht
      cases ht

end Run

end Stands

/-- The version of the account that a member has made: a new one with a new password or a suspension. -/
def AuthStmt.made (new old : ℕ) : (s : AuthStmt) → Except SqlError s.Val → ℕ
  | .setPassword _, .ok _ | .suspend, .ok _ => new
  | _, _ => old

namespace Stands

variable {p : Progress} {g : ℕ} [DecidableEq κ] {party : ι → κ} {s : AuthStmt} {o : Outcome}
  {r : Except SqlError s.Val}

theorem run (h : Stands w i p g) (hmay : storesCurrent i s w = true) (hpermits : p.permits s)
    (hreached : o = .unavailable → p.exposed = false)
    (hrun : AuthDb.run party i s o w = some (r, w')) :
    Stands w' i (p.next s r) (s.made (w'.row i).generation g r) := by
  cases s with
  | begin =>
    rcases Outcome.sql_cases hrun with ⟨-, rfl, rfl⟩ | hx
    · exact h
    · cases hx
      exact .begin
  | commit =>
    rcases commit_cases hrun with ⟨⟨e, rfl⟩, rfl⟩ | ⟨rfl, ⟨t, ht, rfl⟩ | ⟨hnone, rfl⟩⟩
    · exact h
    · exact h.commit ht hpermits
    · exact h.commit_none hnone
  | rollback =>
    rcases Outcome.sql_cases hrun with ⟨-, rfl, rfl⟩ | hx
    · exact h
    · cases hx
      exact h.rollback
  | lockUser =>
    have hkept := h.keep hmay hrun nofun (fun _ _ _ => nofun)
    rcases lockUser_cases hrun with ⟨⟨e, rfl⟩, rfl⟩ | ⟨⟨b, rfl⟩, -, ⟨t, ht, rfl⟩ | ⟨hnone, rfl⟩⟩
    · exact h
    · refine hkept.lock fun t' ht' => ?_
      obtain rfl := own_setTx ht'
      nofun
    · refine h.lock fun t ht => ?_
      rw [hnone] at ht
      cases ht
  | setPassword _ | suspend =>
    have hkept := h.keep hmay hrun nofun (fun _ _ _ => nofun)
    rcases Outcome.sql_cases hrun with ⟨-, rfl, rfl⟩ | hx
    · exact h
    · obtain ⟨hwritten, rfl⟩ := written_of_writing hx
      exact hkept.renew (fun t ht => hwritten.lock ht) hpermits
  | consumeRefreshToken id =>
    have hkept := h.keep hmay hrun nofun (fun _ _ _ => nofun)
    rcases consumeRefreshToken_cases hrun with
      ⟨⟨e, rfl⟩, rfl⟩ | ⟨token, -, rfl, rfl, -, ⟨t, ht, -, rfl⟩ | ⟨hnone, rfl⟩⟩
    · exact h
    · exact hkept.rotate (by rw [tx_setTx, if_pos rfl]) (mem_cons_self ..)
    · have hin : (w.tx i).isSome = true := h.inTx ▸ hpermits
      rw [hnone] at hin
      cases hin
  | storeRefreshToken expiresAt origin =>
    rcases storeRefreshToken_cases hrun with ⟨⟨e, rfl⟩, rfl⟩ | ⟨rfl, -⟩
    · exact h
    · show Stands w' i { p with stored := p.stored || p.inTx } g
      cases ht : w.tx i with
      | some t =>
        have hin : p.inTx = true := by rw [h.inTx, ht]; rfl
        have hstored := (h.store (hpermits hin).2).keep hmay hrun nofun nofun
        rw [hin, Bool.or_true]
        exact hin ▸ hstored
      | none =>
        have hin : p.inTx = false := by rw [h.inTx, ht]; rfl
        have hkept := h.keep hmay hrun nofun (fun _ _ _ _ => ht)
        rw [hin, Bool.or_false]
        exact hin ▸ hkept
  | selectRefreshTokens =>
    obtain ⟨rfl, ⟨hdown, rfl⟩ | ⟨ids, rfl, hall⟩⟩ := selectRefreshTokens_cases hrun
    · exact h.miss (hreached hdown)
    · exact h.list hall
  | deleteRefreshTokens ids =>
    have hkept := h.keep hmay hrun nofun (fun _ _ _ => nofun)
    rcases deleteRefreshTokens_cases hrun with
      ⟨hdown, rfl, rfl⟩ | ⟨rfl, -, ⟨t, ht, rfl⟩ | ⟨hnone, rfl⟩⟩
    · exact h.miss (hreached hdown)
    · refine hkept.clear ?_
      intro hchanged hlisted a ha
      rcases h.listed ids hchanged hlisted a ha with hmem | ⟨hnone, -⟩
      · refine .inl ⟨_, by rw [tx_setTx, if_pos rfl], mem_append_left _ ?_⟩
        exact mem_filter.2 ⟨List.mem_map_of_mem ha, decide_eq_true hmem⟩
      · rw [ht] at hnone
        cases hnone
    · refine hkept.clear ?_
      intro hchanged hlisted a ha
      obtain ⟨ha, hkeep⟩ := mem_filter.1 ha
      rcases h.listed ids hchanged hlisted a ha with hmem | hlater
      · exact absurd hmem (of_decide_eq_true hkeep)
      · exact .inr hlater
  | _ => exact h.keep hmay hrun nofun (fun _ _ _ => nofun)

end Stands

end Clumoove.Auth
