import Clumoove.Spec.Auth.Handlers

/-! What the calls do to the row of the account, in the table and in the transactions under way, and
to what somebody has been given. -/

namespace Clumoove.Auth

open Option

variable {ι κ : Type} {w w' : AuthDb ι κ} {i j : ι}

variable {r : Except SqlError Unit} {f : User → User} {p : User → Bool} {o : Outcome} {α : Type}
  {t : Tx}

theorem Outcome.sql_cases {r : Except SqlError α} (h : o.sql x w = some (r, w')) :
    (o = .unavailable ∧ r = .error .unavailable ∧ w' = w) ∨ x w = some (r, w') := by
  cases o with
  | done => exact .inr h
  | unavailable =>
    cases h
    exact .inl ⟨rfl, rfl, rfl⟩
  | _ => cases h

theorem Outcome.sql_error {r : Except SqlError α}
    (h : o.sql x w = some (r, w')) : ((∃ e, r = .error e) ∧ w' = w) ∨ x w = some (r, w') :=
  (sql_cases h).imp_left fun ⟨_, hr, hw⟩ => ⟨⟨_, hr⟩, hw⟩

theorem Outcome.present_cases {held : List α} {r : Except SqlError α}
    (h : o.present held w = some (r, w')) :
    w' = w ∧ ((∃ a ∈ held, r = .ok a) ∨ r = .error .noRows) := by
  cases o with
  | number n =>
    obtain ⟨a, ha, hr⟩ := map_eq_some_iff.1 h
    cases hr
    exact ⟨rfl, .inl ⟨a, List.mem_of_getElem? ha, rfl⟩⟩
  | unavailable =>
    cases h
    exact ⟨rfl, .inr rfl⟩
  | _ => cases h

theorem Outcome.decide_world {r : Except SqlError Bool} (h : o.decide w = some (r, w')) :
    w' = w := by
  cases o with
  | choice b =>
    cases h
    rfl
  | _ => cases h

namespace AuthDb

variable [DecidableEq ι]

@[simp] theorem tx_setTx : (w.setTx i t).tx j = if j = i then some t else w.tx j :=
  GoMap.get_set

@[simp] theorem tx_endTx : (w.endTx i).tx j = if j = i then none else w.tx j := GoMap.get_erase

theorem others_setTx : ∀ j, j ≠ i → (w.setTx i t).tx j = w.tx j := fun _ hj => by
  rw [tx_setTx, if_neg hj]

theorem others_endTx : ∀ j, j ≠ i → (w.endTx i).tx j = w.tx j := fun _ hj => by
  rw [tx_endTx, if_neg hj]

theorem own_setTx (h : (w.setTx i t).tx i = some t') : t' = t := by
  rw [tx_setTx, if_pos rfl] at h
  exact (Option.some.inj h).symm

theorem own_endTx {P : Prop} (h : (w.endTx i).tx i = some t) : P := by
  rw [tx_endTx, if_pos rfl] at h
  cases h

theorem others_false {p : Tx → Bool} (h : w.others i p = false) (hj : j ≠ i)
    (ht : w.tx j = some t) : p t = false := by
  obtain ⟨e, he, rfl⟩ := map_eq_some_iff.1 ht
  have hkey : e.1 = j := by simpa using List.find?_some he
  have hnot := List.any_eq_false.1 h e (List.mem_of_find?_eq_some he)
  by_contra hp
  exact hnot (decide_eq_true ⟨hkey ▸ hj, by simpa using hp⟩)

inductive Written (i : ι) (p : User → Bool) (f : User → User) (w : AuthDb ι κ) :
    Bool → AuthDb ι κ → Prop
  | missed : p (w.row i) = false → Written i p f w false w
  | pending {t lock} : p (w.row i) = true → w.userLocked i = false → w.tx i = some t → lock ≠ none →
      Written i p f w true (w.setTx i { t with lock, user := some (f (w.row i)) })
  | done : p (w.row i) = true → w.userLocked i = false → w.tx i = none →
      Written i p f w true { w with user := f w.user }

theorem written_of_updateUser {b : Bool}
    (h : w.updateUser i mode p f = some (b, w')) : Written i p f w b w' := by
  unfold updateUser at h
  split_ifs at h with hp hl
  · have hl : w.userLocked i = false := eq_false_of_ne_true hl
    cases ht : w.tx i with
    | some t =>
      simp only [ht] at h
      cases h
      refine .pending hp hl ht ?_
      split_ifs with hlock
      · rw [hlock]
        nofun
      · nofun
    | none =>
      simp only [ht] at h
      cases h
      exact .done hp hl ht
  · cases h
    exact .missed (eq_false_of_ne_true hp)

theorem written_of_writing {r : Except SqlError α} (h : writing i f g w = some (r, w')) :
    Written i (fun _ => true) f w true w' ∧ r = .ok (g w (w'.row i)) := by
  obtain ⟨⟨b, v⟩, hv, hr⟩ := map_eq_some_iff.1 h
  cases hr
  have hw := written_of_updateUser hv
  cases hw with
  | missed hp => cases hp
  | pending hp hl ht hlock => exact ⟨.pending hp hl ht hlock, rfl⟩
  | done hp hl ht => exact ⟨.done hp hl ht, rfl⟩

theorem written_of_writingIf {r : Except SqlError Bool}
    (h : writingIf i p f w = some (r, w')) : ∃ b, Written i p f w b w' ∧ r = .ok b := by
  obtain ⟨⟨b, v⟩, hv, hr⟩ := map_eq_some_iff.1 h
  cases hr
  exact ⟨b, written_of_updateUser hv, rfl⟩

/-! The other statements, each with all it can do. -/

section Tokens

variable {id : ℕ}

theorem lockUser_cases {r : Except SqlError Bool} (h : o.sql (lockUser i) w = some (r, w')) :
    ((∃ e, r = .error e) ∧ w' = w) ∨ (∃ b, r = .ok b) ∧ w.userLocked i = false ∧
      ((∃ t, w.tx i = some t ∧ w' = w.setTx i { t with lock := some .update }) ∨
        (w.tx i = none ∧ w' = w)) := by
  refine (Outcome.sql_error h).imp_right fun h => ?_
  unfold lockUser at h
  split_ifs at h with hl
  have hl : w.userLocked i = false := eq_false_of_ne_true hl
  split at h <;> cases h
  · exact ⟨⟨_, rfl⟩, hl, .inl ⟨_, ‹_›, rfl⟩⟩
  · exact ⟨⟨_, rfl⟩, hl, .inr ⟨‹_›, rfl⟩⟩

theorem storeRefreshToken_cases {r : Except SqlError ℕ}
    (h : o.sql (storeRefreshToken i expiresAt origin) w = some (r, w')) :
    ((∃ e, r = .error e) ∧ w' = w) ∨ r = .ok w.nextID ∧
      ((∃ t, w.tx i = some t ∧ w' = { w with nextID := w.nextID + 1 }.setTx i { t with
          inserted := ⟨w.nextID, expiresAt, origin⟩ :: t.inserted }) ∨
        (w.tx i = none ∧ w' = { w with
          nextID := w.nextID + 1
          refreshTokens := ⟨w.nextID, expiresAt, origin⟩ :: w.refreshTokens })) := by
  refine (Outcome.sql_error h).imp_right fun h => ?_
  unfold storeRefreshToken at h
  split_ifs at h
  split at h <;> cases h
  · exact ⟨rfl, .inl ⟨_, ‹_›, rfl⟩⟩
  · exact ⟨rfl, .inr ⟨‹_›, rfl⟩⟩

theorem selectRefreshTokens_cases {r : Except SqlError (List ℕ)}
    (h : o.sql (selectRefreshTokens i) w = some (r, w')) : w' = w ∧
      (o = .unavailable ∧ r = .error .unavailable ∨
        ∃ ids, r = .ok ids ∧ ∀ t ∈ w.refreshTokens, t.id ∈ ids) := by
  rcases Outcome.sql_cases h with ⟨ho, hr, hw⟩ | h
  · exact ⟨hw, .inl ⟨ho, hr⟩⟩
  unfold selectRefreshTokens at h
  split at h <;> cases h <;> refine ⟨rfl, .inr ⟨_, rfl, fun token htoken => ?_⟩⟩
  · exact List.mem_map_of_mem (List.mem_append_right _ htoken)
  · exact List.mem_map_of_mem htoken

theorem deleteRefreshTokens_cases (h : o.sql (deleteRefreshTokens i ids) w = some (r, w')) :
    (o = .unavailable ∧ r = .error .unavailable ∧ w' = w) ∨
      r = .ok () ∧ w.others i (fun t => t.deleted.any (· ∈ ids)) = false ∧
      ((∃ t, w.tx i = some t ∧ w' = w.setTx i { t with
          deleted := (w.refreshTokens.map (·.id)).filter (· ∈ ids) ++ t.deleted
          inserted := t.inserted.filter (·.id ∉ ids) }) ∨
        (w.tx i = none ∧ w' = { w with refreshTokens := w.refreshTokens.filter (·.id ∉ ids) })) := by
  refine (Outcome.sql_cases h).imp_right fun h => ?_
  unfold deleteRefreshTokens at h
  split_ifs at h with hl
  refine ⟨?_, eq_false_of_ne_true hl, ?_⟩ <;> split at h <;> cases h
  · rfl
  · rfl
  · exact .inl ⟨_, ‹_›, rfl⟩
  · exact .inr ⟨‹_›, rfl⟩

theorem consumeRefreshToken_cases {r : Except SqlError RefreshToken}
    (h : o.sql (consumeRefreshToken i id) w = some (r, w')) :
    ((∃ e, r = .error e) ∧ w' = w) ∨ ∃ token ∈ w.refreshTokens, token.id = id ∧ r = .ok token ∧
        w.others i (fun t => id ∈ t.deleted) = false ∧ ((∃ t, w.tx i = some t ∧ id ∉ t.deleted ∧
              w' = w.setTx i { t with deleted := id :: t.deleted }) ∨
            (w.tx i = none ∧ w' = { w with refreshTokens := w.refreshTokens.filter (·.id ≠ id) })) := by
  refine (Outcome.sql_error h).elim .inl fun h => ?_
  unfold consumeRefreshToken at h
  cases hfind : w.refreshTokens.find? fun t => t.id = id ∧ w.clock i < t.expiresAt with
  | none =>
    simp only [hfind] at h
    cases h
    exact .inl ⟨⟨_, rfl⟩, rfl⟩
  | some token =>
    simp only [hfind] at h
    split_ifs at h with hl
    have hmem := List.mem_of_find?_eq_some hfind
    have hid := (of_decide_eq_true (List.find?_some hfind :)).1
    split at h
    · split_ifs at h with hd <;> cases h
      · exact .inl ⟨⟨_, rfl⟩, rfl⟩
      · exact .inr ⟨token, hmem, hid, rfl, eq_false_of_ne_true hl, .inl ⟨_, ‹_›, hd, rfl⟩⟩
    · cases h
      exact .inr ⟨token, hmem, hid, rfl, eq_false_of_ne_true hl, .inr ⟨‹_›, rfl⟩⟩

theorem claimPasswordResetToken_cases (h : o.sql (claimPasswordResetToken i id) w = some (r, w')) :
    ((∃ e, r = .error e) ∧ w' = w) ∨ (r = .ok () ∧
        (∃ token ∈ w.resetTokens, token.id = id ∧ token.used = false ∧ w.clock i < token.expiresAt) ∧
        w.others i (fun t => t.resetToken = some id) = false ∧
          ((∃ t, w.tx i = some t ∧ w' = w.setTx i { t with resetToken := some id }) ∨
            (w.tx i = none ∧ w' = { w with
              resetTokens := Table.updateWhere (·.id = id) (fun t => { t with used := true })
                w.resetTokens }))) := by
  refine (Outcome.sql_error h).elim .inl fun h => ?_
  unfold claimPasswordResetToken at h
  split_ifs at h with hany hl
  · obtain ⟨token, htoken, hp⟩ := List.any_eq_true.1 hany
    obtain ⟨hid, hused, hexp⟩ := of_decide_eq_true hp
    have htoken : ∃ token ∈ w.resetTokens, token.id = id ∧ token.used = false ∧
        w.clock i < token.expiresAt := ⟨token, htoken, hid, eq_false_of_ne_true hused, hexp⟩
    split at h <;> cases h
    · exact .inr ⟨rfl, htoken, eq_false_of_ne_true hl, .inl ⟨_, ‹_›, rfl⟩⟩
    · exact .inr ⟨rfl, htoken, eq_false_of_ne_true hl, .inr ⟨‹_›, rfl⟩⟩
  · cases h
    exact .inl ⟨⟨_, rfl⟩, rfl⟩

theorem selectEmailChangeToken_cases {r : Except SqlError ℕ}
    (h : o.sql (selectEmailChangeToken i id) w = some (r, w')) : w' = w ∧ ((∃ e, r = .error e) ∨
      ∃ token, w.emailTokens.find? (fun t => t.id = id ∧ ¬ t.used ∧ w.clock i < t.expiresAt) =
        some token ∧ r = .ok token.newEmail) := by
  rcases Outcome.sql_error h with ⟨hr, hw⟩ | h
  · exact ⟨hw, .inl hr⟩
  unfold selectEmailChangeToken at h
  split at h <;> cases h
  · exact ⟨rfl, .inr ⟨_, ‹_›, rfl⟩⟩
  · exact ⟨rfl, .inl ⟨_, rfl⟩⟩

theorem useEmailChangeToken_cases (h : o.sql (useEmailChangeToken i id) w = some (r, w')) :
    w' = w ∨ (∃ t, w.tx i = some t ∧ w' = w.setTx i { t with emailToken := some id }) ∨
      (w.tx i = none ∧ w' = { w with
        emailTokens := Table.updateWhere (·.id = id) (fun t => { t with used := true })
          w.emailTokens }) := by
  refine (Outcome.sql_error h).imp And.right fun h => ?_
  unfold useEmailChangeToken at h
  split_ifs at h
  split at h <;> cases h
  · exact .inl ⟨_, ‹_›, rfl⟩
  · exact .inr ⟨‹_›, rfl⟩

theorem commit_cases (h : o.sql (commit i) w = some (r, w')) :
    ((∃ e, r = .error e) ∧ w' = w) ∨ r = .ok () ∧
      ((∃ t, w.tx i = some t ∧ w' = (w.publish t).endTx i) ∨ (w.tx i = none ∧ w' = w)) := by
  refine (Outcome.sql_error h).imp_right fun h => ?_
  unfold commit at h
  split at h <;> cases h
  · exact ⟨rfl, .inl ⟨_, ‹_›, rfl⟩⟩
  · exact ⟨rfl, .inr ⟨‹_›, rfl⟩⟩

end Tokens

end AuthDb

/-- The calls that write the row: their condition, and the row that they make of it. -/
def AuthStmt.effect : AuthStmt → Option ((User → Bool) × (User → User))
  | .incrementLoginFailed t => some (fun _ => true, User.incrementLoginFailed t)
  | .resetLoginFailed => some (fun _ => true, User.resetLoginFailed)
  | .incrementTOTPFailed t => some (fun _ => true, User.incrementTOTPFailed t)
  | .resetTOTPFailed => some (fun _ => true, User.resetTOTPFailed)
  | .consumeTOTPBackupCode code => some (User.hasBackupCode code, User.consumeTOTPBackupCode code)
  | .updateLastLoginAt => some (fun _ => true, id)
  | .setPassword hash => some (fun _ => true, User.setPassword hash)
  | .setTOTPSecret secret => some (fun u => !u.totpEnabled, User.setTOTPSecret secret)
  | .enableTOTP secret codes =>
    some (fun u => !u.totpEnabled && u.totpSecretEnc = some secret, User.enableTOTP codes)
  | .disableTOTP => some (fun _ => true, User.disableTOTP)
  | .setEmail email => some (fun _ => true, User.setEmail email)
  | .suspend => some (fun _ => true, User.suspend)
  | .reactivate => some (fun _ => true, User.reactivate)
  | _ => none

open AuthDb

section EveryRow

variable [DecidableEq ι] {P : User → Prop}

structure EveryRow (P : User → Prop) (w : AuthDb ι κ) : Prop where
  user : P w.user
  pending : ∀ {j t u}, w.tx j = some t → t.user = some u → P u

theorem EveryRow.row (h : EveryRow P w) (i : ι) : P (w.row i) := by
  unfold AuthDb.row
  cases hrow : (w.tx i).bind (·.user) with
  | none => exact h.user
  | some u =>
    obtain ⟨t, ht, hu⟩ := bind_eq_some_iff.1 hrow
    exact h.pending ht hu

theorem EveryRow.frame (h : EveryRow P w) (huser : w'.user = w.user)
    (htx : ∀ {j t'}, w'.tx j = some t' → t'.user = none ∨ ∃ t, w.tx j = some t ∧ t'.user = t.user) :
    EveryRow P w' where
  user := huser ▸ h.user
  pending := by
    intro j t' u ht' hu
    rcases htx ht' with hnone | ⟨t, ht, heq⟩
    · rw [hnone] at hu
      cases hu
    · exact h.pending ht (heq ▸ hu)

theorem EveryRow.setTx (h : EveryRow P w)
    (ht : t.user = none ∨ ∃ t', w.tx i = some t' ∧ t.user = t'.user) : EveryRow P (w.setTx i t) := by
  refine h.frame rfl ?_
  intro j t' ht'
  rw [tx_setTx] at ht'
  split_ifs at ht' with hj
  · cases ht'
    rw [hj]
    exact ht
  · exact .inr ⟨t', ht', rfl⟩

theorem EveryRow.endTx (h : EveryRow P w) : EveryRow P (w.endTx i) := by
  refine h.frame rfl ?_
  intro j t' ht'
  rw [tx_endTx] at ht'
  split_ifs at ht' with hj
  exact .inr ⟨t', ht', rfl⟩

theorem EveryRow.publish (h : EveryRow P w) (ht : w.tx i = some t) : EveryRow P (w.publish t) where
  user := by
    cases hu : t.user with
    | none => simpa [AuthDb.publish, hu] using h.user
    | some u => simpa [AuthDb.publish, hu] using h.pending ht hu
  pending := h.pending

theorem EveryRow.written {b : Bool}
    (h : EveryRow P w) (hstep : ∀ u, p u = true → P u → P (f u)) (hw : Written i p f w b w') :
    EveryRow P w' := by
  cases hw with
  | missed _ => exact h
  | pending hp _ ht _ =>
    refine ⟨h.user, ?_⟩
    intro j t u hj hu
    rw [tx_setTx] at hj
    split_ifs at hj with hji
    · cases hj
      cases hu
      exact hstep _ hp (h.row i)
    · exact h.pending hj hu
  | done hp _ ht =>
    have hrow : w.row i = w.user := by simp [AuthDb.row, ht]
    exact ⟨hstep _ (hrow ▸ hp) h.user, h.pending⟩

end EveryRow

variable [DecidableEq ι] [DecidableEq κ] {party : ι → κ} {s : AuthStmt} {o : Outcome}
  {r : Except SqlError s.Val}

theorem run_written (h : AuthDb.run party i s o w = some (r, w'))
    (hs : s.effect = some (p, f)) : w' = w ∨ Written i p f w true w' := by
  have writing {α : Type} {g : AuthDb ι κ → User → α} {r : Except SqlError α}
      (h : o.sql (writing i f g) w = some (r, w')) (hp : p = fun _ => true) :
      w' = w ∨ Written i p f w true w' := by
    subst hp
    exact (Outcome.sql_error h).imp And.right fun hx => (written_of_writing hx).1
  have writingIf {r : Except SqlError Bool} (h : o.sql (writingIf i p f) w = some (r, w')) :
      w' = w ∨ Written i p f w true w' := by
    refine (Outcome.sql_error h).elim (fun h => .inl h.2) fun hx => ?_
    obtain ⟨b, hb, -⟩ := written_of_writingIf hx
    cases hb with
    | missed hp => exact .inl rfl
    | pending hp hl ht hlock => exact .inr (.pending hp hl ht hlock)
    | done hp hl ht => exact .inr (.done hp hl ht)
  cases s with
  | consumeTOTPBackupCode | setTOTPSecret | enableTOTP =>
    cases hs
    exact writingIf h
  | setEmail email =>
    cases hs
    refine (Outcome.sql_error h).imp And.right fun hx => ?_
    obtain ⟨⟨b, v⟩, hv, hr⟩ := map_eq_some_iff.1 hx
    cases hr
    cases written_of_updateUser hv with
    | missed hp => cases hp
    | pending hp hl ht hlock => exact .pending hp hl ht hlock
    | done hp hl ht => exact .done hp hl ht
  | incrementLoginFailed t | resetLoginFailed | incrementTOTPFailed t | resetTOTPFailed
  | updateLastLoginAt | setPassword hash | disableTOTP | suspend | reactivate =>
    cases hs
    exact writing h rfl
  | _ => cases hs

theorem run_cases (h : AuthDb.run party i s o w = some (r, w')) :
    w' = w ∨ (∃ e, s.effect = some e ∧ Written i e.1 e.2 w true w') ∨ s.effect = none := by
  cases heffect : s.effect with
  | some e => exact (run_written h heffect).imp_right fun hw => .inl ⟨e, rfl, hw⟩
  | none => exact .inr (.inr rfl)

def AuthDb.held (w : AuthDb ι κ) : (κ → List Claims) × (κ → List ℕ) := (w.bearer, w.cookies)

end Clumoove.Auth
