import Clumoove.Sanity.Auth.Rows

/-! What each kind of call leaves as it is. A call of one member changes no transaction but its own,
and of the tables only the one that the call is about; what a transaction has written gets into the
tables when it commits. -/

namespace Clumoove.Auth

open AuthDb List

variable {ι κ : Type} {w w' : AuthDb ι κ} {i j : ι}

inductive Topic
  | row
  | lock
  | refresh
  | reset
  | email
  | ticket
  | transaction
  | answer
  | clock
  | other
  deriving DecidableEq

def AuthStmt.topic : AuthStmt → Topic
  | .incrementLoginFailed _ | .resetLoginFailed | .incrementTOTPFailed _ | .resetTOTPFailed
  | .consumeTOTPBackupCode _ | .updateLastLoginAt | .setPassword _ | .setTOTPSecret _
  | .enableTOTP _ _ | .disableTOTP | .setEmail _ | .suspend | .reactivate => .row
  | .lockUser => .lock
  | .storeRefreshToken _ _ | .deleteRefreshTokens _ | .consumeRefreshToken _ => .refresh
  | .createPasswordResetToken _ | .claimPasswordResetToken _ | .deleteExpiredPasswordResetTokens => .reset
  | .deleteEmailChangeTokens | .createEmailChangeToken _ _ | .useEmailChangeToken _
  | .deleteExpiredEmailChangeTokens => .email
  | .createTicket _ _ | .redeemTicket _ _ => .ticket
  | .begin | .commit | .rollback => .transaction
  | .respond _ => .answer
  | .tick => .clock
  | _ => .other

/-- What a transaction keeps of what it has written. -/
structure TxFrame (s : AuthStmt) (t t' : Tx) : Prop where
  startedAt : t'.startedAt = t.startedAt
  lock : s.topic ≠ .row → s.topic ≠ .lock → t'.lock = t.lock
  user : s.topic ≠ .row → t'.user = t.user
  deleted : s.topic ≠ .refresh → t'.deleted = t.deleted
  inserted : s.topic ≠ .refresh → t'.inserted = t.inserted
  resetToken : (∀ id, s ≠ .claimPasswordResetToken id) → t'.resetToken = t.resetToken
  emailToken : (∀ id, s ≠ .useEmailChangeToken id) → t'.emailToken = t.emailToken

variable [DecidableEq ι] {s : AuthStmt}

structure Frame (s : AuthStmt) (i : ι) (w w' : AuthDb ι κ) : Prop where
  nextID : w.nextID ≤ w'.nextID
  now : s.topic ≠ .clock → w'.now = w.now
  user : s.topic ≠ .row → s.topic ≠ .transaction → w'.user = w.user
  refreshTokens : s.topic ≠ .refresh → s.topic ≠ .transaction → w'.refreshTokens = w.refreshTokens
  resetTokens : s.topic ≠ .reset → s.topic ≠ .transaction → w'.resetTokens = w.resetTokens
  emailTokens : s.topic ≠ .email → s.topic ≠ .transaction → w'.emailTokens = w.emailTokens
  tickets : s.topic ≠ .ticket → w'.tickets = w.tickets
  held : s.topic ≠ .answer → w'.held = w.held
  others : ∀ j, j ≠ i → w'.tx j = w.tx j
  own : s.topic ≠ .transaction → w'.tx i = w.tx i ∨
    ∃ t t', w.tx i = some t ∧ w'.tx i = some t' ∧ TxFrame s t t'

namespace Frame

theorem refl : Frame s i w w where
  nextID := Nat.le_refl _
  now _ := rfl
  user _ _ := rfl
  refreshTokens _ _ := rfl
  resetTokens _ _ := rfl
  emailTokens _ _ := rfl
  tickets _ := rfl
  held _ := rfl
  others _ _ := rfl
  own _ := .inl rfl

/-- The transaction of the member is changed, and nothing else but that numbers are taken. -/
theorem setTx_fresh {t t' : Tx} {n : ℕ} (ht : w.tx i = some t) (hframe : TxFrame s t t')
    (hn : w.nextID ≤ n) : Frame s i w ({ w with nextID := n }.setTx i t') where
  nextID := hn
  now _ := rfl
  user _ _ := rfl
  refreshTokens _ _ := rfl
  resetTokens _ _ := rfl
  emailTokens _ _ := rfl
  tickets _ := rfl
  held _ := rfl
  others := others_setTx
  own _ := .inr ⟨t, t', ht, by rw [tx_setTx, if_pos rfl], hframe⟩

theorem setTx {t t' : Tx} (ht : w.tx i = some t) (hframe : TxFrame s t t') :
    Frame s i w (w.setTx i t') :=
  setTx_fresh ht hframe (Nat.le_refl _)

theorem of_txs (htxs : w'.txs = w.txs) (hnextID : w.nextID ≤ w'.nextID)
    (hnow : s.topic ≠ .clock → w'.now = w.now) (huser : s.topic ≠ .row → w'.user = w.user)
    (hrefresh : s.topic ≠ .refresh → w'.refreshTokens = w.refreshTokens)
    (hreset : s.topic ≠ .reset → w'.resetTokens = w.resetTokens)
    (hemail : s.topic ≠ .email → w'.emailTokens = w.emailTokens)
    (htickets : s.topic ≠ .ticket → w'.tickets = w.tickets)
    (hheld : s.topic ≠ .answer → w'.held = w.held) : Frame s i w w' where
  nextID := hnextID
  now := hnow
  user hg _ := huser hg
  refreshTokens hg _ := hrefresh hg
  resetTokens hg _ := hreset hg
  emailTokens hg _ := hemail hg
  tickets := htickets
  held := hheld
  others j _ := by rw [AuthDb.tx, AuthDb.tx, htxs]
  own _ := .inl (by rw [AuthDb.tx, AuthDb.tx, htxs])

end Frame

theorem transaction_cases [DecidableEq κ] (h : AuthDb.run party i s o w = some (r, w'))
    (hs : s.topic = .transaction) : w' = w ∨ (s = .begin ∧ w' = w.setTx i { startedAt := w.now }) ∨
      (s = .commit ∧ ∃ t, w.tx i = some t ∧ w' = (w.publish t).endTx i) ∨
      (s = .rollback ∧ w' = w.endTx i) := by
  cases s with
  | begin =>
    refine (Outcome.sql_error h).imp And.right fun hx => ?_
    cases hx
    exact .inl ⟨rfl, rfl⟩
  | commit =>
    rcases commit_cases h with ⟨-, rfl⟩ | ⟨-, ⟨t, ht, rfl⟩ | ⟨-, rfl⟩⟩
    · exact .inl rfl
    · exact .inr (.inr (.inl ⟨rfl, t, ht, rfl⟩))
    · exact .inl rfl
  | rollback =>
    refine (Outcome.sql_error h).imp And.right fun hx => ?_
    cases hx
    exact .inr (.inr ⟨rfl, rfl⟩)
  | _ => cases hs

/-- What a call about refresh tokens does, in the transaction of the member or in the table. -/
inductive Refreshed (i : ι) (s : AuthStmt) (w : AuthDb ι κ) : AuthDb ι κ → Prop
  | same : Refreshed i s w w
  | pending {t n deleted inserted} : w.tx i = some t → w.nextID ≤ n → (∀ id ∈ t.deleted, id ∈ deleted) →
      (∀ a ∈ inserted, a ∈ t.inserted ∨ ∃ e, s = .storeRefreshToken e a.origin) →
      Refreshed i s w ({ w with nextID := n }.setTx i { t with deleted, inserted })
  | done {n l} : w.tx i = none → w.nextID ≤ n →
      (∀ a ∈ l, a ∈ w.refreshTokens ∨ ∃ e, s = .storeRefreshToken e a.origin) →
      Refreshed i s w { w with nextID := n, refreshTokens := l }

theorem refreshed_of_run [DecidableEq κ] {party : ι → κ} {o : Outcome} {r : Except SqlError s.Val}
    (h : AuthDb.run party i s o w = some (r, w')) (hs : s.topic = .refresh) : Refreshed i s w w' := by
  cases s with
  | storeRefreshToken e g =>
    have hcons {l : List RefreshToken} : ∀ a ∈ (⟨w.nextID, e, g⟩ :: l : List RefreshToken),
        a ∈ l ∨ ∃ e', AuthStmt.storeRefreshToken e g = .storeRefreshToken e' a.origin := by
      intro a ha
      rcases mem_cons.1 ha with rfl | ha
      · exact .inr ⟨e, rfl⟩
      · exact .inl ha
    rcases storeRefreshToken_cases h with ⟨-, rfl⟩ | ⟨-, ⟨t, ht, rfl⟩ | ⟨hnone, rfl⟩⟩
    · exact .same
    · exact .pending ht (Nat.le_succ _) (fun _ hid => hid) hcons
    · exact .done hnone (Nat.le_succ _) hcons
  | deleteRefreshTokens ids =>
    rcases deleteRefreshTokens_cases h with ⟨-, -, rfl⟩ | ⟨-, -, ⟨t, ht, rfl⟩ | ⟨hnone, rfl⟩⟩
    · exact .same
    · exact .pending ht (Nat.le_refl _) (fun _ hid => mem_append_right _ hid)
        fun a ha => .inl (mem_filter.1 ha).1
    · exact .done hnone (Nat.le_refl _) fun a ha => .inl (mem_filter.1 ha).1
  | consumeRefreshToken id =>
    rcases consumeRefreshToken_cases h with ⟨-, rfl⟩ |
      ⟨token, -, -, -, -, ⟨t, ht, -, rfl⟩ | ⟨hnone, rfl⟩⟩
    · exact .same
    · exact .pending ht (Nat.le_refl _) (fun _ hid => mem_cons_of_mem _ hid) fun _ ha => .inl ha
    · exact .done hnone (Nat.le_refl _) fun a ha => .inl (mem_filter.1 ha).1
  | _ => cases hs

section Run

attribute [local simp] AuthDb.held AuthStmt.topic

variable [DecidableEq κ] {party : ι → κ} {o : Outcome} {r : Except SqlError s.Val}

theorem topic_of_effect {e : (User → Bool) × (User → User)} (hs : s.effect = some e) :
    s.topic = .row := by
  cases s <;> first | rfl | cases hs

theorem topic_ne_row (hs : s.effect = none) : s.topic ≠ .row := by
  intro htopic
  cases s <;> first | (cases hs; done) | cases htopic

omit [DecidableEq κ] in
/-- An update of the row is all in the row, or in the row of the transaction. -/
theorem frame_of_written {p : User → Bool} {f : User → User} {b : Bool} (hs : s.topic = .row)
    (h : Written i p f w b w') : Frame s i w w' := by
  cases h with
  | missed _ => exact .refl
  | pending _ _ ht _ =>
    exact .setTx ht ⟨rfl, fun hg _ => absurd hs hg, fun hg => absurd hs hg, fun _ => rfl, fun _ => rfl,
      fun _ => rfl, fun _ => rfl⟩
  | done _ _ _ =>
    apply Frame.of_txs <;> simp [hs, -AuthStmt.topic]

theorem frame_of_transaction (h : AuthDb.run party i s o w = some (r, w'))
    (hs : s.topic = .transaction) : Frame s i w w' := by
  have hframe {v : AuthDb ι κ} (hnextID : v.nextID = w.nextID) (hnow : v.now = w.now)
      (htickets : v.tickets = w.tickets) (hheld : v.held = w.held)
      (hothers : ∀ j, j ≠ i → v.tx j = w.tx j) : Frame s i w v :=
    { nextID := Nat.le_of_eq hnextID.symm
      now := fun _ => hnow
      user := fun _ hg => absurd hs hg
      refreshTokens := fun _ hg => absurd hs hg
      resetTokens := fun _ hg => absurd hs hg
      emailTokens := fun _ hg => absurd hs hg
      tickets := fun _ => htickets
      held := fun _ => hheld
      others := hothers
      own := fun hg => absurd hs hg }
  rcases transaction_cases h hs with rfl | ⟨-, rfl⟩ | ⟨-, t, -, rfl⟩ | ⟨-, rfl⟩
  · exact .refl
  · exact hframe rfl rfl rfl rfl others_setTx
  · exact hframe rfl rfl rfl rfl others_endTx
  · exact hframe rfl rfl rfl rfl others_endTx

omit [DecidableEq κ] in
theorem frame_of_sql {α : Type} {x : AuthSql ι κ α} {q : Except SqlError α}
    (h : o.sql x w = some (q, w')) (hx : ∀ {q v}, x w = some (q, v) → Frame s i w v) :
    Frame s i w w' := by
  rcases Outcome.sql_error h with ⟨-, rfl⟩ | hv
  · exact .refl
  · exact hx hv

section

variable (h : AuthDb.run party i s o w = some (r, w'))
include h

theorem run_frame : Frame s i w w' := by
  rcases run_cases h with rfl | ⟨e, heffect, hwritten⟩ | heffect
  · exact .refl
  · exact frame_of_written (topic_of_effect heffect) hwritten
  have resets (hs : s.topic = .reset) {l : List MailedToken} {n : ℕ} (hn : w.nextID ≤ n) :
      Frame s i w { w with nextID := n, resetTokens := l } := by
    apply Frame.of_txs <;> simp [hn, hs, -AuthStmt.topic]
  have mails (hs : s.topic = .email) {l : List EmailChangeToken} {n : ℕ} (hn : w.nextID ≤ n) :
      Frame s i w { w with nextID := n, emailTokens := l } := by
    apply Frame.of_txs <;> simp [hn, hs, -AuthStmt.topic]
  cases s with
  | begin | commit | rollback => exact frame_of_transaction h rfl
  | allow | choice =>
    rw [Outcome.decide_world h]
    exact .refl
  | presentToken | presentRefreshToken =>
    rw [(Outcome.present_cases h).1]
    exact .refl
  | now | checkPasswordHash password hash | validateTOTP secret code =>
    cases h
    exact .refl
  | presentMailedToken | presentTicket =>
    cases o with
    | number n =>
      cases h
      exact .refl
    | _ => cases h
  | tick =>
    cases o with
    | number n =>
      cases h
      apply Frame.of_txs <;> simp
    | _ => cases h
  | respond reply =>
    cases h
    exact .of_txs rfl (Nat.le_refl _) (fun _ => rfl) (fun _ => rfl) (fun _ => rfl)
      (fun _ => rfl) (fun _ => rfl) (fun _ => rfl) (fun hg => absurd rfl hg)
  | generateSecret | generateBackupCodes =>
    cases h
    exact .of_txs rfl (Nat.le_add_right _ _) (fun _ => rfl) (fun _ => rfl) (fun _ => rfl)
      (fun _ => rfl) (fun _ => rfl) (fun _ => rfl) (fun _ => rfl)
  | getUserByEmail email =>
    refine frame_of_sql h fun hv => ?_
    unfold getUserByEmail at hv
    split_ifs at hv <;> cases hv <;> exact .refl
  | getUser =>
    refine frame_of_sql h fun hv => ?_
    cases hv
    exact .refl
  | selectRefreshTokens =>
    rw [(selectRefreshTokens_cases h).1]
    exact .refl
  | selectEmailChangeToken id =>
    rw [(selectEmailChangeToken_cases h).1]
    exact .refl
  | lockUser =>
    rcases lockUser_cases h with ⟨-, rfl⟩ | ⟨-, -, ⟨t, ht, rfl⟩ | ⟨-, rfl⟩⟩
    · exact .refl
    · exact .setTx ht ⟨rfl, fun _ hg => absurd rfl hg, fun _ => rfl, fun _ => rfl, fun _ => rfl,
        fun _ => rfl, fun _ => rfl⟩
    · exact .refl
  | storeRefreshToken _ _ | deleteRefreshTokens _ | consumeRefreshToken _ =>
    cases refreshed_of_run h rfl with
    | same => exact .refl
    | pending ht hn _ _ =>
      exact .setTx_fresh ht ⟨rfl, fun _ _ => rfl, fun _ => rfl, fun hg => absurd rfl hg,
        fun hg => absurd rfl hg, fun _ => rfl, fun _ => rfl⟩ hn
    | done _ hn _ => apply Frame.of_txs <;> simp [hn]
  | createPasswordResetToken e =>
    refine frame_of_sql h fun hv => ?_
    cases hv
    exact resets rfl (Nat.le_add_right _ _)
  | claimPasswordResetToken id =>
    rcases claimPasswordResetToken_cases h with ⟨-, rfl⟩ | ⟨-, -, -, ⟨t, ht, rfl⟩ | ⟨-, rfl⟩⟩
    · exact .refl
    · exact .setTx ht ⟨rfl, fun _ _ => rfl, fun _ => rfl, fun _ => rfl, fun _ => rfl,
        fun hs => absurd rfl (hs id), fun _ => rfl⟩
    · exact resets rfl (Nat.le_refl _)
  | deleteExpiredPasswordResetTokens =>
    refine frame_of_sql h fun hv => ?_
    simp only [deleteExpiredPasswordResetTokens] at hv
    split_ifs at hv
    cases hv
    exact resets rfl (Nat.le_refl _)
  | createEmailChangeToken n e =>
    refine frame_of_sql h fun hv => ?_
    cases hv
    exact mails rfl (Nat.le_add_right _ _)
  | useEmailChangeToken id =>
    rcases useEmailChangeToken_cases h with rfl | ⟨t, ht, rfl⟩ | ⟨-, rfl⟩
    · exact .refl
    · exact .setTx ht ⟨rfl, fun _ _ => rfl, fun _ => rfl, fun _ => rfl, fun _ => rfl,
        fun _ => rfl, fun hs => absurd rfl (hs id)⟩
    · exact mails rfl (Nat.le_refl _)
  | deleteEmailChangeTokens | deleteExpiredEmailChangeTokens =>
    refine frame_of_sql h fun hv => ?_
    simp only [deleteEmailChangeTokens, deleteExpiredEmailChangeTokens] at hv
    split_ifs at hv
    cases hv
    exact mails rfl (Nat.le_refl _)
  | createTicket a e =>
    refine frame_of_sql h fun hv => ?_
    cases hv
    apply Frame.of_txs <;> simp
  | redeemTicket a id =>
    refine frame_of_sql h fun hv => ?_
    simp only [redeemTicket] at hv
    split_ifs at hv <;> cases hv
    · apply Frame.of_txs <;> simp
    · exact .refl
  | _ => cases heffect

theorem run_everyRow (hstep : ∀ p f, s.effect = some (p, f) → ∀ u, p u = true → P u → P (f u)) (hw : EveryRow P w) :
    EveryRow P w' := by
  rcases run_cases h with rfl | ⟨e, heffect, hwritten⟩ | heffect
  · exact hw
  · exact hw.written (hstep _ _ heffect) hwritten
  by_cases htopic : s.topic = .transaction
  · rcases transaction_cases h htopic with rfl | ⟨-, rfl⟩ | ⟨-, t, ht, rfl⟩ | ⟨-, rfl⟩
    · exact hw
    · exact hw.setTx (.inl rfl)
    · exact (hw.publish ht).endTx
    · exact hw.endTx
  · have hframe := run_frame h
    have hrow := topic_ne_row heffect
    refine hw.frame (hframe.user hrow htopic) ?_
    intro j t' ht'
    by_cases hj : j = i
    · subst hj
      rcases hframe.own htopic with hsame | ⟨t, t'', ht, ht'', htx⟩
      · exact .inr ⟨t', hsame ▸ ht', rfl⟩
      · rw [ht''] at ht'
        cases ht'
        exact .inr ⟨t, ht, htx.user hrow⟩
    · exact .inr ⟨t', hframe.others j hj ▸ ht', rfl⟩

theorem run_held (hs : ∀ r, s ≠ .respond r) :
    w'.held = w.held := by
  refine (run_frame h).held ?_
  cases s with
  | respond reply => exact absurd rfl (hs reply)
  | _ => nofun

end

end Run

/-! The lock on the user's row. -/

/-- One transaction at a time has it, and only that one has a new version of the row. -/
structure Locks (w : AuthDb ι κ) : Prop where
  pending : ∀ {j t}, w.tx j = some t → t.user ≠ none → t.lock ≠ none
  alone : ∀ {j j' t t'}, w.tx j = some t → w.tx j' = some t' → t.lock ≠ none → t'.lock ≠ none → j = j'

namespace Locks

/-- A member changes its transaction. It gets the lock only where no other has it. -/
theorem change (h : Locks w) (hothers : ∀ j, j ≠ i → w'.tx j = w.tx j)
    (hown : ∀ t', w'.tx i = some t' → (t'.user ≠ none → t'.lock ≠ none) ∧
      (t'.lock ≠ none → w.userLocked i = false ∨ ∃ t, w.tx i = some t ∧ t.lock ≠ none)) :
    Locks w' where
  pending := by
    intro j t' ht'
    by_cases hj : j = i
    · subst hj
      exact (hown t' ht').1
    · rw [hothers j hj] at ht'
      exact h.pending ht'
  alone := by
    -- another one that has the lock had it before
    have hself {j : ι} {t t' : Tx} (hj : j ≠ i) (ht : w'.tx j = some t) (hlock : t.lock ≠ none)
        (ht' : w'.tx i = some t') (hlock' : t'.lock ≠ none) : False := by
      rw [hothers j hj] at ht
      rcases (hown t' ht').2 hlock' with hfree | ⟨t₀, ht₀, hlock₀⟩
      · have hnone := others_false hfree hj ht
        exact hlock (by simpa using hnone)
      · exact hj (h.alone ht ht₀ hlock hlock₀)
    intro j j' t t' ht ht' hlock hlock'
    by_cases hj : j = i
    · subst hj
      by_contra hne
      exact hself (Ne.symm hne) ht' hlock' ht hlock
    · by_cases hj' : j' = i
      · subst hj'
        exact (hself hj ht hlock ht' hlock').elim
      · rw [hothers j hj] at ht
        rw [hothers j' hj'] at ht'
        exact h.alone ht ht' hlock hlock'

theorem endTx (h : Locks w) : Locks (w.endTx i) := by
  exact h.change others_endTx fun _ ht' => own_endTx ht'

theorem written {p : User → Bool} {f : User → User} {b : Bool} (h : Locks w)
    (hw : Written i p f w b w') : Locks w' := by
  cases hw with
  | missed _ => exact h
  | pending _ hfree ht hlock =>
    refine h.change others_setTx ?_
    intro t' ht'
    obtain rfl := own_setTx ht'
    exact ⟨fun _ => hlock, fun _ => .inl hfree⟩
  | done _ _ _ => exact ⟨h.pending, h.alone⟩

theorem run [DecidableEq κ] {party : ι → κ} {o : Outcome} {r : Except SqlError s.Val}
    (hrun : AuthDb.run party i s o w = some (r, w')) (h : Locks w) : Locks w' := by
  rcases run_cases hrun with rfl | ⟨e, heffect, hwritten⟩ | heffect
  · exact h
  · exact h.written hwritten
  have hframe := run_frame hrun
  refine h.change hframe.others ?_
  intro t' ht'
  by_cases htopic : s.topic = .transaction
  · rcases transaction_cases hrun htopic with rfl | ⟨-, rfl⟩ | ⟨-, t, -, rfl⟩ | ⟨-, rfl⟩
    · exact ⟨h.pending ht', fun hlock => .inr ⟨t', ht', hlock⟩⟩
    · obtain rfl := own_setTx ht'
      exact ⟨fun hu => absurd rfl hu, fun hl => absurd rfl hl⟩
    · exact own_endTx ht'
    · exact own_endTx ht'
  · have hrow := topic_ne_row heffect
    rcases hframe.own htopic with hsame | ⟨t, t'', ht, ht'', htx⟩
    · rw [hsame] at ht'
      exact ⟨h.pending ht', fun hlock => .inr ⟨t', ht', hlock⟩⟩
    · rw [ht''] at ht'
      cases ht'
      by_cases hlockUser : s.topic = .lock
      · cases s with
        | lockUser =>
          rcases lockUser_cases hrun with ⟨-, rfl⟩ | ⟨-, hfree, ⟨t₀, ht₀, rfl⟩ | ⟨hnone, rfl⟩⟩
          · exact ⟨h.pending ht'', fun hlock => .inr ⟨_, ht'', hlock⟩⟩
          · obtain rfl := own_setTx ht''
            exact ⟨fun _ => nofun, fun _ => .inl hfree⟩
          · rw [hnone] at ht
            cases ht
        | _ => cases hlockUser
      · rw [htx.user hrow, htx.lock hrow hlockUser]
        exact ⟨h.pending ht, fun hlock => .inr ⟨t, ht, hlock⟩⟩

end Locks

end Clumoove.Auth
