import Clumoove.Lib.Once
import Clumoove.Sanity.Auth.Frames

/-! Credentials that work once, and how each kind of them is used up: a backup code by an update under
a condition, a reset token by an update in a transaction, an email-change token by a transaction that
has read it before, and a ticket as it is taken out of Redis. -/

namespace Clumoove.Auth

open AuthDb List

variable [DecidableEq ι] [DecidableEq κ]

inductive Credential
  | totp (secret step : ℕ)
  | backup (number : ℕ)
  | reset (id : ℕ)
  | email (id : ℕ)
  | ticket (id : ℕ)
  deriving DecidableEq

/-- The credentials that a call accepts. The token of a transaction is accepted as it commits. -/
def acceptedBy (i : ι) : (s : AuthStmt) → Except SqlError s.Val → AuthDb ι κ → List Credential
  | .validateTOTP secret (.totp _ step), .ok true, _ => [.totp secret step]
  | .consumeTOTPBackupCode number, .ok true, _ => [.backup number]
  | .redeemTicket _ id, .ok _, _ => [.ticket id]
  | .commit, .ok _, w => ((w.tx i).bind (·.resetToken)).toList.map .reset ++
      ((w.tx i).bind (·.emailToken)).toList.map .email
  | _, _, _ => []

variable {party : ι → κ} {w w' : AuthDb ι κ} {i : ι} {s : AuthStmt} {o : Outcome}
  {r : Except SqlError s.Val} {accepted : List Credential}

/-- What a request has in hand: the email-change token that its transaction has read, and the backup
codes that it has made and not stored. -/
structure Hand where
  selected : Option ℕ := none
  codes : List ℕ := []
  deriving DecidableEq

def Hand.next (h : Hand) : (s : AuthStmt) → Except SqlError s.Val → Hand
  | .begin, .ok _ | .commit, .ok _ | .rollback, .ok _ => { h with selected := none }
  | .selectEmailChangeToken id, .ok _ => { h with selected := some id }
  | .generateBackupCodes, .ok codes => { h with codes }
  | .enableTOTP _ _, _ => { h with codes := [] }
  | _, _ => h

def afterCall (i : ι) (s : AuthStmt) (r : Except SqlError s.Val) (hand : ι → Hand) : ι → Hand :=
  fun j => if j = i then (hand i).next s r else hand j

section AfterCall

variable {hand : ι → Hand}

theorem afterCall_self : afterCall i s r hand i = (hand i).next s r := if_pos rfl

theorem afterCall_other (hj : j ≠ i) : afterCall i s r hand j = hand j := if_neg hj

theorem afterCall_same (hnext : (hand i).next s r = hand i) : afterCall i s r hand = hand := by
  funext j
  by_cases hj : j = i
  · rw [hj, afterCall_self, hnext]
  · exact afterCall_other hj

end AfterCall

/-! What a call accepts. -/

omit [DecidableEq κ] in
theorem accepted_ticket {id : ℕ} (h : .ticket id ∈ acceptedBy i s r w) : s.topic = .ticket := by
  unfold acceptedBy at h
  split at h <;> first | rfl | simp at h

theorem committed (hrun : AuthDb.run party i .commit o w = some (.ok a, w'))
    (ht : w.tx i = some t) : w' = (w.publish t).endTx i := by
  rcases commit_cases hrun with ⟨⟨e, hr⟩, -⟩ | ⟨-, ⟨t', ht', rfl⟩ | ⟨hnone, -⟩⟩
  · cases hr
  · rw [ht] at ht'
    cases ht'
    rfl
  · rw [ht] at hnone
    cases hnone

section Run

variable (hrun : AuthDb.run party i s o w = some (r, w'))
include hrun

theorem accepted_backup (h : .backup n ∈ acceptedBy i s r w) : s = .consumeTOTPBackupCode n ∧
      Written i (User.hasBackupCode n) (User.consumeTOTPBackupCode n) w true w' := by
  unfold acceptedBy at h
  split at h <;> simp at h
  subst h
  refine ⟨rfl, ?_⟩
  rcases Outcome.sql_cases hrun with ⟨-, hr, -⟩ | hx
  · cases hr
  · obtain ⟨b, hwritten, hb⟩ := written_of_writingIf hx
    cases hb
    exact hwritten

theorem accepted_reset {id : ℕ} (h : .reset id ∈ acceptedBy i s r w) :
    ∃ t, w.tx i = some t ∧ t.resetToken = some id ∧ w' = (w.publish t).endTx i := by
  unfold acceptedBy at h
  split at h <;> simp at h
  obtain ⟨t, ht, hid⟩ := Option.bind_eq_some_iff.1 h
  exact ⟨t, ht, hid, committed hrun ht⟩

theorem accepted_email {id : ℕ} (h : .email id ∈ acceptedBy i s r w) :
    ∃ t, w.tx i = some t ∧ t.emailToken = some id ∧ w' = (w.publish t).endTx i ∧
      ∀ h : Hand, (h.next s r).selected = none := by
  unfold acceptedBy at h
  split at h <;> simp at h
  obtain ⟨t, ht, hid⟩ := Option.bind_eq_some_iff.1 h
  exact ⟨t, ht, hid, committed hrun ht, fun _ => rfl⟩

/-! The transaction of the one who calls. -/

section Own

theorem tx_of_transaction (hs : s.topic = .transaction) (ht' : w'.tx i = some t') :
    (s = .begin ∧ t' = { startedAt := w.now } ∧ ∀ h : Hand, (h.next s r).selected = none) ∨
      (w' = w ∧ ∀ h : Hand, h.next s r = h) := by
  cases s with
  | begin =>
    rcases Outcome.sql_cases hrun with ⟨-, rfl, rfl⟩ | hx
    · exact .inr ⟨rfl, fun _ => rfl⟩
    · cases hx
      exact .inl ⟨rfl, own_setTx ht', fun _ => rfl⟩
  | commit =>
    rcases commit_cases hrun with ⟨⟨e, rfl⟩, rfl⟩ | ⟨-, ⟨t, -, rfl⟩ | ⟨hnone, rfl⟩⟩
    · exact .inr ⟨rfl, fun _ => rfl⟩
    · exact own_endTx ht'
    · rw [hnone] at ht'
      cases ht'
  | rollback =>
    rcases Outcome.sql_cases hrun with ⟨-, rfl, rfl⟩ | hx
    · exact .inr ⟨rfl, fun _ => rfl⟩
    · cases hx
      exact own_endTx ht'
  | _ => cases hs

theorem own_of_run (htopic : s.topic ≠ .transaction) (ht' : w'.tx i = some t') :
    ∃ t, w.tx i = some t ∧ t'.startedAt = t.startedAt ∧
      ((∀ id, s ≠ .claimPasswordResetToken id) → t'.resetToken = t.resetToken) ∧
      ((∀ id, s ≠ .useEmailChangeToken id) → t'.emailToken = t.emailToken) := by
  rcases (run_frame hrun).own htopic with heq | ⟨t, t'', ht, ht'', htx⟩
  · exact ⟨t', heq ▸ ht', rfl, fun _ => rfl, fun _ => rfl⟩
  · rw [ht''] at ht'
    cases ht'
    exact ⟨t, ht, htx.startedAt, htx.resetToken, htx.emailToken⟩

end Own

/-! Tickets. -/

def TicketsOnce (w : AuthDb ι κ) (accepted : List Credential) : Prop :=
  Once (fun n => ∃ t ∈ w.tickets, t.id = n) (fun (_ : ι) _ => False) (fun n => .ticket n ∈ accepted)
    w.nextID

theorem tickets_of_run : (∀ t ∈ w'.tickets, t ∈ w.tickets ∨ w.nextID ≤ t.id ∧ t.id < w'.nextID) ∧
      ∀ n, .ticket n ∈ acceptedBy i s r w →
        (∃ t ∈ w.tickets, t.id = n) ∧ ∀ t ∈ w'.tickets, t.id ≠ n := by
  by_cases htopic : s.topic = .ticket
  · cases s with
    | createTicket archive expiresAt =>
      refine ⟨?_, by simp [acceptedBy]⟩
      rcases Outcome.sql_error hrun with ⟨-, rfl⟩ | hx
      · exact fun t ht => .inl ht
      · cases hx
        intro t ht
        rcases mem_cons.1 ht with rfl | ht
        · exact .inr ⟨Nat.le_refl _, Nat.lt_succ_self _⟩
        · exact .inl ht
    | redeemTicket archive id =>
      rcases Outcome.sql_cases hrun with ⟨-, rfl, rfl⟩ | hx
      · exact ⟨fun t ht => .inl ht, by simp [acceptedBy]⟩
      · unfold redeemTicket at hx
        split_ifs at hx with hany <;> cases hx
        · obtain ⟨t, ht, hp⟩ := List.any_eq_true.1 hany
          refine ⟨fun t ht => .inl (mem_filter.1 ht).1, ?_⟩
          intro n hn
          obtain rfl : n = id := by simpa [acceptedBy] using hn
          exact ⟨⟨t, ht, (of_decide_eq_true hp).1⟩,
            fun t' ht' => of_decide_eq_true (mem_filter.1 ht').2⟩
        · exact ⟨fun t ht => .inl ht, by simp [acceptedBy]⟩
    | _ => cases htopic
  · rw [(run_frame hrun).tickets htopic]
    exact ⟨fun t ht => .inl ht, fun n hn => absurd (accepted_ticket hn) htopic⟩

theorem TicketsOnce.run (h : TicketsOnce w accepted) :
    TicketsOnce w' (acceptedBy i s r w ++ accepted) ∧
      ∀ id, .ticket id ∈ acceptedBy i s r w → .ticket id ∉ accepted := by
  obtain ⟨htickets, haccepted⟩ := tickets_of_run hrun
  refine Once.step h (run_frame hrun).nextID ?_ (fun hheld => hheld.elim) mem_append.1 ?_
  · rintro n ⟨t, ht, rfl⟩
    rcases htickets t ht with hold | hnew
    · exact .inl (.inl ⟨t, hold, rfl⟩)
    · exact .inr hnew
  · intro n hn
    obtain ⟨hlive, hgone⟩ := haccepted n hn
    refine ⟨.inl hlive, ?_, fun _ hheld => hheld⟩
    rintro ⟨t, ht, hid⟩
    exact hgone t ht hid

end Run

/-! Reset tokens. -/

/-- A token that has been accepted is marked as used, and a transaction that has marked one is alone
with it. -/
def ResetsOnce (w : AuthDb ι κ) (accepted : List Credential) : Prop :=
  Once (fun n => ∃ t ∈ w.resetTokens, t.used = false ∧ t.id = n)
    (fun j n => ∃ t, w.tx j = some t ∧ t.resetToken = some n) (fun n => .reset n ∈ accepted) w.nextID

namespace ResetsOnce

section

variable (hrun : AuthDb.run party i s o w = some (r, w'))
include hrun

theorem unused_of_run (ht : t ∈ w'.resetTokens) (hused : t.used = false) :
    t ∈ w.resetTokens ∨ w.nextID ≤ t.id ∧ t.id < w'.nextID := by
  by_cases hreset : s.topic = .reset
  · cases s with
    | createPasswordResetToken expiresAt =>
      rcases Outcome.sql_error hrun with ⟨-, rfl⟩ | hx
      · exact .inl ht
      · cases hx
        rcases mem_cons.1 ht with rfl | ht
        · exact .inr ⟨Nat.le_refl _, Nat.lt_succ_self _⟩
        · exact .inl ht
    | claimPasswordResetToken id =>
      rcases claimPasswordResetToken_cases hrun with ⟨-, rfl⟩ | ⟨-, -, -, ⟨t', -, rfl⟩ | ⟨-, rfl⟩⟩
      · exact .inl ht
      · exact .inl ht
      · exact .inl (Table.of_mem_updateWhere ht (fun _ => rfl) hused).1
    | deleteExpiredPasswordResetTokens =>
      rcases Outcome.sql_error hrun with ⟨-, rfl⟩ | hx
      · exact .inl ht
      · unfold deleteExpiredPasswordResetTokens at hx
        split_ifs at hx
        cases hx
        exact .inl (mem_filter.1 ht).1
    | _ => cases hreset
  · by_cases htopic : s.topic = .transaction
    · rcases transaction_cases hrun htopic with rfl | ⟨-, rfl⟩ | ⟨-, t', -, rfl⟩ | ⟨-, rfl⟩
      · exact .inl ht
      · exact .inl ht
      · exact .inl (Table.of_mem_updateWhere ht (fun _ => rfl) hused).1
      · exact .inl ht
    · exact .inl ((run_frame hrun).resetTokens hreset htopic ▸ ht)

theorem taken_of_run (ht' : w'.tx j = some t') (hn : t'.resetToken = some n) :
    (∃ t, w.tx j = some t ∧ t.resetToken = some n) ∨
      j = i ∧ (∃ t ∈ w.resetTokens, t.used = false ∧ t.id = n) ∧
        w.others i (fun t => t.resetToken = some n) = false := by
  by_cases hj : j = i
  · subst hj
    by_cases htopic : s.topic = .transaction
    · rcases tx_of_transaction hrun htopic ht' with ⟨-, rfl, -⟩ | ⟨rfl, -⟩
      · cases hn
      · exact .inl ⟨t', ht', hn⟩
    · by_cases hclaim : ∃ id, s = .claimPasswordResetToken id
      · obtain ⟨id, rfl⟩ := hclaim
        rcases claimPasswordResetToken_cases hrun with ⟨-, rfl⟩ |
          ⟨-, ⟨token, hmem, hid, hused, -⟩, hothers, ⟨t, -, rfl⟩ | ⟨-, rfl⟩⟩
        · exact .inl ⟨t', ht', hn⟩
        · obtain rfl := own_setTx ht'
          cases hn
          exact .inr ⟨rfl, ⟨token, hmem, hused, hid⟩, hothers⟩
        · exact .inl ⟨t', ht', hn⟩
      · obtain ⟨t, ht, -, hsame, -⟩ := own_of_run hrun htopic ht'
        exact .inl ⟨t, ht, hsame (fun id hs => hclaim ⟨id, hs⟩) ▸ hn⟩
  · exact .inl ⟨t', (run_frame hrun).others j hj ▸ ht', hn⟩

theorem run (h : ResetsOnce w accepted) : ResetsOnce w' (acceptedBy i s r w ++ accepted) ∧
      ∀ id, .reset id ∈ acceptedBy i s r w → .reset id ∉ accepted := by
  refine Once.step h (run_frame hrun).nextID ?_ ?_ mem_append.1 ?_
  · rintro n ⟨t, ht, hused, rfl⟩
    rcases unused_of_run hrun ht hused with hold | hnew
    · exact .inl (.inl ⟨t, hold, hused, rfl⟩)
    · exact .inr hnew
  · rintro j n ⟨t', ht', hn⟩
    rcases taken_of_run hrun ht' hn with hold | ⟨rfl, hlive, hothers⟩
    · exact .inl hold
    · refine .inr ⟨.inl hlive, ?_⟩
      rintro k ⟨t, ht, hid⟩
      by_contra hk
      have hnone := others_false hothers hk ((run_frame hrun).others k hk ▸ ht)
      exact of_decide_eq_false hnone hid
  · intro n hn
    obtain ⟨t, ht, hid, rfl⟩ := accepted_reset hrun hn
    refine ⟨.inr ⟨i, t, ht, hid⟩, ?_, ?_⟩
    · rintro ⟨token, htoken, hused, rfl⟩
      have hmissed := (Table.of_mem_updateWhere htoken (fun _ => rfl) hused).2
      exact of_decide_eq_false hmissed hid
    · rintro j ⟨t', ht', hid'⟩
      rw [tx_endTx] at ht'
      split_ifs at ht' with hj
      exact hj (h.alone ⟨t', ht', hid'⟩ ⟨t, ht, hid⟩)

end

omit [DecidableEq κ] in
theorem endTx (h : ResetsOnce w accepted) : ResetsOnce (w.endTx i) accepted := by
  apply h.mono id
  rintro j n ⟨t, ht, hid⟩
  rw [tx_endTx] at ht
  split_ifs at ht
  exact ⟨t, ht, hid⟩

end ResetsOnce

/-! Email-change tokens. -/

/-- A token that has been accepted is marked as used, and a transaction that has read one is alone
with it. -/
structure EmailsOnce (w : AuthDb ι κ) (hand : ι → Hand) (accepted : List Credential) : Prop where
  once : Once (fun n => ∃ t ∈ w.emailTokens, t.used = false ∧ t.id = n)
    (fun j n => (hand j).selected = some n) (fun n => .email n ∈ accepted) w.nextID
  marked : ∀ {j t n}, w.tx j = some t → t.emailToken = some n → (hand j).selected = some n

namespace EmailsOnce

variable {hand : ι → Hand}

theorem selected_cases {h : Hand} (hn : (h.next s r).selected = some n) :
    h.selected = some n ∨ s = .selectEmailChangeToken n ∧ ∃ a, HEq r (Except.ok a : Except SqlError ℕ) := by
  cases s with
  | selectEmailChangeToken id =>
    cases r with
    | ok a =>
      cases hn
      exact .inr ⟨rfl, a, HEq.rfl⟩
    | error e => exact .inl hn
  | begin | commit | rollback =>
    cases r with
    | ok a => cases hn
    | error e => exact .inl hn
  | _ => cases r <;> exact .inl hn

theorem selected_of_next (h : Hand) (htopic : s.topic ≠ .transaction)
    (hselect : ∀ id, s ≠ .selectEmailChangeToken id) : (h.next s r).selected = h.selected := by
  cases s with
  | selectEmailChangeToken id => exact absurd rfl (hselect id)
  | begin | commit | rollback => exact absurd rfl htopic
  | _ => cases r <;> rfl

theorem unused_of_select
    (hrun : AuthDb.run party i (.selectEmailChangeToken n) o w = some (.ok a, w')) :
    ∃ t ∈ w.emailTokens, t.used = false ∧ t.id = n := by
  obtain ⟨-, ⟨e, hr⟩ | ⟨token, hfind, -⟩⟩ := selectEmailChangeToken_cases hrun
  · cases hr
  · have hp := List.find?_some hfind
    obtain ⟨hid, hused, -⟩ := of_decide_eq_true hp
    exact ⟨token, List.mem_of_find?_eq_some hfind, eq_false_of_ne_true hused, hid⟩

section

variable (hrun : AuthDb.run party i s o w = some (r, w'))
include hrun

theorem unused_of_run (ht : t ∈ w'.emailTokens) (hused : t.used = false) :
    t ∈ w.emailTokens ∨ w.nextID ≤ t.id ∧ t.id < w'.nextID := by
  by_cases hemail : s.topic = .email
  · cases s with
    | createEmailChangeToken newEmail expiresAt =>
      rcases Outcome.sql_error hrun with ⟨-, rfl⟩ | hx
      · exact .inl ht
      · cases hx
        rcases mem_cons.1 ht with rfl | ht
        · exact .inr ⟨Nat.le_refl _, Nat.lt_succ_self _⟩
        · exact .inl ht
    | useEmailChangeToken id =>
      rcases useEmailChangeToken_cases hrun with rfl | ⟨t', -, rfl⟩ | ⟨-, rfl⟩
      · exact .inl ht
      · exact .inl ht
      · exact .inl (Table.of_mem_updateWhere (q := (·.used)) ht (fun _ => rfl) hused).1
    | deleteEmailChangeTokens | deleteExpiredEmailChangeTokens =>
      rcases Outcome.sql_error hrun with ⟨-, rfl⟩ | hx
      · exact .inl ht
      · simp only [deleteEmailChangeTokens, deleteExpiredEmailChangeTokens] at hx
        split_ifs at hx
        cases hx
        first | exact .inl (mem_filter.1 ht).1 | cases ht
    | _ => cases hemail
  · by_cases htopic : s.topic = .transaction
    · rcases transaction_cases hrun htopic with rfl | ⟨-, rfl⟩ | ⟨-, t', -, rfl⟩ | ⟨-, rfl⟩
      · exact .inl ht
      · exact .inl ht
      · exact .inl (Table.of_mem_updateWhere (q := (·.used)) ht (fun _ => rfl) hused).1
      · exact .inl ht
    · exact .inl ((run_frame hrun).emailTokens hemail htopic ▸ ht)

section

variable (h : EmailsOnce w hand accepted) (huse : ∀ id, s = .useEmailChangeToken id → (hand i).selected = some id)
include h huse

theorem marked_of_run (hselect : ∀ id, s = .selectEmailChangeToken id → (hand i).selected = none)
    (ht' : w'.tx j = some t') (hn : t'.emailToken = some n) :
    (afterCall i s r hand j).selected = some n := by
  by_cases hj : j = i
  · subst hj
    rw [afterCall_self]
    by_cases htopic : s.topic = .transaction
    · rcases tx_of_transaction hrun htopic ht' with ⟨-, rfl, -⟩ | ⟨rfl, hsame⟩
      · cases hn
      · rw [hsame]
        exact h.marked ht' hn
    · have hselected : (hand j).selected = some n := by
        by_cases huses : ∃ id, s = .useEmailChangeToken id
        · obtain ⟨id, rfl⟩ := huses
          rcases useEmailChangeToken_cases hrun with rfl | ⟨t, -, rfl⟩ | ⟨-, rfl⟩
          · exact h.marked ht' hn
          · obtain rfl := own_setTx ht'
            cases hn
            exact huse n rfl
          · exact h.marked ht' hn
        · obtain ⟨t, ht, -, -, hsame⟩ := own_of_run hrun htopic ht'
          exact h.marked ht (hsame (fun id hs => huses ⟨id, hs⟩) ▸ hn)
      rw [selected_of_next _ htopic]
      · exact hselected
      · intro id hs
        rw [hselect id hs] at hselected
        cases hselected
  · rw [afterCall_other hj]
    exact h.marked ((run_frame hrun).others j hj ▸ ht') hn

theorem run (hselect : ∀ id, s = .selectEmailChangeToken id → (hand i).selected = none ∧
      ∀ j, j ≠ i → (hand j).selected ≠ some id) :
    EmailsOnce w' (afterCall i s r hand) (acceptedBy i s r w ++ accepted) ∧
      ∀ id, .email id ∈ acceptedBy i s r w → .email id ∉ accepted := by
  suffices honce : Once _ _ _ _ ∧ ∀ id, .email id ∈ acceptedBy i s r w → .email id ∉ accepted from
    ⟨⟨honce.1, h.marked_of_run hrun huse fun id hs => (hselect id hs).1⟩, honce.2⟩
  refine h.once.step (run_frame hrun).nextID ?_ ?_ mem_append.1 ?_
  · rintro n ⟨t, ht, hused, rfl⟩
    rcases unused_of_run hrun ht hused with hold | hnew
    · exact .inl (.inl ⟨t, hold, hused, rfl⟩)
    · exact .inr hnew
  · intro j n hn
    by_cases hj : j = i
    · subst hj
      rw [afterCall_self] at hn
      rcases selected_cases hn with hold | ⟨rfl, a, hr⟩
      · exact .inl hold
      · cases hr
        refine .inr ⟨.inl (unused_of_select hrun), ?_⟩
        intro k hk
        by_contra hne
        rw [afterCall_other hne] at hk
        exact (hselect n rfl).2 k hne hk
    · rw [afterCall_other hj] at hn
      exact .inl hn
  · intro n hn
    obtain ⟨t, ht, hid, rfl, hnone⟩ := accepted_email hrun hn
    refine ⟨.inr ⟨i, h.marked ht hid⟩, ?_, ?_⟩
    · rintro ⟨token, htoken, hused, rfl⟩
      have hmissed := (Table.of_mem_updateWhere (q := (·.used)) htoken (fun _ => rfl) hused).2
      exact of_decide_eq_false hmissed hid
    · intro j hj
      by_cases hji : j = i
      · rw [hji, afterCall_self, hnone] at hj
        cases hj
      · rw [afterCall_other hji] at hj
        exact hji (h.once.alone hj (h.marked ht hid))

end

end

omit [DecidableEq κ] in
theorem endTx (h : EmailsOnce w hand accepted)
    (hself : (hand' i).selected = none) (hothers : ∀ j, j ≠ i → hand' j = hand j) :
    EmailsOnce (w.endTx i) hand' accepted := by
  constructor
  · apply h.once.mono id
    intro j n hn
    by_cases hj : j = i
    · rw [hj, hself] at hn
      cases hn
    · exact hothers j hj ▸ hn
  · intro j t n ht hn
    rw [tx_endTx] at ht
    split_ifs at ht with hj
    rw [hothers j hj]
    exact h.marked ht hn

end EmailsOnce

/-! Backup codes. -/

abbrev Without (n : ℕ) (w : AuthDb ι κ) : Prop := EveryRow (fun u => n ∉ u.totpBackupCodes) w

/-- A backup code that has been accepted is in no version of the row any more, and those in the hand of
a request have not got there yet. -/
structure BackupsOnce (w : AuthDb ι κ) (hand : ι → Hand) (accepted : List Credential) : Prop where
  once : Once (fun n => ¬ Without n w) (fun j n => n ∈ (hand j).codes) (fun n => .backup n ∈ accepted)
    w.nextID
  apart : ∀ {j n}, n ∈ (hand j).codes → Without n w

namespace BackupsOnce

variable {hand : ι → Hand} {n : ℕ}

theorem codes_of_effect
    (heffect : s.effect = some (p, f)) (hs : ∀ secret codes, s = .enableTOTP secret codes → n ∉ codes)
    (hn : n ∈ (f u).totpBackupCodes) : n ∈ u.totpBackupCodes := by
  cases s with
  | enableTOTP secret codes =>
    cases heffect
    exact absurd hn (hs secret codes rfl)
  | consumeTOTPBackupCode code =>
    cases heffect
    exact (mem_filter.1 hn).1
  | disableTOTP =>
    cases heffect
    cases hn
  | incrementLoginFailed t | resetLoginFailed | incrementTOTPFailed t | resetTOTPFailed
  | updateLastLoginAt | setPassword hash | setTOTPSecret secret | setEmail email | suspend
  | reactivate =>
    cases heffect
    exact hn
  | _ => cases heffect

theorem without_of_run (hrun : AuthDb.run party i s o w = some (r, w')) (h : Without n w)
    (hs : ∀ secret codes, s = .enableTOTP secret codes → n ∉ codes) : Without n w' := by
  refine run_everyRow hrun ?_ h
  intro p f heffect u _ hu hmem
  exact hu (codes_of_effect heffect hs hmem)

/-- The codes in hand were there before and have not been stored, or have been made now. -/
theorem codes_cases (hrun : AuthDb.run party i s o w = some (r, w'))
    (hn : n ∈ (afterCall i s r hand j).codes) :
    (n ∈ (hand j).codes ∧ ∀ secret codes, s = .enableTOTP secret codes → j ≠ i) ∨
      j = i ∧ w.nextID ≤ n ∧ n < w'.nextID ∧ s = .generateBackupCodes := by
  by_cases hj : j = i
  · subst hj
    rw [afterCall_self] at hn
    cases s with
    | generateBackupCodes =>
      cases hrun
      obtain ⟨m, hm, rfl⟩ := List.mem_map.1 hn
      have hlt := mem_range.1 hm
      exact .inr ⟨rfl, Nat.le_add_right _ _, Nat.add_lt_add_left hlt _, rfl⟩
    | enableTOTP secret codes => cases r <;> cases hn
    | _ =>
      refine .inl ⟨?_, by simp⟩
      cases r <;> exact hn
  · rw [afterCall_other hj] at hn
    exact .inl ⟨hn, fun _ _ _ => hj⟩

omit [DecidableEq κ] in
/-- No transaction has another version of the row when a code is taken out of it. -/
theorem consumed (hlocks : Locks w) (htx : w.tx i = none)
    (hwritten : Written i (User.hasBackupCode n) (User.consumeTOTPBackupCode n) w true w') :
    ¬ Without n w ∧ Without n w' := by
  cases hwritten with
  | pending _ _ ht _ =>
    rw [htx] at ht
    cases ht
  | done hp hfree _ =>
    have hrow : w.row i = w.user := by simp [AuthDb.row, htx]
    rw [hrow] at hp
    refine ⟨fun h => h.user (of_decide_eq_true hp).2, ?_, ?_⟩
    · intro hmem
      exact of_decide_eq_true (mem_filter.1 hmem).2 rfl
    · intro j t u ht hu
      have hlock : t.lock ≠ none := hlocks.pending ht (by simp [hu])
      by_cases hj : j = i
      · rw [hj] at ht
        exact absurd (htx.symm.trans ht) (by simp)
      · have hnone := others_false hfree hj ht
        exact absurd (by simpa using hnone) hlock

theorem run (hrun : AuthDb.run party i s o w = some (r, w')) (h : BackupsOnce w hand accepted)
    (hlocks : Locks w) (hconsume : ∀ n, s = .consumeTOTPBackupCode n → w.tx i = none)
    (henable : ∀ secret codes, s = .enableTOTP secret codes → (hand i).codes = codes) :
    BackupsOnce w' (afterCall i s r hand) (acceptedBy i s r w ++ accepted) ∧
      ∀ n, .backup n ∈ acceptedBy i s r w → .backup n ∉ accepted := by
  have hnew {n : ℕ} (hge : w.nextID ≤ n) : Without n w ∧ ∀ j, n ∉ (hand j).codes := by
    constructor
    · by_contra hlive
      exact absurd (h.once.known (.inl (.inl hlive))) (Nat.not_lt.2 hge)
    · exact fun j hj => absurd (h.once.known (.inl (.inr ⟨j, hj⟩))) (Nat.not_lt.2 hge)
  have hstored {n : ℕ} (hfree : n ∉ (hand i).codes) :
      ∀ secret codes, s = .enableTOTP secret codes → n ∉ codes :=
    fun secret codes hs => henable secret codes hs ▸ hfree
  suffices honce : Once _ _ _ _ ∧ ∀ n, .backup n ∈ acceptedBy i s r w → .backup n ∉ accepted by
    refine ⟨⟨honce.1, ?_⟩, honce.2⟩
    intro j n hn
    rcases codes_cases hrun hn with ⟨hold, hne⟩ | ⟨-, hge, -⟩
    · refine without_of_run hrun (h.apart hold) ?_
      intro secret codes hs hmem
      rw [← henable secret codes hs] at hmem
      exact hne secret codes hs (h.once.alone hold hmem)
    · exact without_of_run hrun (hnew hge).1 (hstored ((hnew hge).2 i))
  refine h.once.step (run_frame hrun).nextID ?_ ?_ mem_append.1 ?_
  · intro n hlive
    by_contra hnot
    simp only [not_or, not_not, not_exists] at hnot
    exact hlive (without_of_run hrun hnot.1.1 (hstored (hnot.1.2 i)))
  · intro j n hn
    rcases codes_cases hrun hn with ⟨hold, -⟩ | ⟨rfl, hge, hlt, -⟩
    · exact .inl hold
    · refine .inr ⟨.inr ⟨hge, hlt⟩, ?_⟩
      intro k hk
      rcases codes_cases hrun hk with ⟨hold, -⟩ | ⟨hself, -⟩
      · exact absurd hold ((hnew hge).2 k)
      · exact hself
  · intro n hn
    obtain ⟨rfl, hwritten⟩ := accepted_backup hrun hn
    obtain ⟨hlive, hgone⟩ := consumed hlocks (hconsume n rfl) hwritten
    refine ⟨.inl hlive, not_not.2 hgone, ?_⟩
    intro j hj
    rcases codes_cases hrun hj with ⟨hold, -⟩ | ⟨-, -, -, hs⟩
    · exact hlive (h.apart hold)
    · cases hs

omit [DecidableEq κ] in
theorem endTx (h : BackupsOnce w hand accepted)
    (hhands : ∀ {j n}, n ∈ (hand' j).codes → n ∈ (hand j).codes) :
    BackupsOnce (w.endTx i) hand' accepted := by
  exact ⟨h.once.mono (fun hlive hnone => hlive hnone.endTx) hhands,
    fun hn => (h.apart (hhands hn)).endTx⟩

end BackupsOnce

end Clumoove.Auth
