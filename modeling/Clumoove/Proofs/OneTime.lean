import Clumoove.Sanity.Auth.Calls
import Clumoove.Sanity.Auth.Redemptions

/-! Credentials that are meant for one use. Backup codes, reset tokens and tickets are accepted once in
every run. A code of an authenticator takes that nobody presents it again while it counts, an
email-change token that no two transactions read it at the same time, and the expiry of both kinds of
mailed tokens that time stands still for a transaction that redeems one. -/

namespace Clumoove.Auth

open Prog AuthDb List

variable [DecidableEq ι] [DecidableEq κ]

def Activity.redeems : Activity → Bool
  | request (.resetPassword _) | request .confirmEmailChange => true
  | _ => false

def deadlineOf (i : ι) : (s : AuthStmt) → Except SqlError s.Val → AuthDb ι κ → ℕ → ℕ
  | .claimPasswordResetToken id, .ok _, w, _ =>
    ((w.resetTokens.find? fun t => t.id = id ∧ ¬ t.used ∧ w.clock i < t.expiresAt).map
      (·.expiresAt)).getD 0
  | .selectEmailChangeToken id, .ok _, w, _ =>
    ((w.emailTokens.find? fun t => t.id = id ∧ ¬ t.used ∧ w.clock i < t.expiresAt).map
      (·.expiresAt)).getD 0
  | _, _, _, d => d

/-- An observer's record: what the requests have in hand, the credentials that were accepted, and
whether one was accepted after its expiry. -/
structure Redemptions (ι : Type) where
  hands : GoMap ι Hand := []
  deadline : ι → ℕ := fun _ => 0
  accepted : List Credential := []
  late : Bool := false

variable {w' w : AuthDb ι κ} {h : Redemptions ι} {t : Tx} {j : ι} {id : ℕ}

namespace Redemptions

def hand (h : Redemptions ι) (i : ι) : Hand := (h.hands.get i).getD {}

def note (i : ι) (s : AuthStmt) (r : Except SqlError s.Val) (w _w' : AuthDb ι κ)
    (h : Redemptions ι) : Redemptions ι where
  hands := h.hands.set i ((h.hand i).next s r)
  deadline j := if j = i then deadlineOf i s r w (h.deadline i) else h.deadline j
  accepted := acceptedBy i s r w ++ h.accepted
  late := h.late || (s = .commit && !(acceptedBy i s r w).isEmpty && decide (h.deadline i ≤ w.now))

def forget (i : ι) (h : Redemptions ι) : Redemptions ι := { h with hands := h.hands.erase i }

end Redemptions

variable (activity : ι → Activity)

def watchedRedemptions (party : ι → κ) :
    Crew.Parts ι AuthStmt (fun s => Except SqlError s.Val) (AuthDb ι κ × Redemptions ι) Outcome :=
  (authCrew activity party).watched Redemptions.note Redemptions.forget

/-- A code that was accepted comes again only when it does not count any more; an email-change token is
read only by one transaction at a time; and no time passes while a transaction that redeems a mailed
token is open. -/
def presentsOnce (i : ι) (s : AuthStmt) (v : AuthDb ι κ × Redemptions ι) : Bool :=
  match s with
  | .validateTOTP secret (.totp n step) =>
    .totp secret step ∈ v.2.accepted → validate secret (.totp n step) v.1.now = false
  | .selectEmailChangeToken id => v.2.hands.all fun e => e.1 = i ∨ e.2.selected ≠ some id
  | .tick => v.1.txs.all fun e => !(activity e.1).redeems
  | _ => true

/-! The programs. -/

@[simps] def redeemProtocol (a : Activity) :
    Protocol AuthStmt (fun s => Except SqlError s.Val) Hand where
  next h s r := h.next s r
  allowed h s := a.calls s = true ∧ match s with
    | .useEmailChangeToken id => h.selected = some id
    | .selectEmailChangeToken _ => h.selected = none
    | .enableTOTP _ codes => h.codes = codes
    | _ => True

/-- The codes that are stored are those that were made right before, and the token that a
transaction marks is the one that it has read. -/
theorem follows_redeemProtocol (a : Activity) {h : Hand} :
    Abides (redeemProtocol a) a.program (fun _ _ => True) h := by
  cases a with
  | request q =>
    cases q with
    | totp code | disable2FA code =>
      cases code <;>
        simp [Activity.calls, Request.calls, AuthStmt.authorizes, AuthStmt.checks, AuthStmt.issues]
    | _ =>
      simp [Activity.calls, Request.calls, AuthStmt.authorizes, AuthStmt.issues, AuthStmt.transacts,
        Hand.next]
  | _ => simp [Activity.calls]

/-! Time. -/

abbrev OwnTimely (i : ι) (w : AuthDb ι κ) (t : Tx) (h : Hand) (d : ℕ) : Prop :=
  ((activity i).redeems = true → t.startedAt = w.now) ∧
    (∀ id, t.resetToken = some id → (activity i).redeems = true ∧ w.now < d) ∧
    ∀ id, h.selected = some id → (activity i).redeems = true ∧ w.now < d

/-- No time has passed since a transaction that redeems a token began, so its token has not
expired. -/
structure Timely (activity : ι → Activity) (w : AuthDb ι κ) (hand : ι → Hand) (deadline : ι → ℕ) :
    Prop where
  began : ∀ {j t}, w.tx j = some t → (activity j).redeems = true → t.startedAt = w.now
  reset : ∀ {j t id}, w.tx j = some t → t.resetToken = some id →
    (activity j).redeems = true ∧ w.now < deadline j
  email : ∀ {j t id}, w.tx j = some t → (hand j).selected = some id →
    (activity j).redeems = true ∧ w.now < deadline j

section Timely

variable {activity : ι → Activity} {party : ι → κ} {w w' : AuthDb ι κ} {i : ι} {s : AuthStmt} {o : Outcome}
  {r : Except SqlError s.Val} {hand hand' : ι → Hand} {deadline : ι → ℕ}

namespace Timely

omit [DecidableEq κ] in
/-- The others go on as they were, and of the member's own transaction all this is true. -/
theorem change (h : Timely activity w hand deadline) (hnow : w'.now = w.now)
    (hothers : ∀ j, j ≠ i → w'.tx j = w.tx j ∧ hand' j = hand j ∧ deadline' j = deadline j)
    (hown : ∀ t, w'.tx i = some t → OwnTimely activity i w t (hand' i) (deadline' i)) :
    Timely activity w' hand' deadline' := by
  constructor
  · intro j t ht hredeems
    rw [hnow]
    by_cases hj : j = i
    · subst hj
      exact (hown t ht).1 hredeems
    · exact h.began ((hothers j hj).1 ▸ ht) hredeems
  · intro j t id ht hid
    rw [hnow]
    by_cases hj : j = i
    · subst hj
      exact (hown t ht).2.1 id hid
    · rw [(hothers j hj).2.2]
      exact h.reset ((hothers j hj).1 ▸ ht) hid
  · intro j t id ht hid
    rw [hnow]
    by_cases hj : j = i
    · subst hj
      exact (hown t ht).2.2 id hid
    · rw [(hothers j hj).2.2]
      exact h.email ((hothers j hj).1 ▸ ht) ((hothers j hj).2.1 ▸ hid)

omit [DecidableEq κ] in
theorem endTx (h : Timely activity w hand deadline) (hothers : ∀ j, j ≠ i → hand' j = hand j) :
    Timely activity (w.endTx i) hand' deadline := by
  refine h.change (i := i) rfl ?_ ?_
  · intro j hj
    exact ⟨by rw [tx_endTx, if_neg hj], hothers j hj, rfl⟩
  · exact fun t ht => own_endTx ht

omit [DecidableEq κ] in
theorem clock_of_tx (ht : w.tx i = some t) : w.clock i = t.startedAt := by
  simp [AuthDb.clock, ht]

theorem deadline_of_find {α : Type} {l : List α} {p : α → Bool} {e : α → ℕ}
    (h : ∃ a ∈ l, p a = true) (hp : ∀ a, p a = true → n < e a) : n < ((l.find? p).map e).getD 0 := by
  obtain ⟨a, ha, hpa⟩ := h
  have hsome : (l.find? p).isSome = true := List.find?_isSome.2 ⟨a, ha, hpa⟩
  obtain ⟨b, hb⟩ := Option.isSome_iff_exists.1 hsome
  rw [hb]
  exact hp b (List.find?_some hb)

section Own

omit [DecidableEq κ] in
theorem own (h : Timely activity w hand deadline) (ht : w.tx i = some t') :
    OwnTimely activity i w t' (hand i) (deadline i) :=
  ⟨h.began ht, fun _ => h.reset ht, fun _ => h.email ht⟩

omit [DecidableEq κ] in
theorem deadlineOf_transaction (hs : s.topic = .transaction) : deadlineOf i s r w d = d := by
  cases s with
  | begin | commit | rollback => cases r <;> rfl
  | _ => cases hs

theorem own_of_transaction (hrun : AuthDb.run party i s o w = some (r, w'))
    (hs : s.topic = .transaction) (h : Timely activity w hand deadline) (ht' : w'.tx i = some t') :
    OwnTimely activity i w t' ((hand i).next s r) (deadlineOf i s r w (deadline i)) := by
  rcases tx_of_transaction hrun hs ht' with ⟨rfl, rfl, hnone⟩ | ⟨rfl, hsame⟩
  · refine ⟨fun _ => rfl, fun _ hid => (by cases hid), ?_⟩
    rw [hnone]
    exact fun _ hid => by cases hid
  · rw [hsame, deadlineOf_transaction hs]
    exact h.own ht'

theorem own_of_claim {r : Except SqlError Unit}
    (hrun : AuthDb.run party i (.claimPasswordResetToken id) o w = some (r, w'))
    (hredeems : (activity i).redeems = true) (h : Timely activity w hand deadline)
    (ht' : w'.tx i = some t') :
    OwnTimely activity i w t' ((hand i).next (.claimPasswordResetToken id) r)
      (deadlineOf i (.claimPasswordResetToken id) r w (deadline i)) := by
  rcases claimPasswordResetToken_cases hrun with ⟨⟨e, rfl⟩, rfl⟩ |
    ⟨rfl, ⟨token, hmem, hid, hused, hexpires⟩, -, ⟨t, ht, rfl⟩ | ⟨hnone, rfl⟩⟩
  · exact h.own ht'
  · obtain rfl := own_setTx ht'
    have hstarted := h.began ht hredeems
    have hdeadline : w.now < deadlineOf i (.claimPasswordResetToken id) (.ok ()) w (deadline i) := by
      refine deadline_of_find ⟨token, hmem, decide_eq_true ⟨hid, by simp [hused], hexpires⟩⟩ ?_
      intro a ha
      obtain ⟨-, -, hlt⟩ := of_decide_eq_true ha
      rw [clock_of_tx ht, hstarted] at hlt
      exact hlt
    exact ⟨fun _ => hstarted, fun _ _ => ⟨hredeems, hdeadline⟩, fun _ _ => ⟨hredeems, hdeadline⟩⟩
  · rw [AuthDb.tx] at hnone ht'
    rw [hnone] at ht'
    cases ht'

theorem own_of_select {r : Except SqlError ℕ}
    (hrun : AuthDb.run party i (.selectEmailChangeToken id) o w = some (r, w'))
    (hredeems : (activity i).redeems = true) (h : Timely activity w hand deadline)
    (ht' : w'.tx i = some t') :
    OwnTimely activity i w t' ((hand i).next (.selectEmailChangeToken id) r)
      (deadlineOf i (.selectEmailChangeToken id) r w (deadline i)) := by
  obtain ⟨rfl, ⟨e, rfl⟩ | ⟨token, hfind, rfl⟩⟩ := selectEmailChangeToken_cases hrun
  · exact h.own ht'
  · have hstarted := h.began ht' hredeems
    have hdeadline : w'.now < deadlineOf i (.selectEmailChangeToken id) (.ok token.newEmail) w'
        (deadline i) := by
      have hp := List.find?_some hfind
      refine deadline_of_find ⟨token, List.mem_of_find?_eq_some hfind, hp⟩ ?_
      intro a ha
      obtain ⟨-, -, hlt⟩ := of_decide_eq_true ha
      rw [clock_of_tx ht', hstarted] at hlt
      exact hlt
    exact ⟨fun _ => hstarted, fun _ _ => ⟨hredeems, hdeadline⟩, fun _ _ => ⟨hredeems, hdeadline⟩⟩

end Own

theorem run (hrun : AuthDb.run party i s o w = some (r, w')) (h : Timely activity w hand deadline)
    (hclaim : ∀ id, s = .claimPasswordResetToken id → (activity i).redeems = true)
    (hselect : ∀ id, s = .selectEmailChangeToken id → (activity i).redeems = true)
    (htick : s = .tick → ∀ {j t}, w.tx j = some t → (activity j).redeems = false) :
    Timely activity w' (afterCall i s r hand)
      (fun j => if j = i then deadlineOf i s r w (deadline i) else deadline j) := by
  have hframe := run_frame hrun
  by_cases hclock : s = .tick
  · -- no transaction is open that redeems a token
    subst hclock
    cases o with
    | number n =>
      cases hrun
      have hnot {j : ι} {t : Tx} {P : Prop} (ht : w.tx j = some t)
          (hredeems : (activity j).redeems = true) : P := by
        rw [htick rfl ht] at hredeems
        cases hredeems
      have hhand (j : ι) : afterCall i .tick (.ok ()) hand j = hand j := by
        rw [afterCall_same rfl]
      refine ⟨fun ht hredeems => hnot ht hredeems, fun ht hid => hnot ht (h.reset ht hid).1, ?_⟩
      intro j t id ht hid
      rw [hhand] at hid
      exact hnot ht (h.email ht hid).1
    | _ => cases hrun
  · have hnow : w'.now = w.now := by
      refine hframe.now ?_
      intro htopic
      cases s <;> first | exact hclock rfl | cases htopic
    refine h.change (i := i) hnow ?_ ?_
    · intro j hj
      exact ⟨hframe.others j hj, afterCall_other hj, if_neg hj⟩
    · intro t' ht'
      rw [if_pos rfl, afterCall_self]
      by_cases htopic : s.topic = .transaction
      · exact h.own_of_transaction hrun htopic ht'
      · by_cases hc : ∃ id, s = .claimPasswordResetToken id
        · obtain ⟨id, rfl⟩ := hc
          exact h.own_of_claim hrun (hclaim id rfl) ht'
        · obtain ⟨t, ht, hstarted, hreset', -⟩ := own_of_run hrun htopic ht'
          have htoken := hreset' fun id hs => hc ⟨id, hs⟩
          by_cases hr : ∃ id, s = .selectEmailChangeToken id
          · obtain ⟨id, rfl⟩ := hr
            exact h.own_of_select hrun (hselect id rfl) ht'
          · have hselected := EmailsOnce.selected_of_next (r := r) (hand i) htopic
              (fun id hs => hr ⟨id, hs⟩)
            have hdeadline : deadlineOf i s r w (deadline i) = deadline i := by
              cases s with
              | claimPasswordResetToken id => exact absurd ⟨id, rfl⟩ hc
              | selectEmailChangeToken id => exact absurd ⟨id, rfl⟩ hr
              | _ => cases r <;> rfl
            obtain ⟨hbegan, hreset, hemail⟩ := h.own ht
            rw [hdeadline]
            refine ⟨hstarted ▸ hbegan, htoken ▸ hreset, ?_⟩
            rw [hselected]
            exact hemail

end Timely

end Timely

/-! All kinds together. -/

structure Redeemed (activity : ι → Activity) (v : AuthDb ι κ × Redemptions ι) : Prop where
  begun : ∀ {j t}, v.1.tx j = some t → (activity j).calls .begin = true
  locks : Locks v.1
  tickets : TicketsOnce v.1 v.2.accepted
  resets : ResetsOnce v.1 v.2.accepted
  emails : EmailsOnce v.1 v.2.hand v.2.accepted
  backups : BackupsOnce v.1 v.2.hand v.2.accepted
  timely : Timely activity v.1 v.2.hand v.2.deadline
  nodup : v.2.accepted.Nodup
  late : v.2.late = false

section Session

variable {activity : ι → Activity} {party : ι → κ} {i : ι} {s : AuthStmt} {o : Outcome}
  {r : Except SqlError s.Val} {v : AuthDb ι κ × Redemptions ι}

theorem exec_watchedRedemptions :
    ((watchedRedemptions activity party).restrict (presentsOnce activity)).exec i s o v =
        some (r, v') ↔
      presentsOnce activity i s v = true ∧ AuthDb.run party i s o v.1 = some (r, v'.1) ∧
        v'.2 = v.2.note i s r v.1 v'.1 := by
  rw [Crew.Parts.exec_restrict, watchedRedemptions, Crew.Parts.exec_watched]
  exact Iff.rfl

omit [DecidableEq κ] in
theorem Redemptions.hand_note : (h.note i s r w w').hand = afterCall i s r h.hand := by
  funext j
  unfold afterCall hand note
  rw [GoMap.get_set]
  split_ifs <;> rfl

omit [DecidableEq κ] in
theorem Redemptions.hand_forget : (h.forget i).hand j = if j = i then {} else h.hand j := by
  unfold hand forget
  rw [GoMap.get_erase]
  split_ifs <;> rfl

omit [DecidableEq κ] in
theorem alone_of_presentsOnce
    (h : presentsOnce activity i (.selectEmailChangeToken id) v = true) (hj : j ≠ i) :
    (v.2.hand j).selected ≠ some id := by
  intro hid
  unfold Redemptions.hand at hid
  cases hget : v.2.hands.get j with
  | none =>
    rw [hget] at hid
    cases hid
  | some g =>
    rw [hget] at hid
    obtain ⟨e, he, rfl⟩ := Option.map_eq_some_iff.1 hget
    have hkey : e.1 = j := by simpa using List.find?_some he
    have hall := List.all_eq_true.1 h e (List.mem_of_find?_eq_some he)
    rcases of_decide_eq_true hall with hi | hne
    · exact hj (hkey ▸ hi)
    · exact hne hid

omit [DecidableEq κ] in
theorem still_of_presentsOnce (h : presentsOnce activity i .tick v = true)
    (ht : v.1.tx j = some t) : (activity j).redeems = false := by
  obtain ⟨e, he, rfl⟩ := Option.map_eq_some_iff.1 ht
  have hkey : e.1 = j := by simpa using List.find?_some he
  have hall := List.all_eq_true.1 h e (List.mem_of_find?_eq_some he)
  rw [hkey] at hall
  simpa using hall

theorem redeems_of_calls {a : Activity} (h : (∃ id, a.calls (.claimPasswordResetToken id) = true) ∨
    ∃ id, a.calls (.selectEmailChangeToken id) = true) : a.redeems = true := by
  rcases h with ⟨id, h⟩ | ⟨id, h⟩
  · match a, h with
    | .request (.resetPassword _), _ => rfl
  · match a, h with
    | .request .confirmEmailChange, _ => rfl

theorem not_begin_of_consume {a : Activity} (h : a.calls (.consumeTOTPBackupCode n) = true) :
    a.calls .begin = false := by
  match a, h with
  | .request (.totp _), _ => rfl
  | .request (.disable2FA _), _ => rfl

theorem tokens_nodup (a b : Option ℕ) :
    (a.toList.map Credential.reset ++ b.toList.map Credential.email).Nodup := by
  cases a <;> cases b <;> simp

omit [DecidableEq κ] in
theorem acceptedBy_nodup : (acceptedBy i s r w).Nodup := by
  unfold acceptedBy
  split
  · exact nodup_singleton _
  · exact nodup_singleton _
  · exact nodup_singleton _
  · exact tokens_nodup _ _
  · exact nodup_nil

theorem accepted_totp (hrun : AuthDb.run party i s o w = some (r, w'))
    (h : .totp secret step ∈ acceptedBy i s r w) :
    ∃ n, s = .validateTOTP secret (.totp n step) ∧ validate secret (.totp n step) w.now = true := by
  unfold acceptedBy at h
  split at h <;> simp at h
  obtain ⟨rfl, rfl⟩ := h
  have hvalid := (Prod.mk.inj (Option.some.inj hrun)).1
  exact ⟨_, rfl, Except.ok.inj hvalid⟩

namespace Redeemed

theorem accept (h : Redeemed activity v) (hmay : presentsOnce activity i s v = true)
    (hallowed : (redeemProtocol (activity i)).allowed (v.2.hand i) s)
    (hrun : AuthDb.run party i s o v.1 = some (r, w')) :
    EmailsOnce w' (afterCall i s r v.2.hand) (acceptedBy i s r v.1 ++ v.2.accepted) ∧
      BackupsOnce w' (afterCall i s r v.2.hand) (acceptedBy i s r v.1 ++ v.2.accepted) ∧
      ∀ c ∈ acceptedBy i s r v.1, c ∉ v.2.accepted := by
  obtain ⟨hcalls, hhand⟩ := hallowed
  have hemails := h.emails.run hrun (fun id hs => by subst hs; exact hhand)
    (fun id hs => by subst hs; exact ⟨hhand, fun j hj => alone_of_presentsOnce hmay hj⟩)
  have hbackups := h.backups.run hrun h.locks ?_ (fun secret codes hs => by subst hs; exact hhand)
  · refine ⟨hemails.1, hbackups.1, ?_⟩
    intro c hc
    cases c with
    | ticket id => exact (h.tickets.run hrun).2 id hc
    | reset id => exact (h.resets.run hrun).2 id hc
    | email id => exact hemails.2 id hc
    | backup n => exact hbackups.2 n hc
    | totp secret step =>
      intro hbefore
      obtain ⟨n, rfl, hvalid⟩ := accepted_totp hrun hc
      rw [of_decide_eq_true hmay hbefore] at hvalid
      cases hvalid
  · intro n hs
    subst hs
    cases htx : v.1.tx i with
    | none => rfl
    | some t =>
      have hbegin := h.begun htx
      rw [not_begin_of_consume hcalls] at hbegin
      cases hbegin

theorem begun_run (h : ∀ {j t}, w.tx j = some t → (activity j).calls .begin = true)
    (hcalls : (activity i).calls s = true) (hrun : AuthDb.run party i s o w = some (r, w'))
    (ht : w'.tx j = some t) : (activity j).calls .begin = true := by
  have hframe := run_frame hrun
  by_cases hj : j = i
  · subst hj
    by_cases htopic : s.topic = .transaction
    · rcases transaction_cases hrun htopic with rfl | ⟨rfl, -⟩ | ⟨-, t, -, rfl⟩ | ⟨-, rfl⟩
      · exact h ht
      · exact hcalls
      · exact own_endTx ht
      · exact own_endTx ht
    · rcases hframe.own htopic with hsame | ⟨t₀, -, ht₀, -, -⟩
      · exact h (hsame ▸ ht)
      · exact h ht₀
  · exact h (hframe.others j hj ▸ ht)

theorem not_late (h : Redeemed activity v)
    (hrun : AuthDb.run party i s o v.1 = some (r, w')) (hs : s = .commit)
    (haccepted : acceptedBy i s r v.1 ≠ []) : v.1.now < v.2.deadline i := by
  obtain ⟨c, hc⟩ := exists_mem_of_ne_nil _ haccepted
  subst hs
  cases c with
  | ticket id => cases accepted_ticket hc
  | backup n => cases (accepted_backup hrun hc).1
  | reset id =>
    obtain ⟨t, ht, hid, -⟩ := accepted_reset hrun hc
    exact (h.timely.reset ht hid).2
  | email id =>
    obtain ⟨t, ht, hid, -⟩ := accepted_email hrun hc
    exact (h.timely.email ht (h.emails.marked ht hid)).2
  | totp secret step =>
    unfold acceptedBy at hc
    split at hc <;> simp_all

theorem exec (h : Redeemed activity v)
    (hallowed : (redeemProtocol (activity i)).allowed (v.2.hand i) s)
    (hx : ((watchedRedemptions activity party).restrict (presentsOnce activity)).exec i s o v =
      some (r, v')) : Redeemed activity v' := by
  obtain ⟨hmay, hrun, hnote⟩ := exec_watchedRedemptions.1 hx
  obtain ⟨hemails, hbackups, hfresh⟩ := h.accept hmay hallowed hrun
  have hcalls := hallowed.1
  have htimely := h.timely.run hrun
    (fun id hs => redeems_of_calls (.inl ⟨id, by rw [← hs]; exact hcalls⟩))
    (fun id hs => redeems_of_calls (.inr ⟨id, by rw [← hs]; exact hcalls⟩))
    (fun hs => by subst hs; exact fun ht => still_of_presentsOnce hmay ht)
  obtain ⟨w', h'⟩ := v'
  cases hnote
  have hhand : (v.2.note i s r v.1 w').hand = afterCall i s r v.2.hand := Redemptions.hand_note
  rw [← hhand] at hemails hbackups htimely
  exact
    { begun := begun_run h.begun hcalls hrun
      locks := h.locks.run hrun
      tickets := (h.tickets.run hrun).1
      resets := (h.resets.run hrun).1
      emails := hemails
      backups := hbackups
      timely := htimely
      nodup := nodup_append.2 ⟨acceptedBy_nodup, h.nodup, fun c hc d hd hcd =>
        hfresh c hc (hcd ▸ hd)⟩
      late := by
        simp only [h.late, Bool.false_or]
        by_contra hlate
        simp only [Bool.not_eq_false, Bool.and_eq_true, decide_eq_true_eq, Bool.not_eq_true',
          isEmpty_eq_false_iff] at hlate
        obtain ⟨⟨hs, haccepted⟩, hle⟩ := hlate
        have hlt := h.not_late hrun hs haccepted
        omega }

omit [DecidableEq κ] in
theorem leave (h : Redeemed activity v) : Redeemed activity (v.1.endTx i, v.2.forget i) := by
  have hothers (j : ι) (hj : j ≠ i) : (v.2.forget i).hand j = v.2.hand j :=
    Redemptions.hand_forget.trans (if_neg hj)
  have hself : (v.2.forget i).hand i = {} := Redemptions.hand_forget.trans (if_pos rfl)
  have hdropped {j : ι} {n : ℕ} (hn : n ∈ ((v.2.forget i).hand j).codes) : n ∈ (v.2.hand j).codes := by
    by_cases hj : j = i
    · rw [hj, hself] at hn
      cases hn
    · exact hothers j hj ▸ hn
  exact
    { begun := by
        intro j t ht
        rw [tx_endTx] at ht
        split_ifs at ht
        exact h.begun ht
      locks := h.locks.endTx
      tickets := h.tickets
      resets := h.resets.endTx
      emails := h.emails.endTx (by rw [hself]) hothers
      backups := h.backups.endTx hdropped
      timely := h.timely.endTx hothers
      nodup := h.nodup
      late := h.late }

end Redeemed

def redeemSession : Crew.Session
    ((watchedRedemptions activity party).restrict (presentsOnce activity)) (fun _ _ => True) Hand where
  T i := redeemProtocol (activity i)
  state i v := v.2.hand i
  idle _ _ := True
  inv := Redeemed activity
  program i _ _ := Follows.bind ((follows_redeemProtocol (activity i)).follows.mono fun _ _ _ => trivial)
  answers _ _ _ _ := trivial
  next hx := by
    obtain ⟨-, -, hnote⟩ := exec_watchedRedemptions.1 hx
    rw [hnote, Redemptions.hand_note]
    exact ⟨afterCall_self, fun _ => afterCall_other⟩
  keep _ hinv hallowed _ hx := hinv.exec hallowed hx
  finish _ _ _ := trivial
  stop _ _ _ := trivial
  others i j v hj := Redemptions.hand_forget.trans (if_neg hj)
  leave _ _ _ hinv := hinv.leave

/-- Nothing has been accepted, nobody has anything in hand, and the numbers of the credentials that
there are will not be given out again. -/
def NothingRedeemed (v : AuthDb ι κ × Redemptions ι) : Prop :=
  v.1.txs = [] ∧ v.2 = {} ∧ (∀ t ∈ v.1.tickets, t.id < v.1.nextID) ∧
    (∀ t ∈ v.1.resetTokens, t.id < v.1.nextID) ∧ (∀ t ∈ v.1.emailTokens, t.id < v.1.nextID) ∧
    ∀ n ∈ v.1.user.totpBackupCodes, n < v.1.nextID

omit [DecidableEq κ] in
theorem NothingRedeemed.redeemed (hv : NothingRedeemed v) : Redeemed activity v := by
  obtain ⟨htxs, hwatch, htickets, hresets, hemails, hcodes⟩ := hv
  have hnone (j : ι) : v.1.tx j = none := by
    rw [AuthDb.tx, htxs]
    rfl
  have hhand (j : ι) : v.2.hand j = {} := by
    rw [hwatch]
    rfl
  have haccepted : v.2.accepted = [] := by rw [hwatch]
  exact
    { begun := by simp [hnone]
      locks := by constructor <;> simp [hnone]
      tickets := .start (by simpa using htickets) (by simp) (by simp [haccepted])
      resets := by
        refine .start ?_ (by simp [hnone]) (by simp [haccepted])
        rintro n ⟨t, ht, -, rfl⟩
        exact hresets t ht
      emails := by
        refine ⟨.start ?_ (by simp [hhand]) (by simp [haccepted]), by simp [hnone]⟩
        rintro n ⟨t, ht, -, rfl⟩
        exact hemails t ht
      backups := by
        refine ⟨.start ?_ (by simp [hhand]) (by simp [haccepted]), by simp [hhand]⟩
        intro n hlive
        by_contra hlt
        exact hlive ⟨fun hn => hlt (hcodes n hn), by simp [hnone]⟩
      timely := by constructor <;> simp [hnone]
      nodup := by simp [haccepted]
      late := by rw [hwatch] }

end Session

/-- Every credential is accepted once at most, and no mailed token after its expiry. -/
theorem credentials_accepted_once {activity : ι → Activity} {party : ι → κ}
    {c : Crew.Config ι AuthStmt (fun s => Except SqlError s.Val) (AuthDb ι κ × Redemptions ι)}
    (hreach : Crew.Reach ((watchedRedemptions activity party).restrict (presentsOnce activity))
      (fun _ _ => True) NothingRedeemed c) : c.world.2.accepted.Nodup ∧ c.world.2.late = false := by
  have hholds := redeemSession.sound (fun _ => NothingRedeemed.redeemed) (fun _ _ _ => trivial) hreach
  have hinv : Redeemed activity c.world := hholds.inv
  exact ⟨hinv.nodup, hinv.late⟩

def resetTwice : Fin 2 → Activity := fun i => .request (.resetPassword (i + 5))

def resettable : AuthDb (Fin 2) Unit × Redemptions (Fin 2) :=
  ({ user := { email := 1, passwordHash := 2 }, resetTokens := [⟨0, 100, false⟩], nextID := 1 }, {})

/-- The second one is told that the token is not valid. -/
theorem second_reset_refused :
    ∃ c, Crew.Reach ((watchedRedemptions resetTwice fun _ => ()).restrict (presentsOnce resetTwice))
        (fun _ _ => True) NothingRedeemed c ∧
      c.world.1.user.passwordHash = 5 ∧ c.world.2.accepted = [.reset 0] ∧
      c.world.2.accepted.Nodup ∧ c.world.2.late = false := by
  have hrun : (Crew.run
      ((watchedRedemptions resetTwice fun _ => ()).restrict (presentsOnce resetTwice))
      ([.start 0, .start 1, .exec 0 (.choice true), .exec 1 (.choice true), .exec 0 (.number 0),
        .exec 1 (.number 0), .exec 0 .done, .exec 1 .done] ++ List.replicate 5 (.exec 0 .done) ++
        [.exec 1 .done, .exec 1 .done, .exec 1 .done, .finish 1])
      { world := resettable }).map
      (fun c => (c.world.1.user.passwordHash, c.world.2.accepted)) = some (5, [.reset 0]) := by
    decide +kernel
  obtain ⟨c, hreach, h⟩ := Crew.Reach.run_map (P := NothingRedeemed)
    ⟨rfl, rfl, by decide, by decide, by decide, by decide⟩ hrun
  obtain ⟨hpassword, haccepted⟩ := Prod.mk.inj h
  exact ⟨c, hreach, hpassword, haccepted, credentials_accepted_once hreach⟩

def sameCode : Fin 2 → Activity := fun _ => .request (.totp (.totp 7 0))

def secondStep : AuthDb (Fin 2) Unit × Redemptions (Fin 2) :=
  ({ user := { email := 1, passwordHash := 2, totpEnabled := true, totpSecretEnc := some 7 }
     bearer := fun _ => [⟨true, false, 300, 0⟩] }, {})

def presentCode (i : Fin 2) : List (Crew.Label (Fin 2) Outcome) :=
  [.start i, .exec i (.choice true), .exec i (.number 0)] ++ List.replicate 4 (.exec i .done)

def confirmTwice : Fin 2 → Activity := fun _ => .request .confirmEmailChange

def confirmable : AuthDb (Fin 2) Unit × Redemptions (Fin 2) :=
  ({ user := { email := 1, passwordHash := 2 }, emailTokens := [⟨⟨0, 100, false⟩, 3⟩], nextID := 1 }, {})

def readToken (i : Fin 2) : List (Crew.Label (Fin 2) Outcome) :=
  [.start i, .exec i (.choice true), .exec i (.number 0), .exec i .done, .exec i .done]

def redeemToken (i : Fin 2) : List (Crew.Label (Fin 2) Outcome) :=
  .exec i (.choice false) :: List.replicate 5 (.exec i .done)

def slowReset : Fin 2 → Activity
  | 0 => .request (.resetPassword 5)
  | 1 => .clock

/-- A code of an authenticator is accepted twice, one request after the other; an email-change token is
accepted twice by transactions that have both read it; and a reset token is accepted a day after its
expiry by a transaction that had begun before. -/
theorem credentials_accepted_again :
    (∃ c, Crew.Reach (watchedRedemptions sameCode fun _ => ()) (fun _ _ => True) NothingRedeemed c ∧
      c.world.2.accepted = [.totp 7 0, .totp 7 0]) ∧
    (∃ c, Crew.Reach (watchedRedemptions confirmTwice fun _ => ()) (fun _ _ => True) NothingRedeemed c ∧
      c.world.2.accepted = [.email 0, .email 0]) ∧
    ∃ c, Crew.Reach (watchedRedemptions slowReset fun _ => ()) (fun _ _ => True) NothingRedeemed c ∧
      c.world.2.accepted = [.reset 0] ∧ c.world.2.late = true := by
  refine ⟨?_, ?_, ?_⟩
  · have hrun : (Crew.run (watchedRedemptions sameCode fun _ => ()) (presentCode 0 ++ presentCode 1)
        { world := secondStep }).map (fun c => c.world.2.accepted) =
        some [.totp 7 0, .totp 7 0] := by decide +kernel
    exact Crew.Reach.run_map ⟨rfl, rfl, by decide, by decide, by decide, by decide⟩ hrun
  · have hrun : (Crew.run (watchedRedemptions confirmTwice fun _ => ())
        (readToken 0 ++ readToken 1 ++ redeemToken 0 ++ redeemToken 1)
        { world := confirmable }).map (fun c => c.world.2.accepted) =
        some [.email 0, .email 0] := by decide +kernel
    exact Crew.Reach.run_map ⟨rfl, rfl, by decide, by decide, by decide, by decide⟩ hrun
  · have hrun : (Crew.run (watchedRedemptions slowReset fun _ => ())
        ([.start 0, .exec 0 (.choice true), .exec 0 (.number 0), .exec 0 .done, .start 1,
          .exec 1 (.number 86500)] ++ List.replicate 5 (.exec 0 .done)) { world := resettable }).map
        (fun c => (c.world.2.accepted, c.world.2.late)) = some ([.reset 0], true) := by decide +kernel
    obtain ⟨c, hreach, h⟩ := Crew.Reach.run_map (P := NothingRedeemed)
      ⟨rfl, rfl, by decide, by decide, by decide, by decide⟩ hrun
    obtain ⟨haccepted, hlate⟩ := Prod.mk.inj h
    exact ⟨c, hreach, haccepted, hlate⟩

end Clumoove.Auth
