import Clumoove.Sanity.Auth.Frames

/-! Refresh tokens are used up. A transaction that deletes one has its row to itself until it ends, and
a token that has been exchanged for another does not come back. -/

namespace Clumoove.Auth

open AuthDb List

variable {ι κ : Type} [DecidableEq ι] {w w' : AuthDb ι κ} {i j : ι} {rotated rotated' : List ℕ}
  {o : Outcome}

/-- Where a token comes from that a member writes: the table, its own transaction, or nowhere. -/
inductive Stems (i : ι) (w : AuthDb ι κ) (a : RefreshToken) : Prop
  | stored (h : a ∈ w.refreshTokens)
  | own {t : Tx} (ht : w.tx i = some t) (h : a ∈ t.inserted)
  | fresh (h : w.nextID ≤ a.id)

/-- What is known of the refresh tokens, in the table and in the transactions, beside the list of those
that have been exchanged. -/
structure RotatedOnce (w : AuthDb ι κ) (rotated : List ℕ) : Prop where
  gone : ∀ id ∈ rotated, id < w.nextID
  stored : ∀ a ∈ w.refreshTokens, a.id < w.nextID ∧ a.id ∉ rotated
  pending : ∀ {j t}, w.tx j = some t → ∀ a ∈ t.inserted,
    a.id < w.nextID ∧ a.id ∉ rotated ∧ ∀ b ∈ w.refreshTokens, b.id ≠ a.id
  apart : ∀ {j k t t'}, j ≠ k → w.tx j = some t → w.tx k = some t' →
    ∀ a ∈ t.inserted, ∀ b ∈ t'.inserted, a.id ≠ b.id
  held : ∀ {j t}, w.tx j = some t → ∀ id ∈ t.deleted, ∃ a ∈ w.refreshTokens, a.id = id
  alone : ∀ {j k t t'}, j ≠ k → w.tx j = some t → w.tx k = some t' → ∀ id ∈ t.deleted, id ∉ t'.deleted

namespace RotatedOnce

/-- A token that another transaction has inserted is none of those a member can write. -/
theorem ne_of_stems (h : RotatedOnce w rotated) (ha : Stems i w a)
    (hj : j ≠ i) (ht : w.tx j = some t) (hb : b ∈ t.inserted) : a.id ≠ b.id := by
  cases ha with
  | stored ha => exact (h.pending ht b hb).2.2 a ha
  | own hi ha => exact h.apart (Ne.symm hj) hi ht a ha b hb
  | fresh ha =>
    have hlt := (h.pending ht b hb).1
    omega

/-- What the transaction of a member may be after a call of its own. -/
structure Own (i : ι) (w w' : AuthDb ι κ) (rotated' : List ℕ) (t' : Tx) : Prop where
  inserted : ∀ a ∈ t'.inserted, Stems i w a ∧ a.id < w'.nextID ∧ a.id ∉ rotated' ∧
    ∀ b ∈ w'.refreshTokens, b.id ≠ a.id
  deleted : ∀ id ∈ t'.deleted, (∃ a ∈ w'.refreshTokens, a.id = id) ∧
    ∀ j t, j ≠ i → w.tx j = some t → id ∉ t.deleted

section

variable (h : RotatedOnce w rotated)
include h

/-- A member changes its transaction and the table, but not the rows that others are deleting. -/
theorem change (hnext : w.nextID ≤ w'.nextID) (hothers : ∀ j, j ≠ i → w'.tx j = w.tx j)
    (hstored : ∀ a ∈ w'.refreshTokens, Stems i w a ∧ a.id < w'.nextID ∧ a.id ∉ rotated')
    (hkept : ∀ a ∈ w.refreshTokens, ∀ j t, j ≠ i → w.tx j = some t → a.id ∈ t.deleted →
      a ∈ w'.refreshTokens)
    (hgone : ∀ id ∈ rotated', id ∈ rotated ∨ ∃ a ∈ w.refreshTokens, a.id = id)
    (hown : ∀ t', w'.tx i = some t' → Own i w w' rotated' t') : RotatedOnce w' rotated' where
  gone id hid := by
    rcases hgone id hid with hold | ⟨a, ha, rfl⟩
    · exact Nat.lt_of_lt_of_le (h.gone id hold) hnext
    · exact Nat.lt_of_lt_of_le (h.stored a ha).1 hnext
  stored a ha := (hstored a ha).2
  pending := by
    intro j t ht a ha
    by_cases hj : j = i
    · subst hj
      exact ((hown t ht).inserted a ha).2
    · rw [hothers j hj] at ht
      obtain ⟨hlt, hnot, hne⟩ := h.pending ht a ha
      refine ⟨Nat.lt_of_lt_of_le hlt hnext, ?_, ?_⟩
      · intro hmem
        rcases hgone _ hmem with hold | ⟨b, hb, hid⟩
        · exact hnot hold
        · exact hne b hb hid
      · intro b hb
        exact h.ne_of_stems (hstored b hb).1 hj ht ha
  apart := by
    have hself {k : ι} {t t' : Tx} (hk : k ≠ i) (ht : w'.tx i = some t) (ht' : w'.tx k = some t')
        {a b : RefreshToken} (ha : a ∈ t.inserted) (hb : b ∈ t'.inserted) : a.id ≠ b.id := by
      rw [hothers k hk] at ht'
      exact h.ne_of_stems ((hown t ht).inserted a ha).1 hk ht' hb
    intro j k t t' hjk ht ht' a ha b hb
    by_cases hj : j = i
    · subst hj
      exact hself (Ne.symm hjk) ht ht' ha hb
    · by_cases hk : k = i
      · subst hk
        exact (hself hj ht' ht hb ha).symm
      · rw [hothers j hj] at ht
        rw [hothers k hk] at ht'
        exact h.apart hjk ht ht' a ha b hb
  held := by
    intro j t ht id hid
    by_cases hj : j = i
    · subst hj
      exact ((hown t ht).deleted id hid).1
    · rw [hothers j hj] at ht
      obtain ⟨a, ha, rfl⟩ := h.held ht id hid
      exact ⟨a, hkept a ha j t hj ht hid, rfl⟩
  alone := by
    have hself {k : ι} {t t' : Tx} (hk : k ≠ i) (ht : w'.tx i = some t) (ht' : w'.tx k = some t')
        {id : ℕ} (hid : id ∈ t.deleted) : id ∉ t'.deleted := by
      rw [hothers k hk] at ht'
      exact ((hown t ht).deleted id hid).2 k t' hk ht'
    intro j k t t' hjk ht ht' id hid
    by_cases hj : j = i
    · subst hj
      exact hself (Ne.symm hjk) ht ht' hid
    · by_cases hk : k = i
      · subst hk
        exact fun hid' => hself hj ht' ht hid' hid
      · rw [hothers j hj] at ht
        rw [hothers k hk] at ht'
        exact h.alone hjk ht ht' id hid

theorem own {t : Tx} (ht : w.tx i = some t)
    (hnext : w.nextID ≤ w'.nextID) (htable : w'.refreshTokens = w.refreshTokens) :
    Own i w w' rotated t where
  inserted a ha := by
    obtain ⟨hlt, hnot, hne⟩ := h.pending ht a ha
    refine ⟨.own ht ha, Nat.lt_of_lt_of_le hlt hnext, hnot, ?_⟩
    rw [htable]
    exact hne
  deleted id hid := by
    rw [htable]
    exact ⟨h.held ht id hid, fun j t' hj ht' => h.alone (Ne.symm hj) ht ht' id hid⟩

theorem changeTx (hnext : w.nextID ≤ w'.nextID)
    (htable : w'.refreshTokens = w.refreshTokens) (hothers : ∀ j, j ≠ i → w'.tx j = w.tx j)
    (hown : ∀ t', w'.tx i = some t' → Own i w w' rotated t') : RotatedOnce w' rotated := by
  refine h.change hnext hothers ?_ ?_ (fun _ hid => .inl hid) hown
  · intro a ha
    rw [htable] at ha
    obtain ⟨hlt, hnot⟩ := h.stored a ha
    exact ⟨.stored ha, Nat.lt_of_lt_of_le hlt hnext, hnot⟩
  · intro a ha _ _ _ _ _
    rw [htable]
    exact ha

theorem filter (htx : w.tx i = none)
    (hp : ∀ a ∈ w.refreshTokens, ∀ j t, j ≠ i → w.tx j = some t → a.id ∈ t.deleted → p a = true) :
    RotatedOnce { w with refreshTokens := w.refreshTokens.filter p } rotated := by
  refine h.change (i := i) (Nat.le_refl _) (fun _ _ => rfl) ?_ ?_ (fun _ hid => .inl hid) ?_
  · intro a ha
    have ha := (mem_filter.1 ha).1
    exact ⟨.stored ha, h.stored a ha⟩
  · intro a ha j t hj ht hid
    exact mem_filter.2 ⟨ha, hp a ha j t hj ht hid⟩
  · intro t' ht'
    rw [show w.tx i = some t' from ht'] at htx
    cases htx

theorem store
    (hx : o.sql (storeRefreshToken i expiresAt origin) w = some (r, w')) : RotatedOnce w' rotated := by
  have hnew : w.nextID ∉ rotated := fun hmem => Nat.lt_irrefl _ (h.gone _ hmem)
  have hnext : w.nextID ≤ w.nextID + 1 := Nat.le_succ _
  rcases storeRefreshToken_cases hx with ⟨-, rfl⟩ | ⟨-, ⟨t, ht, rfl⟩ | ⟨hnone, rfl⟩⟩
  · exact h
  · refine h.changeTx hnext rfl others_setTx ?_
    intro t' ht'
    obtain rfl := own_setTx ht'
    have hold : Own i w { w with nextID := w.nextID + 1 } rotated t := h.own ht hnext rfl
    refine ⟨?_, hold.deleted⟩
    intro a ha
    rcases mem_cons.1 ha with rfl | ha
    · refine ⟨.fresh (Nat.le_refl _), Nat.lt_succ_self _, hnew, ?_⟩
      intro b hb
      have hlt := (h.stored b hb).1
      exact Nat.ne_of_lt hlt
    · exact hold.inserted a ha
  · refine h.change (i := i) hnext (fun _ _ => rfl) ?_ ?_ (fun _ hid => .inl hid) ?_
    · intro a ha
      rcases mem_cons.1 ha with rfl | ha
      · exact ⟨.fresh (Nat.le_refl _), Nat.lt_succ_self _, hnew⟩
      · obtain ⟨hlt, hnot⟩ := h.stored a ha
        exact ⟨.stored ha, Nat.lt_succ_of_lt hlt, hnot⟩
    · intro a ha _ _ _ _ _
      exact mem_cons_of_mem _ ha
    · intro t' ht'
      rw [show w.tx i = some t' from ht'] at hnone
      cases hnone

theorem delete
    (hx : o.sql (deleteRefreshTokens i ids) w = some (r, w')) : RotatedOnce w' rotated := by
  rcases deleteRefreshTokens_cases hx with ⟨-, -, rfl⟩ | ⟨-, hfree, hcases⟩
  · exact h
  -- what others are deleting is not among the rows
  have hnot {id : ℕ} {j : ι} {t : Tx} (hj : j ≠ i) (ht : w.tx j = some t) (hid : id ∈ t.deleted) :
      id ∉ ids := by
    have hany := others_false hfree hj ht
    simpa using List.any_eq_false.1 hany id hid
  rcases hcases with ⟨t, ht, rfl⟩ | ⟨hnone, rfl⟩
  · refine h.changeTx (Nat.le_refl _) rfl others_setTx ?_
    intro t' ht'
    obtain rfl := own_setTx ht'
    have hold : Own i w w rotated t := h.own ht (Nat.le_refl _) rfl
    refine ⟨fun a ha => hold.inserted a (mem_filter.1 ha).1, ?_⟩
    intro id hid
    rcases mem_append.1 hid with hnew | hid
    · obtain ⟨hmem, hids⟩ := mem_filter.1 hnew
      obtain ⟨a, ha, rfl⟩ := List.mem_map.1 hmem
      exact ⟨⟨a, ha, rfl⟩, fun j t' hj ht' hdel => hnot hj ht' hdel (of_decide_eq_true hids)⟩
    · exact hold.deleted id hid
  · refine h.filter hnone ?_
    intro a _ j t hj ht hid
    exact decide_eq_true (hnot hj ht hid)

theorem consume {id : ℕ}
    (hx : o.sql (consumeRefreshToken i id) w = some (r, w')) : RotatedOnce w' rotated := by
  rcases consumeRefreshToken_cases hx with ⟨-, rfl⟩ | ⟨token, htoken, hid, -, hfree, hcases⟩
  · exact h
  · have hnot {j : ι} {t : Tx} (hj : j ≠ i) (ht : w.tx j = some t) : id ∉ t.deleted := by
      simpa using others_false hfree hj ht
    rcases hcases with ⟨t, ht, -, rfl⟩ | ⟨hnone, rfl⟩
    · refine h.changeTx (Nat.le_refl _) rfl others_setTx ?_
      intro t' ht'
      obtain rfl := own_setTx ht'
      have hold : Own i w w rotated t := h.own ht (Nat.le_refl _) rfl
      refine ⟨hold.inserted, ?_⟩
      intro id' hid'
      rcases mem_cons.1 hid' with rfl | hid'
      · exact ⟨⟨token, htoken, hid⟩, fun j t' hj ht' => hnot hj ht'⟩
      · exact hold.deleted id' hid'
    · refine h.filter hnone ?_
      intro a _ j t hj ht hmem
      refine decide_eq_true ?_
      intro heq
      exact hnot hj ht (heq ▸ hmem)

theorem publish (ht : w.tx i = some t) (hnew : ∀ id ∈ new, id ∈ t.deleted) :
    RotatedOnce ((w.publish t).endTx i) (new ++ rotated) := by
  have hgone (id : ℕ) (hid : id ∈ new ++ rotated) :
      id ∈ rotated ∨ ∃ a ∈ w.refreshTokens, a.id = id := by
    rcases mem_append.1 hid with hid | hid
    · exact .inr (h.held ht id (hnew id hid))
    · exact .inl hid
  refine h.change (i := i) (Nat.le_refl _) ?_ ?_ ?_ hgone ?_
  · exact others_endTx
  · intro a ha
    rcases mem_append.1 ha with ha | ha
    · obtain ⟨hlt, hnot, hne⟩ := h.pending ht a ha
      refine ⟨.own ht ha, hlt, ?_⟩
      intro hmem
      rcases hgone _ hmem with hold | ⟨b, hb, hid⟩
      · exact hnot hold
      · exact hne b hb hid
    · obtain ⟨ha, hkept⟩ := mem_filter.1 ha
      obtain ⟨hlt, hnot⟩ := h.stored a ha
      refine ⟨.stored ha, hlt, ?_⟩
      intro hmem
      rcases mem_append.1 hmem with hmem | hmem
      · exact of_decide_eq_true hkept (hnew _ hmem)
      · exact hnot hmem
  · intro a ha j t' hj ht' hid
    refine mem_append_right _ (mem_filter.2 ⟨ha, decide_eq_true ?_⟩)
    exact h.alone hj ht' ht a.id hid
  · exact fun _ ht' => own_endTx ht'

theorem endTx : RotatedOnce (w.endTx i) rotated := by
  exact h.changeTx (Nat.le_refl _) rfl others_endTx fun _ ht' => own_endTx ht'

end

variable [DecidableEq κ] {party : ι → κ} {s : AuthStmt} {r : Except SqlError s.Val}

theorem run (h : RotatedOnce w rotated) (hrun : AuthDb.run party i s o w = some (r, w'))
    (hs : s ≠ .commit) : RotatedOnce w' rotated := by
  have hframe := run_frame hrun
  by_cases htopic : s.topic = .transaction
  · rcases transaction_cases hrun htopic with rfl | ⟨-, rfl⟩ | ⟨hcommit, -⟩ | ⟨-, rfl⟩
    · exact h
    · refine h.changeTx (i := i) (Nat.le_refl _) rfl hframe.others ?_
      intro t' ht'
      obtain rfl := own_setTx ht'
      exact ⟨nofun, nofun⟩
    · exact absurd hcommit hs
    · exact h.endTx
  · by_cases hrefresh : s.topic = .refresh
    · cases s with
      | storeRefreshToken expiresAt origin => exact h.store hrun
      | deleteRefreshTokens ids => exact h.delete hrun
      | consumeRefreshToken id => exact h.consume hrun
      | _ => cases hrefresh
    · have htable := hframe.refreshTokens hrefresh htopic
      refine h.changeTx hframe.nextID htable hframe.others ?_
      intro t' ht'
      rcases hframe.own htopic with hsame | ⟨t, t'', ht, ht'', htx⟩
      · rw [hsame] at ht'
        exact h.own ht' hframe.nextID htable
      · rw [ht''] at ht'
        cases ht'
        have hold := h.own ht hframe.nextID htable
        refine ⟨?_, ?_⟩
        · rw [htx.inserted hrefresh]
          exact hold.inserted
        · rw [htx.deleted hrefresh]
          exact hold.deleted

end RotatedOnce

end Clumoove.Auth
