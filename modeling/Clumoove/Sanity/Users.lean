import Clumoove.Spec.Users

/-! What the statements on the table of users do: the changes of a row, the locks, and what a call of one
means for the others. -/

namespace Clumoove.Users

open Table List Option

/-! Changes. -/

section Changes

variable {a : Account} {c : Change} {cs : List Change} {users : List Account}

def Change.demotes : Change → Bool
  | insert a => !a.governs
  | setRole _ role => role ≠ .admin
  | setActive _ active => !active
  | delete _ => true

/-- An active administrator stays one where nothing is taken away from them. -/
theorem governs_apply (ha : a ∈ users) (hgoverns : a.governs = true)
    (hc : c.demotes = false ∨ c.id ≠ a.id) : ∃ b ∈ c.apply users, b.id = a.id ∧ b.governs = true := by
  by_cases hid : a.id = c.id
  · have hkeeps := hc.resolve_right (not_not.2 hid.symm)
    cases c with
    | insert b => exact ⟨b, mem_cons_self .., hid.symm, by simpa [Change.demotes] using hkeeps⟩
    | setRole id role | setActive id active =>
      refine ⟨_, updateWhere_hit ha (decide_eq_true hid), rfl, ?_⟩
      simp_all [Change.demotes, Account.governs]
    | delete id => cases hkeeps
  · refine ⟨a, ?_, rfl, hgoverns⟩
    cases c with
    | insert b => exact mem_cons_of_mem _ (mem_filter.2 ⟨ha, decide_eq_true hid⟩)
    | setRole id role | setActive id active => exact updateWhere_miss ha (decide_eq_false hid)
    | delete id => exact mem_filter.2 ⟨ha, decide_eq_true hid⟩

theorem governs_foldl (hcs : ∀ c ∈ cs, c.demotes = false ∨ c.id ≠ a.id) (ha : a ∈ users)
    (hgoverns : a.governs = true) :
    ∃ b ∈ cs.foldl Change.apply users, b.id = a.id ∧ b.governs = true := by
  induction cs generalizing users a with
  | nil => exact ⟨a, ha, rfl, hgoverns⟩
  | cons c cs ih =>
    obtain ⟨b, hb, hid, hb'⟩ := governs_apply ha hgoverns (hcs c (mem_cons_self ..))
    have hrest (e : Change) (he : e ∈ cs) : e.demotes = false ∨ e.id ≠ b.id :=
      hid ▸ hcs e (mem_cons_of_mem _ he)
    obtain ⟨d, hd, hid', hd'⟩ := ih hrest hb hb'
    exact ⟨d, hd, hid'.trans hid, hd'⟩

def Keyed (users : List Account) (n : ℕ) : Prop := (users.map (·.id)).Nodup ∧ ∀ a ∈ users, a.id < n

theorem Keyed.apply (h : Keyed users n) (hc : ∀ a, c = .insert a → a.id < n) :
    Keyed (c.apply users) n := by
  obtain ⟨hnodup, hbound⟩ := h
  have hfilter (p : Account → Bool) : Keyed (users.filter p) n :=
    ⟨hnodup.sublist (filter_sublist.map _), fun a ha => hbound a (mem_filter.1 ha).1⟩
  have hupdate (p : Account → Bool) (f : Account → Account) (hf : ∀ a, (f a).id = a.id) :
      Keyed (updateWhere p f users) n := by
    refine ⟨?_, ?_⟩
    · rwa [map_updateWhere _ fun a _ => hf a]
    · intro b hb
      obtain ⟨a, ha, rfl⟩ := mem_updateWhere.1 hb
      split_ifs
      · exact (hf a).symm ▸ hbound a ha
      · exact hbound a ha
  cases c with
  | insert a =>
    obtain ⟨hnodup', hbound'⟩ := hfilter (·.id ≠ a.id)
    refine ⟨nodup_cons.2 ⟨?_, hnodup'⟩, forall_mem_cons.2 ⟨hc a rfl, hbound'⟩⟩
    simp
  | setRole id role | setActive id active => exact hupdate _ _ fun _ => rfl
  | delete id => exact hfilter _

theorem Keyed.foldl (h : Keyed users n) (hcs : ∀ a, .insert a ∈ cs → a.id < n) :
    Keyed (cs.foldl Change.apply users) n := by
  induction cs generalizing users with
  | nil => exact h
  | cons c cs ih =>
    refine ih (h.apply ?_) fun a ha => hcs a (mem_cons_of_mem _ ha)
    rintro a rfl
    exact hcs a (mem_cons_self ..)

end Changes

/-! Statements. -/

variable {ι : Type} {w w' : UserDb ι} {i j : ι}

theorem Outcome.sql_done {α : Type} {o : Outcome} {x : UserSql ι α} {r : Except UserError α}
    (ho : o ≠ .unavailable) (h : o.sql x w = some (r, w')) : x w = some (r, w') := by
  cases o with
  | done => exact h
  | unavailable => exact absurd rfl ho
  | _ => cases h

variable [DecidableEq ι] {f : Tx → Tx} {c : Change} {t : Tx}

namespace UserDb

@[simp] theorem tx_setTx : (w.setTx i t).tx j = if j = i then some t else w.tx j := GoMap.get_set

@[simp] theorem tx_endTx : (w.endTx i).tx j = if j = i then none else w.tx j := GoMap.get_erase

@[simp] theorem tx_inTx : (w.inTx i f).tx j = if j = i then (w.tx i).map f else w.tx j := by
  unfold inTx
  by_cases hj : j = i
  · subst hj
    cases ht : w.tx j <;> simp [ht]
  · cases w.tx i <;> simp [hj]

@[simp] theorem users_inTx : (w.inTx i f).users = w.users := by
  unfold inTx
  cases w.tx i <;> rfl

@[simp] theorem nextID_inTx : (w.inTx i f).nextID = w.nextID := by
  unfold inTx
  cases w.tx i <;> rfl

@[simp] theorem tx_write : (w.write i c).tx j = if j = i then
    (w.tx i).map fun t => { t with rows := c.id :: t.rows, changes := t.changes ++ [c] } else w.tx j := by
  unfold write
  split_ifs with hsome hj hj
  · simp [hj]
  · simp [hj]
  · rw [hj]
    simp only [Bool.not_eq_true, isSome_eq_false_iff, isNone_iff_eq_none] at hsome
    simp only [hsome, map_none]
    exact hsome
  · rfl

@[simp] theorem nextID_write : (w.write i c).nextID = w.nextID := by
  unfold write
  split_ifs <;> simp

theorem users_write : (w.write i c).users = w.users ∨
    w.tx i = none ∧ (w.write i c).users = c.apply w.users := by
  unfold write
  split_ifs with hsome
  · exact .inl users_inTx
  · exact .inr ⟨by simpa using hsome, rfl⟩

theorem txs_any (h : w.txs.any p = false) (ht : w.tx j = some t) : p (j, t) = false :=
  eq_false_of_ne_true (List.any_eq_false.1 h _ (GoMap.mem_of_get ht))

theorem others_false (h : w.others i p = false) (hj : j ≠ i) (ht : w.tx j = some t) :
    p t = false := by
  have hnot := txs_any h ht
  simpa [hj] using hnot

theorem view_of_tx (ht : w.tx i = some t) : w.view i = t.changes.foldl Change.apply w.users := by
  simp [view, ht]

theorem view_of_noTx (ht : w.tx i = none) : w.view i = w.users := by simp [view, ht]

end UserDb

open UserDb

def Inserts (w : UserDb ι) (id : ℕ) : Prop := ∃ j t a, w.tx j = some t ∧ .insert a ∈ t.changes ∧ a.id = id

theorem not_inserts {id : ℕ} (h : w.pending id = false) : ¬ Inserts w id := by
  rintro ⟨j, t, a, ht, ha, rfl⟩
  have hnot := List.any_eq_false.1 (txs_any h ht) _ ha
  simp at hnot

def UserStmt.Writes (w : UserDb ι) : UserStmt → Change → ℕ → Prop
  | .updateRole id role, c, n => c = .setRole id role ∧ n = w.nextID
  | .updateActive id active, c, n => c = .setActive id active ∧ n = w.nextID
  | .delete id, c, n => c = .delete id ∧ n = w.nextID
  | .insert role, c, n => c = .insert { id := w.nextID, role } ∧ n = w.nextID + 1
  | _, _, _ => False

inductive Effect (i : ι) (w : UserDb ι) (s : UserStmt) : UserDb ι → Prop
  | same : Effect i w s w
  | begin : s = .begin → Effect i w s (w.setTx i {})
  | lock {l : AdvisoryLock} : w.others i (fun t => l ∈ t.advisory) = false →
      Effect i w s (w.inTx i fun t => { t with advisory := l :: t.advisory })
  | select {id : ℕ} : Effect i w s (w.inTx i fun t => { t with rows := id :: t.rows })
  | write {c : Change} {n : ℕ} : s.Writes w c n → Effect i w s ({ w with nextID := n }.write i c)
  | commit : s = .commit → Effect i w s ({ w with users := w.view i }.endTx i)
  | rollback : Effect i w s (w.endTx i)

theorem effect_of_change (hs : s.Writes w c w.nextID)
    (h : change i c w = some (r, w')) : Effect i w s w' := by
  unfold change at h
  split_ifs at h
  · cases h
    exact .write hs
  · cases h
    exact .same

theorem run_unavailable
    (h : UserDb.run i s .unavailable w = some (r, w')) : r = .error .unavailable ∧ w' = w := by
  cases s <;> cases h <;> exact ⟨rfl, rfl⟩

theorem effect_of_run {o : Outcome} {r : Except UserError s.Val}
    (h : UserDb.run i s o w = some (r, w')) : Effect i w s w' := by
  by_cases ho : o = .unavailable
  · subst ho
    obtain ⟨-, rfl⟩ := run_unavailable h
    exact .same
  cases s with
  | target =>
    cases o with
    | number n =>
      simp only [UserDb.run, target] at h
      split_ifs at h
      cases h
      exact .same
    | _ => cases h
  | activeRestore =>
    cases o with
    | choice =>
      cases h
      exact .same
    | unavailable => exact absurd rfl ho
    | _ => cases h
  | begin =>
    cases Outcome.sql_done ho h
    exact .begin rfl
  | advisoryLock l =>
    replace h := Outcome.sql_done ho h
    unfold advisoryLock at h
    split_ifs at h with hl
    cases h
    exact .lock (eq_false_of_ne_true hl)
  | selectForUpdate id =>
    replace h := Outcome.sql_done ho h
    unfold selectForUpdate at h
    split at h
    · cases h
      exact .same
    · split_ifs at h
      cases h
      exact .select
  | otherTables =>
    cases Outcome.sql_done (x := fun w => some (.ok (), w)) ho h
    exact .same
  | countActiveAdmins | setupRequired =>
    cases Outcome.sql_done ho h
    exact .same
  | insert role =>
    cases Outcome.sql_done ho h
    exact .write ⟨rfl, rfl⟩
  | updateRole id role | updateActive id active | delete id =>
    exact effect_of_change ⟨rfl, rfl⟩ (Outcome.sql_done ho h)
  | commit =>
    cases Outcome.sql_done ho h
    exact .commit rfl
  | rollback =>
    cases Outcome.sql_done ho h
    exact .rollback

theorem Effect.others (h : Effect i w s w') (hj : j ≠ i) : w'.tx j = w.tx j := by
  cases h with
  | same => rfl
  | write => simp only [tx_write, if_neg hj]; rfl
  | commit => simp only [tx_endTx, if_neg hj]; rfl
  | _ => simp [hj]

def Exclusive (w : UserDb ι) : Prop :=
  ∀ {j k t t' l}, j ≠ k → w.tx j = some t → w.tx k = some t' → l ∈ t.advisory → l ∉ t'.advisory

theorem Exclusive.change (h : Exclusive w) (hothers : ∀ j, j ≠ i → w'.tx j = w.tx j)
    (hadvisory : ∀ t' l, w'.tx i = some t' → l ∈ t'.advisory → (∃ t, w.tx i = some t ∧ l ∈ t.advisory) ∨
      w.others i (fun t => l ∈ t.advisory) = false) : Exclusive w' := by
  have hkey {k : ι} {t t' : Tx} {l : AdvisoryLock} (hk : k ≠ i) (ht : w'.tx i = some t)
      (ht' : w.tx k = some t') (hl : l ∈ t.advisory) : l ∉ t'.advisory := by
    rcases hadvisory t l ht hl with ⟨t₀, ht₀, hl₀⟩ | hfree
    · exact h hk.symm ht₀ ht' hl₀
    · exact of_decide_eq_false (others_false hfree hk ht')
  intro j k t t' l hjk ht ht' hl hl'
  by_cases hj : j = i
  · subst hj
    rw [hothers k hjk.symm] at ht'
    exact hkey hjk.symm ht ht' hl hl'
  · rw [hothers j hj] at ht
    by_cases hk : k = i
    · subst hk
      exact hkey hj ht' ht hl' hl
    · rw [hothers k hk] at ht'
      exact h hjk ht ht' hl hl'

theorem Exclusive.run (h : Exclusive w) (heffect : Effect i w s w') : Exclusive w' := by
  refine h.change (fun j hj => heffect.others hj) ?_
  intro t' l ht' hl
  cases heffect with
  | same => exact .inl ⟨t', ht', hl⟩
  | begin =>
    obtain rfl : {} = t' := by simpa using ht'
    cases hl
  | lock hfree =>
    obtain ⟨t, ht, rfl⟩ := map_eq_some_iff.1 (by simpa using ht')
    rcases mem_cons.1 hl with rfl | hl
    · exact .inr hfree
    · exact .inl ⟨t, ht, hl⟩
  | select | write =>
    obtain ⟨t, ht, rfl⟩ := map_eq_some_iff.1 (by simpa using ht')
    exact .inl ⟨t, ht, hl⟩
  | commit | rollback => simp at ht'

end Clumoove.Users
