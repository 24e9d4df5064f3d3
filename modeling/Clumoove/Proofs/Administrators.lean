import Clumoove.Sanity.Users

/-! There is always an active administrator. Whoever takes one away has the lock for that, so that nobody
else does until the transaction has ended, and has counted the others before. And an instance is set
up once: whoever does it has the lock for that, and has found the table empty. -/

namespace Clumoove.Users

open Prog UserDb List Option

variable {ι : Type} [DecidableEq ι]

def Governed (w : UserDb ι) : Prop := ∃ a ∈ w.users, a.governs = true

structure Progress where
  target : Option ℕ := none
  inTx : Bool := false
  /-- It has the lock for what may take an administrator away. -/
  admin : Bool := false
  /-- It has the lock for the first administrator. -/
  setup : Bool := false
  /-- The active administrator that it is about to take away. -/
  found : Option ℕ := none
  /-- The one whom it may take away. -/
  checked : Option ℕ := none
  /-- The table was empty. -/
  empty : Bool := false
  inserted : Bool := false
  dirty : Bool := false
  deriving DecidableEq

/-- A change that a call may make when it has come so far. -/
def Lawful (p : Progress) (c : Change) : Prop := c.demotes = false ∨ p.checked = some c.id

namespace Progress

def next (p : Progress) : (s : UserStmt) → Except UserError s.Val → Progress
  | .target, .ok id => { p with target := some id }
  | .begin, .ok _ => { target := p.target, inTx := true }
  | .advisoryLock .activeAdminMutation, .ok _ => { p with admin := p.inTx }
  | .advisoryLock .initialAdminSetup, .ok _ => { p with setup := p.inTx }
  | .selectForUpdate id, .ok a =>
    if a.governs then { p with found := some id } else { p with checked := some id }
  | .selectForUpdate id, .error .noRows => { p with checked := some id }
  | .countActiveAdmins, .ok n => if 1 < n then { p with checked := p.found } else p
  | .setupRequired, .ok b => { p with empty := b }
  | .insert _, .ok _ => { p with inserted := p.inTx, dirty := p.inTx }
  | .updateRole _ _, .ok _ | .updateActive _ _, .ok _ | .delete _, .ok _ => { p with dirty := p.inTx }
  | .commit, .ok _ | .rollback, .ok _ => { target := p.target }
  | _, _ => p

/-- The calls that an operation makes when it has come so far. -/
def permits (op : Operation) (p : Progress) : UserStmt → Prop
  | .target => p.found = none ∧ p.checked = none
  | .selectForUpdate id => p.admin = true ∧ p.dirty = false ∧ p.target = some id
  | .countActiveAdmins => p.admin = true ∧ p.dirty = false
  | .setupRequired => p.setup = true ∧ p.dirty = false
  | .insert role => p.inTx = true → p.setup = true ∧ p.empty = true ∧ role = .admin ∧ p.dirty = false
  | .updateRole id role => p.inserted = false ∧ Lawful p (.setRole id role)
  | .updateActive id active => p.inserted = false ∧ Lawful p (.setActive id active)
  | .delete id => p.inserted = false ∧ Lawful p (.delete id)
  | .commit => op = .createInitialAdmin → p.setup = true ∧ p.empty = true ∧ p.inserted = true
  | _ => True

end Progress

/-! What is known of a call that is under way. -/

variable {w w' : UserDb ι} {i j : ι} {n n' : ℕ} {p : Progress} {g : Prop} {s : UserStmt} {o : Outcome}
  {r : Except UserError s.Val} {op : Operation}

def Holds (w : UserDb ι) (j : ι) (l : AdvisoryLock) : Prop := ∃ t, w.tx j = some t ∧ l ∈ t.advisory

def NotOnly (w : UserDb ι) (id : ℕ) : Prop := ∃ a ∈ w.users, a.governs = true ∧ a.id ≠ id

/-- An identifier that was given out, and not for a row that is not committed. -/
def Named (w : UserDb ι) (id : ℕ) : Prop := id < w.nextID ∧ ¬ Inserts w id

/-- What is known of a member that has come so far. `g` says that there was an active administrator to
begin with, and `n` counts the setups. -/
structure Stands (g : Prop) (w : UserDb ι) (n : ℕ) (j : ι) (p : Progress) : Prop where
  inTx : p.inTx = (w.tx j).isSome
  target : ∀ id, p.target = some id → Named w id
  admin : p.admin = true → Holds w j .activeAdminMutation
  setup : p.setup = true → Holds w j .initialAdminSetup
  clean : p.dirty = false → ∀ t, w.tx j = some t → t.changes = []
  changes : ∀ t, w.tx j = some t → ∀ c ∈ t.changes, Lawful p c
  found : ∀ id, p.found = some id → p.target = some id
  checked : ∀ id, p.checked = some id →
    p.admin = true ∧ p.target = some id ∧ (g ∨ 1 ≤ n → NotOnly w id)
  empty : p.empty = true → p.setup = true ∧ n = 0
  inserted : p.inserted = true → ∃ t a, w.tx j = some t ∧ t.changes = [.insert a] ∧ a.governs = true

/-- What a call of one member means for the others. -/
structure Steady (g : Prop) (i : ι) (w w' : UserDb ι) (n n' : ℕ) : Prop where
  others : ∀ j, j ≠ i → w'.tx j = w.tx j
  named : ∀ id, Named w id → Named w' id
  /-- Nobody but the one with the lock takes an administrator away. -/
  governs : ∀ j, j ≠ i → Holds w j .activeAdminMutation →
    ∀ a ∈ w.users, a.governs = true → ∃ b ∈ w'.users, b.id = a.id ∧ b.governs = true
  /-- The first administrator is new. -/
  founds : g ∨ 1 ≤ n' → (g ∨ 1 ≤ n) ∨ ∃ a ∈ w'.users, a.governs = true ∧ Inserts w a.id
  setups : ∀ j, j ≠ i → Holds w j .initialAdminSetup → n' = n

theorem Stands.others (h : Stands g w n j p) (hsteady : Steady g i w w' n n') (hj : j ≠ i) :
    Stands g w' n' j p := by
  have htx := hsteady.others j hj
  have hholds {l : AdvisoryLock} (hl : Holds w j l) : Holds w' j l := by
    obtain ⟨t, ht, hmem⟩ := hl
    exact ⟨t, htx.trans ht, hmem⟩
  refine ⟨htx ▸ h.inTx, fun id hid => hsteady.named id (h.target id hid), fun hp => hholds (h.admin hp),
    fun hp => hholds (h.setup hp), htx ▸ h.clean, htx ▸ h.changes, h.found, ?_, ?_, htx ▸ h.inserted⟩
  · intro id hid
    obtain ⟨hadmin, htarget, honly⟩ := h.checked id hid
    refine ⟨hadmin, htarget, ?_⟩
    intro hfounded
    rcases hsteady.founds hfounded with hbefore | ⟨a, ha, hgoverns, hnew⟩
    · obtain ⟨a, ha, hgoverns, hne⟩ := honly hbefore
      obtain ⟨b, hb, hid, hb'⟩ := hsteady.governs j hj (h.admin hadmin) a ha hgoverns
      exact ⟨b, hb, hb', hid ▸ hne⟩
    · refine ⟨a, ha, hgoverns, ?_⟩
      rintro rfl
      exact (h.target _ htarget).2 hnew
  · intro hempty
    obtain ⟨hsetup, hzero⟩ := h.empty hempty
    exact ⟨hsetup, (hsteady.setups j hj (h.setup hsetup)).trans hzero⟩

theorem Stands.start (hnone : w.tx j = none) (hq : ∀ id, q = some id → Named w id) :
    Stands g w n j { target := q } := by
  constructor <;> simp_all [Holds]

theorem Stands.eq_of_noTx (h : Stands g w n j p) (hnone : w.tx j = none) :
    p.inTx = false ∧ p.admin = false ∧ p.setup = false ∧ p.checked = none ∧ p.empty = false ∧
      p.inserted = false := by
  have hholds {l : AdvisoryLock} : ¬ Holds w j l := by simp [Holds, hnone]
  have hadmin : p.admin = false := eq_false_of_ne_true fun hp => hholds (h.admin hp)
  have hsetup : p.setup = false := eq_false_of_ne_true fun hp => hholds (h.setup hp)
  refine ⟨by simp [h.inTx, hnone], hadmin, hsetup, ?_, ?_, ?_⟩
  · refine eq_none_iff_forall_ne_some.2 fun id hid => ?_
    simpa [hadmin] using (h.checked id hid).1
  · refine eq_false_of_ne_true fun hempty => ?_
    simpa [hsetup] using (h.empty hempty).1
  · refine eq_false_of_ne_true fun hinserted => ?_
    obtain ⟨t, a, ht, -⟩ := h.inserted hinserted
    simp [hnone] at ht

theorem Stands.view_eq (h : Stands g w n j p) (hclean : p.dirty = false) : w.view j = w.users := by
  cases ht : w.tx j with
  | none => exact view_of_noTx ht
  | some t => rw [view_of_tx ht, h.clean hclean t ht]; rfl

/-! What a call does to the identifiers, and to the others. -/

omit [DecidableEq ι] in
theorem Writes.insert (h : s.Writes w c n) (hc : c = .insert a) :
    a.id = w.nextID ∧ n = w.nextID + 1 := by
  cases s <;> simp_all [UserStmt.Writes]

omit [DecidableEq ι] in
theorem Writes.le (h : s.Writes w c n) : w.nextID ≤ n := by
  cases s <;> simp_all [UserStmt.Writes]

theorem Effect.changes (h : Effect i w s w') (ht' : w'.tx i = some t') : t'.changes = [] ∨
    ∃ t, w.tx i = some t ∧ (t'.changes = t.changes ∨
      ∃ c n, s.Writes w c n ∧ w'.nextID = n ∧ t'.changes = t.changes ++ [c]) := by
  cases h with
  | same => exact .inr ⟨t', ht', .inl rfl⟩
  | begin =>
    obtain rfl : {} = t' := by simpa using ht'
    exact .inl rfl
  | lock | select =>
    obtain ⟨t, ht, rfl⟩ := map_eq_some_iff.1 (by simpa using ht')
    exact .inr ⟨t, ht, .inl rfl⟩
  | write hwrites =>
    obtain ⟨t, ht, rfl⟩ := map_eq_some_iff.1 (by simpa using ht')
    exact .inr ⟨t, ht, .inr ⟨_, _, hwrites, nextID_write, rfl⟩⟩
  | commit | rollback => simp at ht'

theorem Effect.nextID_le (h : Effect i w s w') : w.nextID ≤ w'.nextID := by
  cases h with
  | write hwrites => simpa using Writes.le hwrites
  | lock | select => simp
  | _ => exact Nat.le_refl _

theorem Effect.inserts {id : ℕ} (h : Effect i w s w') (hid : Inserts w' id) :
    Inserts w id ∨ w.nextID ≤ id ∧ id < w'.nextID := by
  obtain ⟨j, t', a, ht', ha, rfl⟩ := hid
  by_cases hj : j = i
  · subst hj
    rcases h.changes ht' with hnil | ⟨t, ht, hsame | ⟨c, n, hwrites, rfl, hnew⟩⟩
    · simp [hnil] at ha
    · exact .inl ⟨j, t, a, ht, hsame ▸ ha, rfl⟩
    · rw [hnew] at ha
      rcases mem_append.1 ha with ha | ha
      · exact .inl ⟨j, t, a, ht, ha, rfl⟩
      · obtain ⟨hid, hn⟩ := Writes.insert hwrites (mem_singleton.1 ha).symm
        exact .inr (by omega)
  · exact .inl ⟨j, t', a, (h.others hj) ▸ ht', ha, rfl⟩

theorem Effect.named {id : ℕ} (h : Effect i w s w') (hid : Named w id) : Named w' id := by
  refine ⟨Nat.lt_of_lt_of_le hid.1 h.nextID_le, ?_⟩
  intro hinserts
  rcases h.inserts hinserts with hold | hnew
  · exact hid.2 hold
  · exact absurd hnew.1 (Nat.not_le.2 hid.1)

structure Bounded (w : UserDb ι) : Prop where
  users : Keyed w.users w.nextID
  pending : ∀ id, Inserts w id → id < w.nextID

theorem Bounded.run (h : Bounded w) (heffect : Effect i w s w') : Bounded w' := by
  have hpending (id : ℕ) (hid : Inserts w' id) : id < w'.nextID := by
    rcases heffect.inserts hid with hold | hnew
    · exact Nat.lt_of_lt_of_le (h.pending id hold) heffect.nextID_le
    · exact hnew.2
  refine ⟨?_, hpending⟩
  cases heffect with
  | @write c n hwrites =>
    have hmono : Keyed w.users n :=
      ⟨h.users.1, fun a ha => Nat.lt_of_lt_of_le (h.users.2 a ha) (Writes.le hwrites)⟩
    rw [nextID_write]
    rcases users_write (w := { w with nextID := n }) (i := i) (c := c) with hsame | ⟨-, hnew⟩
    · rw [hsame]
      exact hmono
    · rw [hnew]
      refine hmono.apply fun a ha => ?_
      obtain ⟨hid, rfl⟩ := Writes.insert hwrites ha
      exact hid ▸ Nat.lt_succ_self _
  | commit =>
    cases ht : w.tx i with
    | none => exact view_of_noTx ht ▸ h.users
    | some t => exact view_of_tx ht ▸ h.users.foldl fun a ha => h.pending a.id ⟨i, t, a, ht, ha, rfl⟩
  | lock | select => simpa using h.users
  | _ => exact h.users

section Own

variable (h : Stands g w n i p) (hpermits : p.permits op s)

include h

section

variable (hpermits : p.permits op s) (hbounded : Bounded w)
include hpermits hbounded

theorem Stands.spares (hwrites : s.Writes w c n') (hnone : w.tx i = none) (ha : a ∈ w.users) :
    c.demotes = false ∨ c.id ≠ a.id := by
  have hchecked := (h.eq_of_noTx hnone).2.2.2.1
  cases s with
  | updateRole | updateActive | delete =>
    obtain ⟨rfl, -⟩ := hwrites
    exact hpermits.2.imp_right fun hp => by simp [hchecked] at hp
  | insert =>
    obtain ⟨rfl, -⟩ := hwrites
    exact .inr (Nat.ne_of_gt (hbounded.users.2 a ha))
  | _ => cases hwrites

theorem Stands.governs (heffect : Effect i w s w') (ha : a ∈ w.users) (hgoverns : a.governs = true)
    (hchecked : ∀ id, p.checked = some id → a.id ≠ id) :
    ∃ b ∈ w'.users, b.id = a.id ∧ b.governs = true := by
  cases heffect with
  | @write c n' hwrites =>
    rcases users_write (w := { w with nextID := n' }) (i := i) (c := c) with hsame | ⟨hnone, hnew⟩
    · rw [hsame]
      exact ⟨a, ha, rfl, hgoverns⟩
    · rw [hnew]
      exact governs_apply ha hgoverns (h.spares hpermits hbounded hwrites hnone ha)
  | commit =>
    cases ht : w.tx i with
    | none => exact view_of_noTx ht ▸ ⟨a, ha, rfl, hgoverns⟩
    | some t =>
      rw [view_of_tx ht]
      refine governs_foldl (fun c hc => ?_) ha hgoverns
      exact (h.changes t ht c hc).imp_right fun hp => (hchecked _ hp).symm
  | lock | select => simpa using ⟨a, ha, rfl, hgoverns⟩
  | _ => exact ⟨a, ha, rfl, hgoverns⟩

theorem Stands.steady (hexclusive : Exclusive w)
    (heffect : Effect i w s w') (hn : n' = n ∨ p.setup = true)
    (hfounds : g ∨ 1 ≤ n' → (g ∨ 1 ≤ n) ∨ ∃ a ∈ w'.users, a.governs = true ∧ Inserts w a.id) :
    Steady g i w w' n n' := by
  have halone {j : ι} {l : AdvisoryLock} (hj : j ≠ i) (hlock : Holds w j l) : ¬ Holds w i l := by
    obtain ⟨t, ht, hmem⟩ := hlock
    rintro ⟨t', ht', hmem'⟩
    exact hexclusive hj ht ht' hmem hmem'
  refine ⟨fun j hj => heffect.others hj, fun id hid => heffect.named hid, ?_, hfounds, ?_⟩
  · intro j hj hlock a ha hgoverns
    refine h.governs hpermits hbounded heffect ha hgoverns fun id hid => ?_
    exact absurd (h.admin (h.checked id hid).1) (halone hj hlock)
  · intro j hj hlock
    exact hn.resolve_right fun hsetup => halone hj hlock (h.setup hsetup)

theorem Stands.governed (heffect : Effect i w s w')
    (hfounded : g ∨ 1 ≤ n) (hgoverned : Governed w) : Governed w' := by
  obtain ⟨a, ha, hgoverns, hne⟩ : ∃ a ∈ w.users, a.governs = true ∧ ∀ id, p.checked = some id → a.id ≠ id := by
    cases hchecked : p.checked with
    | none =>
      obtain ⟨a, ha, hgoverns⟩ := hgoverned
      exact ⟨a, ha, hgoverns, nofun⟩
    | some id =>
      obtain ⟨a, ha, hgoverns, hne⟩ := (h.checked id hchecked).2.2 hfounded
      exact ⟨a, ha, hgoverns, by simpa [eq_comm] using hne⟩
  obtain ⟨b, hb, -, hb'⟩ := h.governs hpermits hbounded heffect ha hgoverns hne
  exact ⟨b, hb, hb'⟩

end

theorem Stands.inTx_of_same (hchanges : ∀ t, (f t).changes = t.changes)
    (hadvisory : ∀ t, ∀ l ∈ t.advisory, l ∈ (f t).advisory) : Stands g (w.inTx i f) n i p := by
  have hback {t' : Tx} (ht' : (w.inTx i f).tx i = some t') : ∃ t, w.tx i = some t ∧ f t = t' :=
    map_eq_some_iff.1 (by simpa using ht')
  have hholds {l : AdvisoryLock} (hl : Holds w i l) : Holds (w.inTx i f) i l := by
    obtain ⟨t, ht, hmem⟩ := hl
    exact ⟨f t, by simp [ht], hadvisory t l hmem⟩
  have hnamed (id : ℕ) (hid : Named w id) : Named (w.inTx i f) id := by
    refine ⟨by simpa using hid.1, ?_⟩
    rintro ⟨j, t', a, ht', ha, rfl⟩
    refine hid.2 ?_
    by_cases hj : j = i
    · subst hj
      obtain ⟨t, ht, rfl⟩ := hback ht'
      exact ⟨j, t, a, ht, hchanges t ▸ ha, rfl⟩
    · exact ⟨j, t', a, by simpa [hj] using ht', ha, rfl⟩
  refine ⟨by simpa using h.inTx, fun id hid => hnamed id (h.target id hid), fun hp => hholds (h.admin hp),
    fun hp => hholds (h.setup hp), ?_, ?_, h.found, by simpa [NotOnly] using h.checked, h.empty, ?_⟩
  · intro hclean t' ht'
    obtain ⟨t, ht, rfl⟩ := hback ht'
    exact (hchanges t).trans (h.clean hclean t ht)
  · intro t' ht' c hc
    obtain ⟨t, ht, rfl⟩ := hback ht'
    exact h.changes t ht c (hchanges t ▸ hc)
  · intro hinserted
    obtain ⟨t, a, ht, hnew, hgoverns⟩ := h.inserted hinserted
    exact ⟨f t, a, by simp [ht], (hchanges t).trans hnew, hgoverns⟩

omit h in
theorem Stands.lock (hself : Stands g w' n i p)
    (hl : p.inTx = true → Holds w' i l) : Stands g w' n i (p.next (.advisoryLock l) (.ok ())) := by
  cases l with
  | activeAdminMutation =>
    refine { hself with admin := hl, checked := fun id hid => ?_ }
    obtain ⟨hadmin, hrest⟩ := hself.checked id hid
    obtain ⟨t, ht, -⟩ := hself.admin hadmin
    exact ⟨by simp [Progress.next, hself.inTx, ht], hrest⟩
  | initialAdminSetup =>
    refine { hself with setup := hl, empty := fun hempty => ?_ }
    obtain ⟨hsetup, hzero⟩ := hself.empty hempty
    obtain ⟨t, ht, -⟩ := hself.setup hsetup
    exact ⟨by simp [Progress.next, hself.inTx, ht], hzero⟩

end Own

theorem Stands.check {id : ℕ} (h : Stands g w n j p) (hadmin : p.admin = true) (hclean : p.dirty = false)
    (htarget : p.target = some id) (honly : g ∨ 1 ≤ n → NotOnly w id) :
    Stands g w n j { p with checked := some id } :=
  { h with
    changes := fun t ht c hc => by simp [h.clean hclean t ht] at hc
    checked := fun id' hid' => by
      cases hid'
      exact ⟨hadmin, htarget, honly⟩ }

theorem exists_other {users : List Account} (h : (users.map (·.id)).Nodup)
    (hcount : 1 < users.countP Account.governs) (id : ℕ) :
    ∃ a ∈ users, a.governs = true ∧ a.id ≠ id := by
  by_contra hnone
  push Not at hnone
  have hle : users.countP Account.governs ≤ (users.map (·.id)).count id := by
    rw [List.count, countP_map]
    refine countP_mono_left fun a ha hgoverns => ?_
    simpa using hnone a ha hgoverns
  have hone := nodup_iff_count_le_one.1 h id
  omega

theorem Stands.select {id : ℕ} {r : Except UserError Account} (h : Stands g w n i p) (hbounded : Bounded w)
    (hgoverned : g ∨ 1 ≤ n → Governed w) (hpermits : p.permits op (.selectForUpdate id))
    (hx : selectForUpdate i id w = some (r, w')) : Stands g w' n i (p.next (.selectForUpdate id) r) := by
  obtain ⟨hadmin, hclean, htarget⟩ := hpermits
  unfold selectForUpdate at hx
  rw [h.view_eq hclean] at hx
  split at hx
  · rename_i hfind
    cases hx
    refine h.check hadmin hclean htarget fun hfounded => ?_
    obtain ⟨a, ha, hgoverns⟩ := hgoverned hfounded
    exact ⟨a, ha, hgoverns, by simpa using List.find?_eq_none.1 hfind a ha⟩
  · rename_i a hfind
    have hid : a.id = id := by simpa using List.find?_some hfind
    split_ifs at hx
    cases hx
    have hself := h.inTx_of_same (f := fun t => { t with rows := id :: t.rows }) (fun _ => rfl)
      fun _ _ hl => hl
    simp only [Progress.next]
    split_ifs with hgoverns
    · exact { hself with found := fun id' hid' => htarget.trans hid' }
    · refine hself.check hadmin hclean htarget fun hfounded => ?_
      obtain ⟨b, hb, hgoverns'⟩ := hgoverned hfounded
      refine ⟨b, by simpa using hb, hgoverns', ?_⟩
      rintro rfl
      have heq := inj_on_of_nodup_map hbounded.users.1 hb (List.mem_of_find?_eq_some hfind) hid.symm
      exact hgoverns (heq ▸ hgoverns')

theorem Stands.write (h : Stands g w n i p)
    (heffect : Effect i w s ({ w with nextID := n' }.write i c))
    (hlawful : p.inTx = true → Lawful p c) (hdirty : b' = p.inTx)
    (hinsert : b = true → ∃ t a, w.tx i = some t ∧ t.changes = [] ∧ c = .insert a ∧ a.governs = true) :
    Stands g ({ w with nextID := n' }.write i c) n i { p with inserted := b, dirty := b' } := by
  have hnamed (id : ℕ) (hid : p.target = some id) : Named ({ w with nextID := n' }.write i c) id :=
    heffect.named (h.target id hid)
  have htx : ({ w with nextID := n' }.write i c).tx i =
      (w.tx i).map fun t => { t with rows := c.id :: t.rows, changes := t.changes ++ [c] } :=
    tx_write.trans (if_pos rfl)
  cases ht : w.tx i with
  | none =>
    obtain ⟨hin, hadmin, hsetup, hchecked, hempty, -⟩ := h.eq_of_noTx ht
    constructor <;> simp_all [h.found]
  | some t =>
    have hin : p.inTx = true := by simp [h.inTx, ht]
    rw [ht, map_some] at htx
    have husers : ({ w with nextID := n' }.write i c).users = w.users :=
      users_write.resolve_right fun hnone => by cases ht.symm.trans hnone.1
    have hholds {l : AdvisoryLock} (hl : Holds w i l) : Holds ({ w with nextID := n' }.write i c) i l := by
      obtain ⟨t', ht', hmem⟩ := hl
      cases ht.symm.trans ht'
      exact ⟨_, htx, hmem⟩
    refine ⟨by rw [htx]; exact hin, hnamed, fun hp => hholds (h.admin hp), fun hp => hholds (h.setup hp),
      by simp [hdirty, hin], ?_, h.found, by simpa [NotOnly, husers] using h.checked, h.empty, ?_⟩
    · intro t' ht' d hd
      cases htx.symm.trans ht'
      rcases mem_append.1 hd with hd | hd
      · exact h.changes t ht d hd
      · exact mem_singleton.1 hd ▸ hlawful hin
    · intro hb
      obtain ⟨t', a, ht', hnil, rfl, hgoverns⟩ := hinsert hb
      cases ht.symm.trans ht'
      exact ⟨_, a, htx, by simp [hnil], hgoverns⟩

theorem Stands.change {r : Except UserError Unit} (h : Stands g w n i p)
    (heffect : Effect i w s w') (hclean : p.inserted = false) (hlawful : Lawful p c)
    (hx : change i c w = some (r, w')) : r = .ok () ∧ Stands g w' n i { p with dirty := p.inTx } := by
  unfold UserDb.change at hx
  split_ifs at hx
  · cases hx
    refine ⟨rfl, h.write heffect (fun _ => hlawful) rfl fun hb => ?_⟩
    rw [hclean] at hb
    cases hb
  · cases hx
    refine ⟨rfl, { h with clean := fun hdirty t ht => ?_ }⟩
    rw [h.inTx, ht] at hdirty
    cases hdirty

theorem Stands.run (h : Stands g w n i p) (hbounded : Bounded w) (hempty : w.users = [] → n = 0)
    (hgoverned : g ∨ 1 ≤ n → Governed w) (hpermits : p.permits op s)
    (hrun : UserDb.run i s o w = some (r, w')) (hn : n' = n ∨ s = .commit ∧ ∃ a, r = .ok a) :
    Stands g w' n' i (p.next s r) := by
  have heffect := effect_of_run hrun
  have hstart (hnone : w'.tx i = none) : Stands g w' n' i { target := p.target } :=
    .start hnone fun id hid => heffect.named (h.target id hid)
  by_cases ho : o = .unavailable
  · subst ho
    obtain ⟨rfl, rfl⟩ := run_unavailable hrun
    obtain rfl := hn.resolve_right (by simp)
    cases s with
    | advisoryLock l => cases l <;> exact h
    | _ => exact h
  by_cases hcommit : s = .commit
  · subst hcommit
    cases Outcome.sql_done ho hrun
    exact hstart (by simp)
  obtain rfl : n' = n := hn.resolve_right fun hn => hcommit hn.1
  cases s with
  | target =>
    cases o with
    | number k =>
      simp only [UserDb.run, UserDb.target] at hrun
      split_ifs at hrun with hk
      cases hrun
      refine { h with target := fun id hid => ?_, found := ?_, checked := ?_ }
      · cases hid
        exact ⟨hk.1, not_inserts (by simpa using hk.2)⟩
      · simp [Progress.next, hpermits.1]
      · simp [Progress.next, hpermits.2]
    | _ => cases hrun
  | begin =>
    cases Outcome.sql_done ho hrun
    have htarget (id : ℕ) (hid : p.target = some id) : Named (w.setTx i {}) id :=
      heffect.named (h.target id hid)
    constructor <;> simp_all [Progress.next]
  | advisoryLock l =>
    replace hrun := Outcome.sql_done ho hrun
    unfold UserDb.advisoryLock at hrun
    split_ifs at hrun
    cases hrun
    have hself := h.inTx_of_same (f := fun t => { t with advisory := l :: t.advisory }) (fun _ => rfl)
      fun _ _ => mem_cons_of_mem _
    refine hself.lock fun hin => ?_
    obtain ⟨t, ht⟩ := isSome_iff_exists.1 (h.inTx.symm.trans hin)
    exact ⟨{ t with advisory := l :: t.advisory }, by simp [ht], mem_cons_self ..⟩
  | selectForUpdate id => exact h.select hbounded hgoverned hpermits (Outcome.sql_done ho hrun)
  | countActiveAdmins =>
    cases Outcome.sql_done ho hrun
    simp only [Progress.next]
    split_ifs with hcount
    · rw [h.view_eq hpermits.2] at hcount
      refine { h with changes := ?_, checked := fun id hid => ⟨hpermits.1, h.found id hid, fun _ => ?_⟩ }
      · intro t ht c hc
        simp [h.clean hpermits.2 t ht] at hc
      · exact exists_other hbounded.users.1 hcount id
    · exact h
  | setupRequired =>
    cases Outcome.sql_done ho hrun
    refine { h with empty := fun hnone => ⟨hpermits.1, hempty ?_⟩ }
    simpa [Progress.next, h.view_eq hpermits.2] using hnone
  | insert role =>
    cases Outcome.sql_done ho hrun
    refine h.write heffect (fun hin => ?_) rfl fun hin => ?_
    · obtain ⟨-, -, rfl, -⟩ := hpermits hin
      exact .inl rfl
    · obtain ⟨-, -, rfl, hclean⟩ := hpermits hin
      obtain ⟨t, ht⟩ := isSome_iff_exists.1 (h.inTx.symm.trans hin)
      exact ⟨t, _, ht, h.clean hclean t ht, rfl, rfl⟩
  | updateRole id role | updateActive id active | delete id =>
    obtain ⟨rfl, hself⟩ := h.change heffect hpermits.1 hpermits.2 (Outcome.sql_done ho hrun)
    exact hself
  | activeRestore =>
    cases o with
    | choice b =>
      cases hrun
      exact h
    | unavailable => exact absurd rfl ho
    | _ => cases hrun
  | otherTables =>
    cases Outcome.sql_done (x := fun w => some (.ok (), w)) ho hrun
    exact h
  | commit => exact absurd rfl hcommit
  | rollback =>
    cases Outcome.sql_done ho hrun
    exact hstart (by simp)

/-! The programs. -/

@[simps] def adminProtocol (op : Operation) : Protocol UserStmt (fun s => Except UserError s.Val) Progress where
  next p s r := p.next s r
  allowed p s := p.permits op s

theorem follows_ensureNotLastActiveAdmin {id : ℕ}
    (hok : ∀ p, p.inserted = false → p.checked = some id → Q (.ok ()) p) (herror : ∀ e p, Q (.error e) p) :
    Abides (adminProtocol op) (ensureNotLastActiveAdmin id) Q
      { target := some id, inTx := true, admin := true } := by
  simp only [ensureNotLastActiveAdmin, call, abides_bind, abides_attempt, abides_perform]
  refine ⟨⟨rfl, rfl, rfl⟩, fun a _ => ?_, fun e _ => ?_⟩
  · obtain ⟨_, _ | _, _ | _⟩ := a <;>
      simp [Progress.next, Progress.permits, Account.governs, hok, herror]
    intro count hcount
    exact hok _ (by simp [hcount]) (by simp [hcount])
  · cases e <;> simp [Progress.next, hok, herror]

theorem follows_work (op : Operation) : Abides (adminProtocol op) op.work (fun _ _ => True) {} := by
  cases op with
  | updateUserRole role =>
    obtain _ | _ | _ := role <;> simp [Operation.work, updateUserRole, call, beginActiveAdminMutation,
      rollingBack, Progress.permits, Progress.next, Lawful, Change.demotes]
    exact fun id => follows_ensureNotLastActiveAdmin (by simp +contextual [Progress.permits, Progress.next,
      Lawful, Change.id]) (by simp [Progress.permits])
  | suspendUser | deleteUser =>
    simp [Operation.work, suspendUser, deleteUser, call, beginActiveAdminMutation, rollingBack,
      Progress.permits, Progress.next]
    exact fun id => follows_ensureNotLastActiveAdmin (by simp +contextual [Progress.permits, Progress.next,
      Lawful, Change.id]) (by simp [Progress.permits])
  | updateUserActive active =>
    simp [Operation.work, updateUserActive, call, Progress.permits, Progress.next, Lawful, Change.demotes]
  | createUserWithRole role => simp [Operation.work, createUserWithRole, call, Progress.permits]
  | createInitialAdmin =>
    simp [Operation.work, createInitialAdmin, rollingBack, call, Progress.permits, Progress.next]

/-! Whole runs. -/

/-- An observer's record: how far the calls have come, and how often the instance was set up. -/
structure Record (ι : Type) where
  progress : GoMap ι Progress := []
  setups : ℕ := 0

variable {c : Change} {h : Record ι} {a : Account}

namespace Record

def stage (h : Record ι) (i : ι) : Progress := (h.progress.get i).getD {}

def note (operation : ι → Operation) (i : ι) (s : UserStmt) (r : Except UserError s.Val)
    (_w _w' : UserDb ι) (h : Record ι) : Record ι where
  progress := h.progress.set i ((h.stage i).next s r)
  setups :=
    match s, r with
    | .commit, .ok _ => if operation i = .createInitialAdmin then h.setups + 1 else h.setups
    | _, _ => h.setups

def forget (i : ι) (h : Record ι) : Record ι := { h with progress := h.progress.erase i }

end Record

def watchedUsers (operation : ι → Operation) :
    Crew.Parts ι UserStmt (fun s => Except UserError s.Val) (UserDb ι × Record ι) Outcome :=
  (userCrew operation).watched (Record.note operation) Record.forget

section Run

variable {operation : ι → Operation} {v v' : UserDb ι × Record ι}

theorem exec_watchedUsers : (watchedUsers operation).exec i s o v = some (r, v') ↔
    UserDb.run i s o v.1 = some (r, v'.1) ∧ v'.2 = v.2.note operation i s r v.1 v'.1 :=
  Crew.Parts.exec_watched

theorem Record.stage_note : (h.note operation i s r w w').stage j =
    if j = i then (h.stage i).next s r else h.stage j := by
  show ((h.progress.set i _).get j).getD {} = _
  rw [GoMap.get_set]
  split_ifs <;> rfl

theorem Record.stage_forget : (h.forget i).stage j = if j = i then {} else h.stage j := by
  show ((h.progress.erase i).get j).getD {} = _
  rw [GoMap.get_erase]
  split_ifs <;> rfl

theorem Record.setups_note (hnote : h' = h.note operation i s r w w') :
    h'.setups = h.setups ∨ s = .commit ∧ (∃ a, r = .ok a) ∧ operation i = .createInitialAdmin ∧
      h'.setups = h.setups + 1 := by
  subst hnote
  cases s with
  | commit =>
    cases r with
    | error e => exact .inl rfl
    | ok a =>
      show (if _ then _ else _) = _ ∨ _ ∧ _ ∧ _ ∧ (if _ then _ else _) = _
      split_ifs with hop
      · exact .inr ⟨rfl, ⟨a, rfl⟩, hop, rfl⟩
      · exact .inl rfl
  | _ => exact .inl rfl

/-- What always holds. `g` says that there was an active administrator to begin with. -/
structure Sound (g : Prop) (v : UserDb ι × Record ι) : Prop where
  bounded : Bounded v.1
  exclusive : Exclusive v.1
  stands : ∀ j, Stands g v.1 v.2.setups j (v.2.stage j)
  setups : v.2.setups ≤ 1
  governed : g ∨ 1 ≤ v.2.setups → Governed v.1

namespace Sound

theorem exec (h : Sound g v) (hpermits : (v.2.stage i).permits (operation i) s)
    (hx : (watchedUsers operation).exec i s o v = some (r, v')) : Sound g v' := by
  obtain ⟨hrun, hnote⟩ := exec_watchedUsers.1 hx
  have heffect := effect_of_run hrun
  have hstands := h.stands i
  have hempty (hnone : v.1.users = []) : v.2.setups = 0 := by
    by_contra hne
    obtain ⟨a, ha, -⟩ := h.governed (.inr (Nat.one_le_iff_ne_zero.2 hne))
    simp [hnone] at ha
  -- the commit of a set-up is the first one, and its administrator is there
  have hcommit : v'.2.setups = v.2.setups ∨ (s = .commit ∧ ∃ a, r = .ok a) ∧ v.2.setups = 0 ∧
      v'.2.setups = 1 ∧ (v.2.stage i).setup = true ∧
        ∃ a ∈ v'.1.users, a.governs = true ∧ Inserts v.1 a.id := by
    rcases Record.setups_note hnote with hsame | ⟨rfl, ⟨a, rfl⟩, hop, hnext⟩
    · exact .inl hsame
    · obtain ⟨hsetup, hfound, hinserted⟩ := hpermits hop
      have hzero := (hstands.empty hfound).2
      refine .inr ⟨⟨rfl, a, rfl⟩, hzero, by rw [hnext, hzero], hsetup, ?_⟩
      obtain ⟨t, b, ht, hnew, hgoverns⟩ := hstands.inserted hinserted
      refine ⟨b, ?_, hgoverns, i, t, b, ht, by simp [hnew], rfl⟩
      have ho : o ≠ .unavailable := by
        rintro rfl
        cases (run_unavailable hrun).1
      obtain ⟨-, hw⟩ := Prod.mk.inj (Option.some.inj (Outcome.sql_done ho hrun))
      rw [← hw]
      show b ∈ v.1.view i
      simp [view_of_tx ht, hnew, Change.apply]
  have hsteady : Steady g i v.1 v'.1 v.2.setups v'.2.setups := by
    refine hstands.steady hpermits h.bounded h.exclusive heffect ?_ ?_
    · exact hcommit.imp_right fun hfirst => hfirst.2.2.2.1
    · intro hfounded
      rcases hcommit with hsame | ⟨-, -, -, -, hnew⟩
      · exact .inl (hsame ▸ hfounded)
      · exact .inr hnew
  refine ⟨h.bounded.run heffect, Exclusive.run h.exclusive heffect, ?_, ?_, ?_⟩
  · intro j
    rw [show v'.2.stage j = _ from hnote ▸ Record.stage_note]
    split_ifs with hj
    · subst hj
      exact hstands.run h.bounded hempty h.governed hpermits hrun (hcommit.imp_right fun hfirst => hfirst.1)
    · exact (h.stands j).others hsteady hj
  · rcases hcommit with hsame | ⟨-, -, hone, -⟩
    · exact hsame ▸ h.setups
    · exact Nat.le_of_eq hone
  · intro hfounded
    rcases hsteady.founds hfounded with hbefore | ⟨a, ha, hgoverns, -⟩
    · exact hstands.governed hpermits h.bounded heffect hbefore (h.governed hbefore)
    · exact ⟨a, ha, hgoverns⟩

theorem leave (h : Sound g v) : Sound g ((watchedUsers operation).leave i v) := by
  have heffect : Effect i v.1 .rollback (v.1.endTx i) := .rollback
  have hsteady : Steady g i v.1 (v.1.endTx i) v.2.setups v.2.setups :=
    ⟨fun j hj => heffect.others hj, fun id hid => heffect.named hid,
      fun _ _ _ a ha hgoverns => ⟨a, ha, rfl, hgoverns⟩, .inl, fun _ _ _ => rfl⟩
  refine ⟨h.bounded.run heffect, Exclusive.run h.exclusive heffect, ?_, h.setups, h.governed⟩
  intro j
  show Stands g (v.1.endTx i) v.2.setups j ((v.2.forget i).stage j)
  rw [Record.stage_forget]
  split_ifs with hj
  · subst hj
    exact .start (by simp) nofun
  · exact (h.stands j).others hsteady hj

end Sound

def userSession (operation : ι → Operation) (g : Prop) :
    Crew.Session (watchedUsers operation) (fun _ _ => True) Progress where
  T i := adminProtocol (operation i)
  state i v := v.2.stage i
  idle _ p := p = {}
  ended _ _ := True
  inv := Sound g
  program i p hp := by
    refine Follows.bind (?_)
    rw [hp]
    exact (follows_work (operation i)).follows.mono fun _ _ _ => trivial
  answers _ _ _ _ := trivial
  next hx := by
    obtain ⟨-, hnote⟩ := exec_watchedUsers.1 hx
    rw [hnote]
    exact ⟨Record.stage_note.trans (if_pos rfl), fun j hj => Record.stage_note.trans (if_neg hj)⟩
  keep _ hinv hallowed _ hx := hinv.exec hallowed hx
  finish i v _ := Record.stage_forget.trans (if_pos rfl)
  stop i v _ := Record.stage_forget.trans (if_pos rfl)
  others i j v hj := Record.stage_forget.trans (if_neg hj)
  leave _ _ _ hinv := hinv.leave

/-- Nothing is under way, every row has its own identifier, and none of them comes again. -/
def Quiet (v : UserDb ι × Record ι) : Prop :=
  v.1.txs = [] ∧ v.2.progress = [] ∧ v.2.setups = 0 ∧ (v.1.users.map (·.id)).Nodup ∧
    ∀ a ∈ v.1.users, a.id < v.1.nextID

theorem Quiet.stage (hv : Quiet v) (j : ι) : v.2.stage j = {} := by
  obtain ⟨-, hprogress, -⟩ := hv
  rw [Record.stage, hprogress]
  rfl

theorem Quiet.sound (hv : Quiet v) (hg : g → Governed v.1) : Sound g v := by
  have hstage := hv.stage
  obtain ⟨htxs, -, hsetups, hkeyed⟩ := hv
  have hnone (j : ι) : v.1.tx j = none := by
    rw [tx, htxs]
    rfl
  refine ⟨⟨hkeyed, ?_⟩, fun _ ht => by simp [hnone] at ht, ?_, by omega, ?_⟩
  · rintro id ⟨j, t, a, ht, -⟩
    simp [hnone] at ht
  · intro j
    rw [hstage]
    exact .start (hnone j) fun _ hid => by cases hid
  · rintro (h | hone)
    · exact hg h
    · omega

end Run

/-- An instance with an active administrator has one whatever is done at the same time, and an
instance without users is set up once at most. -/
theorem administrator_remains (operation : ι → Operation)
    (c : Crew.Config ι UserStmt (fun s => Except UserError s.Val) (UserDb ι × Record ι)) :
    (Crew.Reach (watchedUsers operation) (fun _ _ => True) (fun v => Quiet v ∧ Governed v.1) c →
      Governed c.world.1) ∧
    (Crew.Reach (watchedUsers operation) (fun _ _ => True) (fun v => Quiet v ∧ v.1.users = []) c →
      c.world.2.setups ≤ 1) := by
  refine ⟨?_, ?_⟩
  · intro hreach
    have hholds := (userSession operation True).sound (fun _ hv => hv.1.sound fun _ => hv.2)
      (fun j _ hv => hv.1.stage j) hreach
    have hinv : Sound True c.world := hholds.inv
    exact hinv.governed (.inl trivial)
  · intro hreach
    have hholds := (userSession operation False).sound (fun _ hv => hv.1.sound nofun)
      (fun j _ hv => hv.1.stage j) hreach
    have hinv : Sound False c.world := hholds.inv
    exact hinv.setups

def twoAdmins : UserDb (Fin 2) × Record (Fin 2) :=
  ({ users := [⟨0, .admin, true⟩, ⟨1, .admin, true⟩], nextID := 2 }, {})

/-- The second deletion waits for the first and is refused. Of two set-ups at the same time the second
waits as well, and finds a user. -/
theorem one_administrator_remains :
    (∃ c, Crew.Reach (watchedUsers fun _ : Fin 2 => .deleteUser) (fun _ _ => True)
        (fun v => Quiet v ∧ Governed v.1) c ∧
      c.world.1.users = [⟨1, .admin, true⟩] ∧ Governed c.world.1) ∧
    ∃ c, Crew.Reach (watchedUsers fun _ : Fin 2 => .createInitialAdmin) (fun _ _ => True)
        (fun v => Quiet v ∧ v.1.users = []) c ∧
      c.world.1.users = [⟨0, .admin, true⟩] ∧ c.world.2.setups ≤ 1 := by
  refine ⟨?_, ?_⟩
  · have hrun : (Crew.run (watchedUsers fun _ : Fin 2 => .deleteUser)
        [.start 0, .exec 0 (.number 0), .exec 0 .done, .exec 0 .done,
          .start 1, .exec 1 (.number 1), .exec 1 .done,
          .exec 0 .done, .exec 0 .done, .exec 0 (.choice false), .exec 0 .done, .exec 0 .done,
          .exec 0 .done, .finish 0,
          .exec 1 .done, .exec 1 .done, .exec 1 .done, .exec 1 .done, .finish 1]
        { world := twoAdmins }).map (·.world.1.users) = some [⟨1, .admin, true⟩] := by
      decide +kernel
    have hinit : Quiet twoAdmins ∧ Governed twoAdmins.1 :=
      ⟨⟨rfl, rfl, rfl, by decide, by decide⟩, ⟨0, .admin, true⟩, by decide, rfl⟩
    obtain ⟨c, hreach, husers⟩ := Crew.Reach.run_map
      (P := fun v : UserDb (Fin 2) × Record (Fin 2) => Quiet v ∧ Governed v.1) hinit hrun
    exact ⟨c, hreach, husers, (administrator_remains _ c).1 hreach⟩
  · have hrun : (Crew.run (watchedUsers fun _ : Fin 2 => .createInitialAdmin)
        [.start 0, .exec 0 .done, .exec 0 .done, .start 1, .exec 1 .done, .exec 0 .done, .exec 0 .done,
          .exec 0 .done, .exec 0 .done, .finish 0,
          .exec 1 .done, .exec 1 .done, .exec 1 .done, .finish 1]
        { world := ({}, {}) }).map (·.world.1.users) = some [⟨0, .admin, true⟩] := by
      decide +kernel
    have hinit : Quiet (({}, {}) : UserDb (Fin 2) × Record (Fin 2)) ∧
        (({}, {}) : UserDb (Fin 2) × Record (Fin 2)).1.users = [] :=
      ⟨⟨rfl, rfl, rfl, by decide, by decide⟩, rfl⟩
    obtain ⟨c, hreach, husers⟩ := Crew.Reach.run_map
      (P := fun v : UserDb (Fin 2) × Record (Fin 2) => Quiet v ∧ v.1.users = []) hinit hrun
    exact ⟨c, hreach, husers, (administrator_remains _ c).2 hreach⟩

end Clumoove.Users
