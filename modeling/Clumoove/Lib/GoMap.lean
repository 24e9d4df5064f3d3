import Mathlib.Data.List.Perm.Basic

/-! Go's maps as association lists. A lookup finds the first pair of a key; assigning and deleting
take all earlier pairs of the key away. -/

abbrev GoMap (κ α : Type) := List (κ × α)

namespace GoMap

open List

variable {κ α : Type} [DecidableEq κ] (m : GoMap κ α)

/-- `v, ok := m[k]`. -/
def get (k : κ) : Option α := (m.find? fun e => e.1 = k).map Prod.snd

def keys : List κ := m.map Prod.fst

/-- `delete(m, k)`. -/
def erase (k : κ) : GoMap κ α := m.filter fun e => e.1 ≠ k

/-- `m[k] = v`. -/
def set (k : κ) (v : α) : GoMap κ α := (k, v) :: erase m k

/-- The map a loop over `keys` fills that assigns `f k` to `k` where there is such a value. -/
def collect (keys : List κ) (f : κ → Option α) : GoMap κ α :=
  keys.filterMap fun k => (f k).map fun v => (k, v)

variable {m : GoMap κ α} {k k' : κ} {v : α}

@[simp] theorem get_nil : get ([] : GoMap κ α) k = none := rfl

theorem get_cons (e : κ × α) : get (e :: m) k = if e.1 = k then some e.2 else get m k := by
  by_cases h : e.1 = k <;> simp [get, h]

theorem get_append (m m' : GoMap κ α) : get (m ++ m') k = (get m k).or (get m' k) := by
  induction m with
  | nil => rfl
  | cons e m ih =>
    simp only [cons_append, get_cons, ih]
    split_ifs <;> rfl

theorem get_filter_key (p : κ → Bool) :
    get (m.filter fun e => p e.1) k = if p k then get m k else none := by
  induction m with
  | nil => simp
  | cons e m ih =>
    by_cases hk : e.1 = k
    · subst hk
      by_cases hp : p e.1 = true <;> simp [hp, get_cons, ih]
    · by_cases hp : p e.1 = true <;> simp [hp, get_cons, hk, ih]

theorem get_erase : get (erase m k') k = if k = k' then none else get m k := by
  have h := get_filter_key (m := m) (k := k) fun j => decide (j ≠ k')
  rw [erase]
  simpa using h

theorem get_set : get (set m k' v) k = if k = k' then some v else get m k := by
  rw [set, get_cons, get_erase]
  by_cases h : k = k'
  · simp [h]
  · simp [h, Ne.symm h]

theorem get_collect (ks : List κ) (f : κ → Option α) :
    get (collect ks f) k = if k ∈ ks then f k else none := by
  induction ks with
  | nil => simp [collect]
  | cons j ks ih =>
    unfold collect at ih ⊢
    rw [filterMap_cons]
    cases hj : f j with
    | none =>
      by_cases h : k = j
      · subst h
        simp [hj, ih]
      · simp [h, ih]
    | some v =>
      by_cases h : k = j
      · subst h
        simp [hj, get_cons]
      · simp [h, get_cons, Ne.symm h, ih]

theorem mem_keys : k ∈ keys m ↔ (get m k).isSome := by
  induction m with
  | nil => simp [keys]
  | cons e m ih =>
    rw [get_cons]
    by_cases h : e.1 = k
    · simp [keys, h]
    · simpa [keys, h, Ne.symm h] using ih

theorem get_eq_none_iff : get m k = none ↔ k ∉ keys m := by
  rw [mem_keys]
  simp

theorem mem_of_get (h : get m k = some v) : (k, v) ∈ m := by
  obtain ⟨e, he, rfl⟩ := Option.map_eq_some_iff.1 h
  have hk := List.find?_some he
  rw [decide_eq_true_eq] at hk
  rw [← hk]
  exact List.mem_of_find?_eq_some he

/-- A map over the values leaves the keys in place. -/
theorem get_map_val {β : Type} (f : κ → α → β) :
    get (m.map fun e => (e.1, f e.1 e.2)) k = (get m k).map (f k) := by
  induction m with
  | nil => rfl
  | cons e m ih =>
    simp only [map_cons, get_cons, ih]
    split_ifs with h
    · subst h; rfl
    · rfl

/-- A map whose keys are renamed, looked up at a key no other one becomes. -/
theorem get_map_key {κ' : Type} [DecidableEq κ'] {f : κ → κ'} (hf : ∀ j ∈ keys m, f j = f k → j = k) :
    get (m.map fun e => (f e.1, e.2)) (f k) = get m k := by
  induction m with
  | nil => rfl
  | cons e m ih =>
    have ih := ih fun j hj => hf j (mem_cons_of_mem _ hj)
    simp only [map_cons, get_cons, ih]
    by_cases h : e.1 = k
    · rw [if_pos h, if_pos (congrArg f h)]
    · rw [if_neg h, if_neg fun he => h (hf e.1 mem_cons_self he)]

/-! Tables with a primary key. -/

theorem keys_erase_nodup (h : m.keys.Nodup) : (erase m k).keys.Nodup :=
  (filter_sublist.map Prod.fst).nodup h

theorem keys_set_nodup (h : m.keys.Nodup) : (set m k v).keys.Nodup := by
  refine nodup_cons.2 ⟨?_, keys_erase_nodup h⟩
  intro hk
  have hsome := mem_keys.1 hk
  rw [get_erase, if_pos rfl] at hsome
  cases hsome

theorem filter_key (h : m.keys.Nodup) : m.filter (fun e => e.1 = k) = (get m k).toList.map (k, ·) := by
  induction m with
  | nil => rfl
  | cons e m ih =>
    obtain ⟨he, hm⟩ := nodup_cons.1 h
    rw [filter_cons, get_cons, ih hm]
    by_cases hk : e.1 = k
    · subst hk
      have hnone : get m e.1 = none := get_eq_none_iff.2 he
      simp [hnone]
    · simp [hk]

theorem get_of_mem {e : κ × α} (h : m.keys.Nodup) (he : e ∈ m) : get m e.1 = some e.2 := by
  have hmem : e ∈ m.filter fun x => x.1 = e.1 := mem_filter.2 ⟨he, by simp⟩
  rw [filter_key h] at hmem
  obtain ⟨v, hv, hev⟩ := mem_map.1 hmem
  rw [← hev]
  exact Option.mem_toList.1 hv

theorem perm_erase (h : m.keys.Nodup) (k : κ) : (get m k).toList.map (k, ·) ++ erase m k ~ m := by
  rw [← filter_key h, erase]
  simpa using filter_append_perm (fun e => e.1 = k) m

theorem countP_erase (h : m.keys.Nodup) (k : κ) (p : κ × α → Bool) :
    (get m k).toList.countP (fun v => p (k, v)) + (erase m k).countP p = m.countP p := by
  rw [← (perm_erase h k).countP_eq, countP_append, countP_map]
  rfl

end GoMap
