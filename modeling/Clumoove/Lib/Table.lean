import Mathlib.Data.List.Nodup

/-! Tables as lists of rows: the effect of an `UPDATE … WHERE` and the facts about a row and
its key that such a statement keeps. -/

namespace Table

open List

variable {α κ : Type} {p : α → Bool} {f : α → α} {rows : List α}

/-- `UPDATE … SET f WHERE p`. -/
def updateWhere (p : α → Bool) (f : α → α) (rows : List α) : List α :=
  rows.map fun r => if p r then f r else r

/-- `ORDER BY … LIMIT 1`: the first row that no other row precedes. -/
def firstBy (le : α → α → Bool) : List α → Option α
  | [] => none
  | a :: rows =>
    match firstBy le rows with
    | none => some a
    | some b => if le a b then some a else some b

theorem firstBy_eq_none {le : α → α → Bool} : firstBy le rows = none ↔ rows = [] := by
  cases rows with
  | nil => simp [firstBy]
  | cons a rows =>
    refine ⟨fun h => ?_, fun h => by cases h⟩
    unfold firstBy at h
    split at h
    · cases h
    · split_ifs at h

theorem mem_updateWhere {b : α} :
    b ∈ updateWhere p f rows ↔ ∃ a ∈ rows, b = if p a then f a else a := by
  simp only [updateWhere, List.mem_map, eq_comm]

theorem updateWhere_hit {a : α} (ha : a ∈ rows) (hp : p a = true) : f a ∈ updateWhere p f rows :=
  mem_updateWhere.2 ⟨a, ha, by simp [hp]⟩

theorem updateWhere_miss {a : α} (ha : a ∈ rows) (hp : p a = false) : a ∈ updateWhere p f rows :=
  mem_updateWhere.2 ⟨a, ha, by simp [hp]⟩

/-- A row that is not marked was not matched by the statement that marks. -/
theorem of_mem_updateWhere {q : α → Bool} {b : α} (h : b ∈ updateWhere p f rows)
    (hf : ∀ a, q (f a) = true) (hb : q b = false) : b ∈ rows ∧ p b = false := by
  obtain ⟨a, ha, rfl⟩ := mem_updateWhere.1 h
  split_ifs at hb ⊢ with hp
  · rw [hf] at hb
    cases hb
  · exact ⟨ha, eq_false_of_ne_true hp⟩

theorem updateWhere_none (h : ∀ a ∈ rows, p a = false) : updateWhere p f rows = rows := by
  induction rows with
  | nil => rfl
  | cons a rows ih =>
    have ha := h a (by simp)
    have hrows := ih fun b hb => h b (mem_cons_of_mem a hb)
    simp only [updateWhere, map_cons, ha] at hrows ⊢
    simpa using hrows

/-- A selection the statement does not touch can be made before it. -/
theorem filter_updateWhere {q : α → Bool} (h : ∀ a, q (f a) = q a) :
    (updateWhere p f rows).filter q = updateWhere p f (rows.filter q) := by
  rw [updateWhere, List.filter_map]
  congr 1
  refine filter_congr fun a _ => ?_
  by_cases hp : p a = true <;> simp [hp, h]

/-- Columns the statement does not set keep their values, row by row. -/
theorem map_updateWhere (key : α → κ) (h : ∀ a, p a = true → key (f a) = key a) :
    (updateWhere p f rows).map key = rows.map key := by
  rw [updateWhere, List.map_map]
  refine map_congr_left fun a _ => ?_
  by_cases hp : p a = true
  · simp [hp, h a hp]
  · simp [hp]

/-- A unique key names at most one row. -/
theorem eq_of_key {key : α → κ} (h : (rows.map key).Nodup) {a b : α} (ha : a ∈ rows)
    (hb : b ∈ rows) (hk : key a = key b) : a = b :=
  inj_on_of_nodup_map h ha hb hk

end Table
