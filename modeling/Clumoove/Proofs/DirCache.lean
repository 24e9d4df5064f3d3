import Mathlib.Data.List.Induction
import Mathlib.Data.List.Nodup
import Mathlib.Data.List.TakeDrop
import Clumoove.Spec.DirCache

/-! The directory cache is the set that forgets the key used least recently: map, order and positions
describe the same keys after every operation. -/

namespace Clumoove.Storage

open List GoMap

variable {keys xs ys zs : List String} {k z : String} {index : GoMap String ℕ} {c : BoundedDirCache}

/-- Where a key stands. -/
def position? (keys : List String) (k : String) : Option ℕ := if k ∈ keys then some (keys.idxOf k) else none

theorem position?_append (hk : k ∉ zs) : position? (xs ++ zs) k = position? xs k := by
  unfold position?
  by_cases h : k ∈ xs
  · simp [h, idxOf_append]
  · simp [h, hk]

theorem position?_middle (hk : k ∉ xs) : position? (xs ++ k :: ys) k = some xs.length := by
  simp [position?, idxOf_append, hk]

theorem position?_concat (hz : z ∉ xs) :
    position? (xs ++ [z]) k = if k = z then some xs.length else position? xs k := by
  split_ifs with h
  · rw [h, position?_middle hz]
  · exact position?_append (by simpa using h)

theorem position?_eq_some (hnodup : keys.Nodup) {i : ℕ} : position? keys k = some i ↔ keys[i]? = some k := by
  unfold position?
  constructor
  · intro h
    split_ifs at h with hk
    rw [← Option.some.inj h]
    exact getElem?_idxOf hk
  · intro h
    obtain ⟨hi, rfl⟩ := List.getElem?_eq_some_iff.1 h
    rw [if_pos (getElem_mem hi), hnodup.idxOf_getElem]

/-- The loop numbers what stands behind `xs` once the rest of the index is right. -/
theorem get_renumber (hnodup : (xs ++ zs).Nodup) (hindex : ∀ j, j ∉ zs → index.get j = position? xs j) :
    (renumber index xs.length zs).get k = position? (xs ++ zs) k := by
  induction zs generalizing xs index with
  | nil => simpa [renumber] using hindex k
  | cons z zs ih =>
    rw [append_cons] at hnodup ⊢
    have hz : z ∉ xs := by
      intro hmem
      exact (nodup_append.1 (nodup_append.1 hnodup).1).2.2 z hmem z (by simp) rfl
    have hlen : (xs ++ [z]).length = xs.length + 1 := length_append
    rw [renumber, ← hlen]
    apply ih hnodup
    intro j hj
    rw [get_set, position?_concat hz]
    split_ifs with h
    · rfl
    · exact hindex j (by simp [h, hj])

theorem copyDown_middle (xs ys : List String) (k : String) :
    copyDown (xs ++ k :: ys) xs.length = some (xs ++ ys ++ [(k :: ys).getLast (cons_ne_nil _ _)]) := by
  have hlast : (xs ++ k :: ys).drop ((xs ++ k :: ys).length - 1) =
      [(k :: ys).getLast (cons_ne_nil _ _)] := by
    rw [drop_length_sub_one (by simp), getLast_append_of_ne_nil _ (cons_ne_nil _ _)]
  rw [copyDown, if_pos (by simp), hlast]
  simp

/-- The three parts of a cache describe the keys of a list. -/
structure Describes (c : BoundedDirCache) (keys : List String) : Prop where
  order : c.order = keys
  nodup : keys.Nodup
  members : ∀ k, c.m.get k = if k ∈ keys then some true else none
  distinct : c.m.keys.Nodup
  index : ∀ k, c.index.get k = position? keys k

namespace Describes

theorem length_m (h : Describes c keys) : c.m.length = keys.length := by
  have hperm : c.m.keys ~ keys := by
    apply (perm_ext_iff_of_nodup h.distinct h.nodup).2
    intro k
    rw [GoMap.mem_keys, h.members]
    split_ifs with hk <;> simp [hk]
  rw [← hperm.length_eq, GoMap.keys, length_map]

theorem getD_members (h : Describes c keys) (k : String) : (c.m.get k).getD false = decide (k ∈ keys) := by
  rw [h.members]
  split_ifs with hk <;> simp [hk]

theorem split (h : Describes c keys) (hk : k ∈ keys) :
    ∃ xs ys, keys = xs ++ k :: ys ∧ k ∉ xs ∧ k ∉ ys ∧ (xs ++ ys).Nodup := by
  obtain ⟨xs, ys, rfl⟩ := append_of_mem hk
  obtain ⟨hout, hnodup⟩ := nodup_cons.1 (nodup_middle.1 h.nodup)
  rw [mem_append, not_or] at hout
  exact ⟨xs, ys, rfl, hout.1, hout.2, hnodup⟩

theorem touch (h : Describes c keys) (hk : k ∈ keys) :
    ∃ c', c.touch k = some c' ∧ c'.maxCap = c.maxCap ∧ Describes c' (Lru.use keys k) := by
  obtain ⟨xs, ys, rfl, hxs, hys, hnodup⟩ := h.split hk
  have huse : Lru.use (xs ++ k :: ys) k = xs ++ (ys ++ [k]) := by
    rw [Lru.use, erase_append_right _ hxs, erase_cons_head, append_assoc]
  have hfresh : (xs ++ (ys ++ [k])).Nodup := by
    rw [← append_assoc]
    exact hnodup.append (nodup_singleton k) (by simp [hxs, hys])
  rw [huse, BoundedDirCache.touch, h.index, position?_middle hxs, h.order]
  dsimp only [Option.getD_some]
  split_ifs with hlast
  · obtain rfl : ys = [] := by simpa using hlast
    exact ⟨c, rfl, rfl, h⟩
  · have hset : (xs ++ ys ++ [(k :: ys).getLast (cons_ne_nil _ _)]).set ((xs ++ k :: ys).length - 1) k =
        xs ++ (ys ++ [k]) := by
      simp
    rw [copyDown_middle, Option.map_some, hset, drop_left]
    refine ⟨_, rfl, rfl, rfl, hfresh, ?_, h.distinct, ?_⟩
    · intro j
      rw [h.members]
      simp [or_comm]
    · intro j
      apply get_renumber hfresh
      intro j hj
      rw [h.index]
      exact position?_append (by simpa [or_comm] using hj)

theorem taken (h : Describes c (xs ++ k :: ys)) :
    Describes { c with
      m := c.m.erase k
      order := xs ++ ys
      index := renumber (c.index.erase k) xs.length ys } (xs ++ ys) := by
  obtain ⟨hout, hnodup⟩ := nodup_cons.1 (nodup_middle.1 h.nodup)
  refine ⟨rfl, hnodup, ?_, keys_erase_nodup h.distinct, ?_⟩
  · intro j
    rw [get_erase, h.members]
    by_cases hj : j = k
    · rw [if_pos hj, if_neg (hj ▸ hout)]
    · simp [hj]
  · intro j
    apply get_renumber hnodup
    intro j hj
    rw [get_erase, h.index]
    split_ifs with hjk
    · rw [hjk, position?, if_neg fun hmem => hout (mem_append_left _ hmem)]
    · exact position?_append (by simp [hjk, hj])

theorem evict (h : Describes c keys) (hne : keys ≠ []) :
    ∃ c', c.evict = some c' ∧ c'.maxCap = c.maxCap ∧ Describes c' keys.tail := by
  obtain ⟨oldest, rest, rfl⟩ := exists_cons_of_ne_nil hne
  have hsplit : Describes c ([] ++ oldest :: rest) := h
  rw [BoundedDirCache.evict, h.order]
  exact ⟨_, rfl, rfl, hsplit.taken⟩

theorem remove (h : Describes c keys) (k : String) :
    ∃ c', c.Remove k = some c' ∧ c'.maxCap = c.maxCap ∧ Describes c' (keys.erase k) := by
  by_cases hk : k ∈ keys
  · obtain ⟨xs, ys, rfl, hxs, -, -⟩ := h.split hk
    have htake : (xs ++ ys ++ [(k :: ys).getLast (cons_ne_nil _ _)]).take ((xs ++ k :: ys).length - 1) =
        xs ++ ys := by
      rw [take_left']
      simp
    rw [erase_append_right _ hxs, erase_cons_head, BoundedDirCache.Remove, h.index, position?_middle hxs]
    dsimp only
    rw [h.order, copyDown_middle, Option.map_some, htake, drop_left]
    exact ⟨_, rfl, rfl, h.taken⟩
  · rw [erase_of_not_mem hk, BoundedDirCache.Remove, h.index, position?, if_neg hk]
    exact ⟨c, rfl, rfl, h⟩

theorem concat (h : Describes c keys) (hk : k ∉ keys) :
    Describes { c with
      m := c.m.set k true
      index := c.index.set k c.order.length
      order := c.order ++ [k] } (keys ++ [k]) := by
  refine ⟨by rw [h.order], h.nodup.append (nodup_singleton k) (by simpa using hk), ?_,
    keys_set_nodup h.distinct, ?_⟩
  · intro j
    rw [get_set, h.members]
    by_cases hj : j = k <;> simp [hj]
  · intro j
    rw [get_set, h.index, h.order, position?_concat hk]

/-- One operation of the cache is one of the set. -/
theorem call (h : Describes c keys) (hcap : 0 < c.maxCap) (op : Lru.Op String) :
    ∃ c', c.call op = some (Lru.answer keys op, c') ∧ c'.maxCap = c.maxCap ∧
      Describes c' (Lru.step c.maxCap.toNat keys op) := by
  cases op with
  | add k =>
    simp only [BoundedDirCache.call, BoundedDirCache.Add, Lru.step, h.getD_members, decide_eq_true_eq]
    split_ifs with hk hfull hroom hroom
    · obtain ⟨c', htouch, hrest⟩ := h.touch hk
      exact ⟨c', by rw [htouch]; rfl, hrest⟩
    · have := h.length_m
      omega
    · have hne : keys ≠ [] := by
        rintro rfl
        rw [h.length_m] at hfull
        simp at hfull
        omega
      obtain ⟨c', hevict, hmax, hdesc⟩ := h.evict hne
      rw [hevict]
      exact ⟨_, rfl, hmax, hdesc.concat fun hmem => hk (mem_of_mem_tail hmem)⟩
    · exact ⟨_, rfl, rfl, h.concat hk⟩
    · have := h.length_m
      omega
  | find k =>
    simp only [BoundedDirCache.call, BoundedDirCache.Contains, Lru.step, Lru.answer, h.getD_members,
      decide_eq_true_eq]
    split_ifs with hk
    · obtain ⟨c', htouch, hrest⟩ := h.touch hk
      exact ⟨c', by rw [htouch]; simp [hk], hrest⟩
    · exact ⟨c, by simp [hk], rfl, h⟩
  | remove k =>
    obtain ⟨c', hremove, hrest⟩ := h.remove k
    exact ⟨c', by rw [BoundedDirCache.call, hremove]; rfl, hrest⟩

end Describes

theorem run_describes (hcap : 0 < maxCap) (ops : List (Lru.Op String)) :
    ∃ c, (newBoundedDirCache maxCap).run ops = some ((Lru.run maxCap.toNat ops).1, c) ∧
      c.maxCap = maxCap ∧ Describes c (Lru.run maxCap.toNat ops).2 ∧
      Lru.Ordered maxCap.toNat ops.reverse (Lru.run maxCap.toNat ops).2 := by
  induction ops using List.reverseRecOn with
  | nil =>
    refine ⟨_, rfl, if_neg (Int.not_le.2 hcap), ⟨rfl, nodup_nil, fun _ => rfl, nodup_nil, fun _ => rfl⟩,
      Nat.zero_le _, Pairwise.nil⟩
  | append_singleton ops op ih =>
    obtain ⟨c, hrun, hmax, hdesc, hord⟩ := ih
    obtain ⟨c', hcall, hmax', hnext⟩ := hdesc.call (hmax.symm ▸ hcap) op
    rw [BoundedDirCache.run] at hrun ⊢
    rw [Lru.run, foldl_append, reverse_append, ← Lru.run, foldlM_append, hrun]
    refine ⟨c', ?_, hmax'.trans hmax, hmax ▸ hnext, hord.step (by omega) op⟩
    simp [hcall]

/-- The answers are those of the reference set, nothing is indexed out of range, and the three parts hold
the same keys in the same order, from the one used least recently to the one used last. -/
theorem boundedDirCache_refines_lru {maxCap : ℤ} (hcap : 0 < maxCap) (ops : List (Lru.Op String)) :
    ∃ c, (newBoundedDirCache maxCap).run ops = some ((Lru.run maxCap.toNat ops).1, c) ∧
      c.order = (Lru.run maxCap.toNat ops).2 ∧
      c.order.Pairwise (fun a b => Lru.lastUse a ops.reverse < Lru.lastUse b ops.reverse) ∧
      (c.order.length : ℤ) ≤ maxCap ∧ c.m.length = c.order.length ∧
      (∀ k, c.m.get k = if k ∈ c.order then some true else none) ∧
      ∀ k i, c.index.get k = some i ↔ c.order[i]? = some k := by
  obtain ⟨c, hrun, -, hdesc, hord⟩ := run_describes hcap ops
  have hle := hord.length_le
  refine ⟨c, hrun, hdesc.order, ?_⟩
  rw [hdesc.order]
  refine ⟨hord.recent, by omega, hdesc.length_m, hdesc.members, ?_⟩
  intro k i
  rw [hdesc.index]
  exact position?_eq_some hdesc.nodup

/-- With room for one key, adding another forgets it. -/
theorem boundedDirCache_of_one : ∃ c, (newBoundedDirCache 1).run
      [.add "a", .add "b", .find "a", .find "b"] = some ([none, none, some false, some true], c) ∧
    c.order = ["b"] := by
  obtain ⟨c, hrun, horder, -⟩ := boundedDirCache_refines_lru (by decide : (0 : ℤ) < 1)
    [.add "a", .add "b", .find "a", .find "b"]
  exact ⟨c, hrun, horder⟩

end Clumoove.Storage
