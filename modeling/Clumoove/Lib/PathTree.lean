import Clumoove.Lib.GoMap
import Mathlib.Data.List.Infix

/-! File trees: a node at every path, and a directory above every node. -/

namespace PathTree

open List Option

inductive Node (φ τ : Type)
  | file (f : φ)
  | dir (tag : τ)
  deriving DecidableEq

/-- A tree. The root may be missing, and then everything is. -/
@[ext]
structure Tree (σ φ τ : Type) [DecidableEq σ] where
  nodes : GoMap (List σ) (Node φ τ)
  closed : ∀ p x, (nodes.get (p ++ [x])).isSome → ∃ tag, nodes.get p = some (.dir tag)

variable {σ φ τ : Type} [DecidableEq σ]

namespace Tree

def get (t : Tree σ φ τ) (p : List σ) : Option (Node φ τ) := t.nodes.get p

def file (t : Tree σ φ τ) (p : List σ) : Option φ :=
  match t.get p with
  | some (.file f) => some f
  | _ => none

/-- The tag of the directory at a path. -/
def dir (t : Tree σ φ τ) (p : List σ) : Option τ :=
  match t.get p with
  | some (.dir tag) => some tag
  | _ => none

def isDir (t : Tree σ φ τ) (p : List σ) : Bool := (t.dir p).isSome

variable {t : Tree σ φ τ} {p q : List σ} {x : σ} {f : φ} {tag : τ}

/-- Nodes that form a tree: above each one there is a directory. -/
def wellFormed (nodes : GoMap (List σ) (Node φ τ)) : Bool :=
  nodes.keys.all fun q => q.isEmpty || match nodes.get q.dropLast with
    | some (.dir _) => true
    | _ => false

/-- A tree given by its nodes. -/
def ofNodes (nodes : GoMap (List σ) (Node φ τ)) (h : wellFormed nodes = true) : Tree σ φ τ where
  nodes := nodes
  closed := by
    intro p x hx
    have hq := List.all_eq_true.1 h _ (GoMap.mem_keys.2 hx)
    cases hp : nodes.get p with
    | none => simp [hp] at hq
    | some n =>
      cases n with
      | file f => simp [hp] at hq
      | dir tag => exact ⟨tag, rfl⟩

theorem file_eq_some : t.file p = some f ↔ t.get p = some (.file f) := by
  unfold file
  split <;> simp_all

theorem dir_eq_some : t.dir p = some tag ↔ t.get p = some (.dir tag) := by
  unfold dir
  split <;> simp_all

theorem isDir_iff : t.isDir p = true ↔ ∃ tag, t.get p = some (.dir tag) := by
  unfold isDir
  rw [isSome_iff_exists]
  simp only [dir_eq_some]

theorem file_isSome_not_dir (h : (t.file p).isSome) : t.dir p = none := by
  obtain ⟨f, hf⟩ := isSome_iff_exists.1 h
  rw [file_eq_some] at hf
  simp [dir, hf]

theorem get_isSome_iff : (t.get p).isSome ↔ (t.file p).isSome ∨ (t.dir p).isSome := by
  unfold file dir
  cases h : t.get p with
  | none => simp
  | some n => cases n <;> simp

theorem isDir_of_child (h : (t.get (p ++ [x])).isSome) : t.isDir p = true :=
  isDir_iff.2 (t.closed p x h)

/-- Every proper ancestor of a node is a directory. -/
theorem isDir_of_below {r : List σ} (hr : r ≠ []) (h : (t.get (p ++ r)).isSome) :
    t.isDir p = true := by
  induction r using List.reverseRecOn with
  | nil => exact absurd rfl hr
  | append_singleton r x ih =>
    rw [← append_assoc] at h
    have hd := isDir_of_child h
    by_cases hr' : r = []
    · subst hr'
      simpa using hd
    · refine ih hr' ?_
      obtain ⟨tag, ht⟩ := isDir_iff.1 hd
      simp [ht]

/-- The names in a directory. -/
def children (t : Tree σ φ τ) (p : List σ) : List (List σ) :=
  t.nodes.keys.filter fun q => q ≠ [] ∧ q.dropLast = p

theorem mem_children : q ∈ t.children p ↔ ∃ x, q = p ++ [x] ∧ (t.get q).isSome := by
  unfold children
  rw [mem_filter, GoMap.mem_keys, decide_eq_true_eq]
  constructor
  · rintro ⟨hq, hne, hp⟩
    refine ⟨q.getLast hne, ?_, hq⟩
    rw [← hp, dropLast_append_getLast]
  · rintro ⟨x, rfl, hq⟩
    exact ⟨hq, by simp, by simp⟩

/-- No file stands where a directory of the path has to be. -/
def clear (t : Tree σ φ τ) (p : List σ) : Bool := p.inits.all fun q => (t.file q).isNone

theorem clear_iff : t.clear p = true ↔ ∀ q, q <+: p → t.file q = none := by
  simp [clear, List.all_eq_true, mem_inits, isNone_iff_eq_none]

/-- Create a directory and everything above it that is missing. -/
def mkdirs (tag : τ) (p : List σ) (t : Tree σ φ τ) : Option (Tree σ φ τ) :=
  if h : t.clear p = true then
    some
      { nodes := GoMap.collect p.inits (fun q => if (t.get q).isNone then some (.dir tag) else none)
          ++ t.nodes
        closed := by
          intro q x hq
          have hclear := clear_iff.1 h
          simp only [GoMap.get_append, GoMap.get_collect, mem_inits] at hq ⊢
          by_cases hqp : q <+: p
          · -- the directory itself is one of those created, or was there
            cases hg : t.get q with
            | none => exact ⟨tag, by simp [hqp]⟩
            | some n =>
              cases n with
              | dir tag' => exact ⟨tag', by simpa [hqp, get] using hg⟩
              | file f => exact absurd (hclear q hqp) (by simp [file, hg])
          · have hx : ¬ q ++ [x] <+: p := fun h => hqp ((prefix_append q [x]).trans h)
            rw [if_neg hx] at hq
            obtain ⟨tag', ht⟩ := t.closed q x hq
            exact ⟨tag', by simpa [hqp] using ht⟩ }
  else none

variable {t' : Tree σ φ τ}

theorem mkdirs_eq_some (h : t.mkdirs tag p = some t') : (∀ q, q <+: p → t.file q = none) ∧
      ∀ q, t'.get q = if q <+: p ∧ t.get q = none then some (.dir tag) else t.get q := by
  unfold mkdirs at h
  split_ifs at h with hc
  refine ⟨clear_iff.1 hc, fun q => ?_⟩
  cases h
  simp only [get, GoMap.get_append, GoMap.get_collect, mem_inits]
  by_cases hq : q <+: p
  · by_cases hg : GoMap.get t.nodes q = none
    · simp [hq, hg]
    · simp [hq, hg]
  · simp [hq]

/-- Write a file into an existing directory, over a file of that name if there is one. -/
def put (p : List σ) (f : φ) (t : Tree σ φ τ) : Option (Tree σ φ τ) :=
  if h : p ≠ [] ∧ t.isDir p.dropLast = true ∧ t.isDir p = false then
    some
      { nodes := t.nodes.set p (.file f)
        closed := by
          intro q x hq
          rw [GoMap.get_set] at hq ⊢
          have hqp : q ≠ p := by
            -- nothing was below the path, so nothing is now
            rintro rfl
            rw [if_neg (by simp)] at hq
            have := isDir_of_child (t := t) (p := q) (x := x) hq
            simp [h.2.2] at this
          rw [if_neg hqp]
          by_cases hx : q ++ [x] = p
          · subst hx
            simpa [get] using isDir_iff.1 h.2.1
          · rw [if_neg hx] at hq
            exact t.closed q x hq }
  else none

theorem put_eq_some (h : t.put p f = some t') : (p ≠ [] ∧ t.isDir p.dropLast = true ∧ t.isDir p = false) ∧
      ∀ q, t'.get q = if q = p then some (.file f) else t.get q := by
  unfold put at h
  split_ifs at h with hc
  cases h
  exact ⟨hc, fun q => GoMap.get_set⟩

/-- Take a node away below which there is nothing. -/
def remove (p : List σ) (t : Tree σ φ τ) : Option (Tree σ φ τ) :=
  if h : t.children p = [] then
    some
      { nodes := t.nodes.erase p
        closed := by
          intro q x hq
          rw [GoMap.get_erase] at hq ⊢
          by_cases hx : q ++ [x] = p
          · simp [hx] at hq
          · rw [if_neg hx] at hq
            have hqp : q ≠ p := by
              rintro rfl
              have : q ++ [x] ∈ t.children q := mem_children.2 ⟨x, rfl, hq⟩
              rw [h] at this
              cases this
            rw [if_neg hqp]
            exact t.closed q x hq }
  else none

theorem remove_eq_some (h : t.remove p = some t') :
    t.children p = [] ∧ ∀ q, t'.get q = if q = p then none else t.get q := by
  unfold remove at h
  split_ifs at h with hc
  cases h
  exact ⟨hc, fun q => GoMap.get_erase⟩

/-- Take a node away with everything below it. -/
def prune (p : List σ) (t : Tree σ φ τ) : Tree σ φ τ where
  nodes := t.nodes.filter fun e => ¬ p <+: e.1
  closed := by
    intro q x hq
    have hfilter (k : List σ) := GoMap.get_filter_key (m := t.nodes) (k := k) fun j => decide (¬ p <+: j)
    rw [hfilter] at hq ⊢
    split_ifs at hq with hx
    · rw [if_pos]
      · exact t.closed q x hq
      · refine decide_eq_true fun hp => of_decide_eq_true hx ?_
        exact hp.trans (prefix_append q [x])
    · cases hq

/-- Only the node goes where it is no directory. -/
theorem get_prune (h : t.isDir p = false) (q : List σ) :
    (t.prune p).get q = if q = p then none else t.get q := by
  have hget : (t.prune p).get q = if p <+: q then none else t.get q := by
    have hfilter := GoMap.get_filter_key (m := t.nodes) (k := q) fun j => decide (¬ p <+: j)
    rw [get, prune, hfilter]
    by_cases hq : p <+: q <;> simp [hq, get]
  rw [hget]
  by_cases hq : q = p
  · simp [hq]
  · rw [if_neg hq]
    split_ifs with hp
    · obtain ⟨r, rfl⟩ := hp
      by_contra hne
      have hr : r ≠ [] := by
        rintro rfl
        exact hq (append_nil p)
      rw [isDir_of_below hr (ne_none_iff_isSome.1 (Ne.symm hne))] at h
      cases h
    · rfl

theorem get_prune_of_none (h : t.get p = none) (q : List σ) : (t.prune p).get q = t.get q := by
  rw [get_prune (by simp [isDir, dir, h])]
  split_ifs with hq
  · rw [hq, h]
  · rfl

theorem get_below_childless {r : List σ} (h : t.children p = []) (hr : r ≠ []) : t.get (p ++ r) = none := by
  cases r with
  | nil => exact absurd rfl hr
  | cons x r =>
    have hx : t.get (p ++ [x]) = none := by
      by_contra hne
      have hmem := mem_children.2 ⟨x, rfl, isSome_iff_ne_none.2 hne⟩
      rw [h] at hmem
      cases hmem
    by_contra hne
    have hsome := isSome_iff_ne_none.2 hne
    cases r with
    | nil => exact hne hx
    | cons y r =>
      rw [show p ++ x :: y :: r = p ++ [x] ++ (y :: r) by simp] at hsome
      obtain ⟨tag, htag⟩ := isDir_iff.1 (isDir_of_below (cons_ne_nil y r) hsome)
      rw [hx] at htag
      cases htag

/-- Where there is nothing below, only the node goes. -/
theorem remove_eq_prune (h : t.children p = []) : t.remove p = some (t.prune p) := by
  unfold remove
  rw [dif_pos h]
  refine congrArg some (Tree.ext (filter_congr ?_))
  intro e he
  have hbelow : p <+: e.1 → e.1 = p := by
    rintro ⟨r, hr⟩
    by_contra hne
    have hnone := get_below_childless h (r := r) (by rintro rfl; exact hne (by simpa using hr.symm))
    rw [hr] at hnone
    exact GoMap.get_eq_none_iff.1 hnone (List.mem_map_of_mem he)
  simp only [decide_eq_decide, not_iff_not]
  exact ⟨fun h => h ▸ prefix_refl _, hbelow⟩

/-! The effect of the operations on files and on directories. -/

section Effect

variable {t' : Tree σ φ τ}

theorem file_congr (h : t'.get q = t.get q) : t'.file q = t.file q := by
  simp [file, h]

theorem isDir_congr (h : t'.get q = t.get q) : t'.isDir q = t.isDir q := by
  simp [isDir, dir, h]

theorem mkdirs_file (h : t.mkdirs tag p = some t') (q : List σ) : t'.file q = t.file q := by
  obtain ⟨hclear, hget⟩ := mkdirs_eq_some h
  by_cases hq : q <+: p ∧ t.get q = none
  · have hnew := hget q
    simp [file, hnew, hq.2]
  · exact file_congr (by rw [hget, if_neg hq])

theorem mkdirs_isDir (h : t.mkdirs tag p = some t') (q : List σ) :
    t'.isDir q = true ↔ t.isDir q = true ∨ q <+: p := by
  obtain ⟨hclear, hget⟩ := mkdirs_eq_some h
  by_cases hq : q <+: p ∧ t.get q = none
  · have hnew := hget q
    rw [if_pos hq] at hnew
    simp [isDir, dir, hnew, hq.1]
  · have hd : t'.isDir q = t.isDir q := isDir_congr (by rw [hget, if_neg hq])
    rw [hd]
    refine ⟨.inl, fun hor => hor.elim id fun hp => ?_⟩
    -- a prefix that was there is no file
    have hsome : (t.get q).isSome := isSome_iff_ne_none.2 fun hn => hq ⟨hp, hn⟩
    rcases get_isSome_iff.1 hsome with hf | hd
    · rw [hclear q hp] at hf
      cases hf
    · exact hd

/-- The effect of `put`, also where it is reached in several steps. -/
theorem put_file (h : ∀ q, t'.get q = if q = p then some (.file f) else t.get q) (q : List σ) :
    t'.file q = if q = p then some f else t.file q := by
  have hget := h q
  split_ifs with hq
  · rw [if_pos hq] at hget
    exact file_eq_some.2 hget
  · rw [if_neg hq] at hget
    exact file_congr hget

theorem put_isDir (hp : t.isDir p = false)
    (h : ∀ q, t'.get q = if q = p then some (.file f) else t.get q) (q : List σ) :
    t'.isDir q = t.isDir q := by
  have hget := h q
  by_cases hq : q = p
  · rw [if_pos hq] at hget
    rw [hq, hp, ← hq]
    simp [isDir, dir, hget]
  · rw [if_neg hq] at hget
    exact isDir_congr hget

theorem remove_file_eq (h : t.remove p = some t') (q : List σ) :
    t'.file q = if q = p then none else t.file q := by
  have hget := (remove_eq_some h).2 q
  split_ifs with hq
  · rw [if_pos hq] at hget
    simp [file, hget]
  · rw [if_neg hq] at hget
    exact file_congr hget

theorem remove_isDir (h : t.remove p = some t') (q : List σ) :
    t'.isDir q = true ↔ t.isDir q = true ∧ q ≠ p := by
  have hget := (remove_eq_some h).2 q
  by_cases hq : q = p
  · simp [isDir, dir, hget, show p = q from hq.symm]
  · rw [if_neg hq] at hget
    rw [isDir_congr hget]
    simp [hq]

end Effect

end Tree

end PathTree
