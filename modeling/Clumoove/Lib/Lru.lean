import Mathlib.Data.List.Basic

/-! A set of at most `cap` keys that forgets the key used least recently, as the list of its keys from that
one to the one used last. A key is used when it is added and when it is found. -/

namespace Lru

open List

variable {κ : Type} [DecidableEq κ] {cap : ℕ} {k j : κ} {keys keys' : List κ}

inductive Op (κ : Type)
  | add (k : κ)
  | find (k : κ)
  | remove (k : κ)
  deriving DecidableEq

def use (keys : List κ) (k : κ) : List κ := keys.erase k ++ [k]

def step (cap : ℕ) (keys : List κ) : Op κ → List κ
  | .add k =>
    if k ∈ keys then use keys k
    else if keys.length < cap then keys ++ [k]
    else keys.tail ++ [k]
  | .find k => if k ∈ keys then use keys k else keys
  | .remove k => keys.erase k

def answer (keys : List κ) : Op κ → Option Bool
  | .find k => some (decide (k ∈ keys))
  | _ => none

/-- The answers to the operations, and the keys that are there after them. -/
def run (cap : ℕ) (ops : List (Op κ)) : List (Option Bool) × List κ :=
  ops.foldl (fun s op => (s.1 ++ [answer s.2 op], step cap s.2 op)) ([], [])

/-- When a key was used last. The operations stand from the last to the first. -/
def lastUse (k : κ) : List (Op κ) → ℕ
  | [] => 0
  | op :: past => if op = .add k ∨ op = .find k then past.length + 1 else lastUse k past

variable {past : List (Op κ)} {op : Op κ}

theorem lastUse_le (k : κ) (past : List (Op κ)) : lastUse k past ≤ past.length := by
  induction past with
  | nil => exact Nat.le_refl _
  | cons op past ih =>
    rw [lastUse, length_cons]
    split_ifs <;> omega

structure Ordered (cap : ℕ) (past : List (Op κ)) (keys : List κ) : Prop where
  length_le : keys.length ≤ cap
  recent : keys.Pairwise fun a b => lastUse a past < lastUse b past

namespace Ordered

theorem nodup (h : Ordered cap past keys) : keys.Nodup := by
  apply h.recent.imp
  intro a b hlt heq
  rw [heq] at hlt
  exact Nat.lt_irrefl _ hlt

theorem sublist (h : Ordered cap past keys) (hsub : keys' <+ keys)
    (hunused : ∀ j ∈ keys', ¬ (op = .add j ∨ op = .find j)) : Ordered cap (op :: past) keys' := by
  refine ⟨Nat.le_trans hsub.length_le h.length_le, ?_⟩
  apply (h.recent.sublist hsub).imp_of_mem
  intro a b ha hb hlt
  rw [lastUse, lastUse, if_neg (hunused a ha), if_neg (hunused b hb)]
  exact hlt

theorem concat (h : Ordered cap past keys) (hsub : keys' <+ keys) (hroom : keys'.length < cap)
    (hnew : k ∉ keys') (hop : op = .add k ∨ op = .find k) : Ordered cap (op :: past) (keys' ++ [k]) := by
  have hne : ∀ j ∈ keys', ¬ (op = .add j ∨ op = .find j) := by
    intro j hj hused
    have hjk : j = k := by
      rcases hop with rfl | rfl <;> simpa [eq_comm] using hused
    exact hnew (hjk ▸ hj)
  refine ⟨by simp; omega, pairwise_append.2 ⟨(h.sublist hsub hne).recent, pairwise_singleton _ _, ?_⟩⟩
  intro a ha b hb
  rw [mem_singleton.1 hb, lastUse, lastUse, if_neg (hne a ha), if_pos hop]
  exact Nat.lt_succ_of_le (lastUse_le a past)

theorem use (h : Ordered cap past keys) (hk : k ∈ keys) (hop : op = .add k ∨ op = .find k) :
    Ordered cap (op :: past) (Lru.use keys k) := by
  apply h.concat erase_sublist _ h.nodup.not_mem_erase hop
  have hlen := length_erase_add_one hk
  have hle := h.length_le
  omega

protected theorem step (hcap : 0 < cap) (h : Ordered cap past keys) (op : Op κ) :
    Ordered cap (op :: past) (step cap keys op) := by
  cases op with
  | add k =>
    simp only [Lru.step]
    split_ifs with hk hroom
    · exact h.use hk (.inl rfl)
    · exact h.concat (Sublist.refl _) hroom hk (.inl rfl)
    · apply h.concat (tail_sublist keys) _ (fun hmem => hk (mem_of_mem_tail hmem)) (.inl rfl)
      have hle := h.length_le
      rw [length_tail]
      omega
  | find k =>
    simp only [Lru.step]
    split_ifs with hk
    · exact h.use hk (.inr rfl)
    · apply h.sublist (Sublist.refl _)
      intro j hj hused
      have hkj : k = j := by simpa using hused
      exact hk (hkj ▸ hj)
  | remove k => exact h.sublist erase_sublist (by simp)

end Ordered

end Lru
