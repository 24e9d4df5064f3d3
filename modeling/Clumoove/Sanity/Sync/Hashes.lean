import Clumoove.Lib.ThreeWay
import Clumoove.Sanity.Sync.Outcome
import Clumoove.Spec.Sync.Assumptions

/-! What the delta decides where every file has the hash of its content: it compares contents. -/

namespace Clumoove.Sync

open ThreeWay Option

section

variable {digest : List UInt8 → String} {f g : File} {r : Row} {s : Side} {c : List UInt8}

structure Row.Describes (digest : List UInt8 → String) (s : Side) (r : Row) (c : List UInt8) :
    Prop where
  size : r.size = c.length
  hash : r.hash s ≠ ""
  clean : cleanHash (r.hash s) ≠ ""
  digest : cleanHash (r.hash s) = digest c

theorem File.Hashed.describes (h : f.Hashed digest) (s : Side) :
    (f.state.row s).Describes digest s f.content := by
  obtain ⟨h₁, h₂, h₃⟩ := h
  cases s <;> exact ⟨rfl, h₁, h₂, h₃⟩

variable (hinj : Function.Injective digest)
include hinj

theorem matching_iff (hf : f.Hashed digest) (hg : g.Hashed digest) :
    isFileMatchingTarget f.state g.state = true ↔ f.content = g.content := by
  obtain ⟨f₁, f₂, f₃⟩ := hf
  obtain ⟨g₁, g₂, g₃⟩ := hg
  have hhash : f.state.hash ≠ "" ∧ g.state.hash ≠ "" ∧ cleanHash f.state.hash ≠ "" ∧
      cleanHash g.state.hash ≠ "" := ⟨f₁, g₁, f₂, g₂⟩
  unfold isFileMatchingTarget
  by_cases hsize : f.state.size = g.state.size
  · rw [if_neg (not_not.2 hsize), if_pos hhash, decide_eq_true_eq]
    refine Iff.trans ?_ hinj.eq_iff
    rw [← f₃, ← g₃]
    rfl
  · rw [if_pos hsize]
    refine ⟨nofun, fun h => absurd ?_ hsize⟩
    simp [File.state, h]

theorem modified_iff (hf : f.Hashed digest) (hr : r.Describes digest s c) :
    isFileModified f.state r s = true ↔ f.content ≠ c := by
  obtain ⟨f₁, f₂, f₃⟩ := hf
  have hhash : r.modifiedHash s = r.hash s := by
    cases s with
    | source => rfl
    | target => exact if_neg hr.hash
  have hknown : cleanHash f.state.hash ≠ "" ∧ cleanHash (r.hash s) ≠ "" ∧ f.state.hash ≠ "" ∧
      r.hash s ≠ "" := ⟨f₂, hr.clean, f₁, hr.hash⟩
  unfold isFileModified
  rw [hhash]
  by_cases hsize : f.state.size = r.size
  · rw [if_neg (not_not.2 hsize), if_pos hknown, decide_eq_true_eq, hr.digest]
    refine Iff.trans ?_ hinj.ne_iff
    rw [← f₃]
    rfl
  · rw [if_pos hsize]
    refine ⟨fun _ h => hsize ?_, fun _ => rfl⟩
    rw [hr.size, ← h]
    rfl

theorem modified_eq (hf : f.Hashed digest) (hr : r.Describes digest s c) :
    isFileModified f.state r s = decide (c ≠ f.content) := by
  rw [Bool.eq_iff_iff, modified_iff hinj hf hr, decide_eq_true_eq]
  exact ne_comm

end

def verdictTasks (job : Job) (p : Path) (src tgt : Option FileState) : Verdict → List TaskToCreate
  | .nothing => []
  | .push => src.toList.map (uploadTask p · false)
  | .pull => tgt.toList.map (downloadTask p)
  | .dropSource => if job.deletePropagation then [deleteTask p .source] else []
  | .dropTarget => if job.deletePropagation then [deleteTask p .target] else []
  | .conflict => src.toList.flatMap (conflictTasks job.conflictStrategy p)

def BaseRows (digest : List UInt8 → String) (pSrc pTgt : Option Row) : Option (List UInt8) → Prop
  | none => pSrc = none ∧ pTgt = none
  | some c => (∃ r, pSrc = some r ∧ r.Describes digest .source c) ∧
      ∃ r, pTgt = some r ∧ r.Describes digest .target c

section

variable {digest : List UInt8 → String} {job : Job} {p : Path} {a b : Option File}
variable {pSrc pTgt : Option Row} {base : Option (List UInt8)}

theorem BaseRows.isNone (hbase : BaseRows digest pSrc pTgt base) :
    pSrc.isNone = base.isNone ∧ pTgt.isNone = base.isNone := by
  cases base with
  | none =>
    obtain ⟨rfl, rfl⟩ := hbase
    exact ⟨rfl, rfl⟩
  | some c =>
    obtain ⟨⟨rs, rfl, -⟩, ⟨rt, rfl, -⟩⟩ := hbase
    exact ⟨rfl, rfl⟩

theorem BaseRows.changed {f : File} (hinj : Function.Injective digest)
    (hbase : BaseRows digest pSrc pTgt base) (hf : f.Hashed digest) :
    pSrc.elim true (isFileModified f.state · .source) = decide (base ≠ some f.content) ∧
      pTgt.elim true (isFileModified f.state · .target) = decide (base ≠ some f.content) := by
  cases base with
  | none =>
    obtain ⟨rfl, rfl⟩ := hbase
    simp
  | some c =>
    obtain ⟨⟨rs, rfl, hs⟩, ⟨rt, rfl, ht⟩⟩ := hbase
    simp [modified_eq hinj hf hs, modified_eq hinj hf ht]

/-- The two-way delta is the three-way comparison of contents. -/
theorem twoWayTasks_verdict (hinj : Function.Injective digest)
    (ha : ∀ f, a = some f → f.Hashed digest) (hb : ∀ f, b = some f → f.Hashed digest)
    (hbase : BaseRows digest pSrc pTgt base) :
    twoWayTasks job p ⟨a.map File.state, b.map File.state, pSrc, pTgt⟩
      = verdictTasks job p (a.map File.state) (b.map File.state)
          (verdict base (a.map File.content) (b.map File.content)) := by
  cases a with
  | none =>
    cases b with
    | none => exact twoWayTasks_none
    | some g =>
      rw [map_none, map_some, twoWayTasks_target, Entry.tgtModified_eq rfl,
        (hbase.changed hinj (hb g rfl)).2, hbase.isNone.1]
      by_cases hg : base = some g.content <;> simp [hg, verdict, verdictTasks]
  | some f =>
    cases b with
    | none =>
      rw [map_none, map_some, twoWayTasks_source, Entry.srcModified_eq rfl,
        (hbase.changed hinj (ha f rfl)).1, hbase.isNone.2]
      by_cases hf : base = some f.content <;> simp [hf, verdict, verdictTasks]
    | some g =>
      have hmatch := matching_iff hinj (ha f rfl) (hb g rfl)
      rw [map_some, map_some, twoWayTasks_both]
      by_cases hfg : f.content = g.content
      · simp [hmatch.2 hfg, verdict, hfg, verdictTasks]
      · have hsync : Entry.inSyncDirectMatch ⟨some f.state, some g.state, pSrc, pTgt⟩ = false :=
          Bool.not_eq_true _ ▸ hmatch.not.2 hfg
        rw [if_neg (hmatch.not.2 hfg), Entry.srcModified_eq hsync, Entry.tgtModified_eq hsync,
          (hbase.changed hinj (ha f rfl)).1, (hbase.changed hinj (hb g rfl)).2]
        by_cases hf : base = some f.content <;> by_cases hg : base = some g.content <;>
          simp_all [verdict, verdictTasks]

end

end Clumoove.Sync
