import Clumoove.Lib.Bytes
import Clumoove.Sanity.Sync.Outcome
import Clumoove.Spec.Sync.Assumptions

/-! The assumptions about providers and paths can be evaluated for given ones. -/

namespace Clumoove.Sync

open Bytes PathTree List

variable {job : Job} {st : State} {s : Side} {p : Path}

def knownPaths (job : Job) (st : State) : List Path :=
  [Side.source, Side.target].flatMap fun s =>
    (st.trees.on s).nodes.keys.map (relPath (job.base s)) ++ (st.rows.on s).keys

theorem mem_knownPaths_of_get (h : ((st.trees.on s).get (absPath (job.base s) p)).isSome) :
    p ∈ knownPaths job st := by
  refine mem_flatMap.2 ⟨s, by cases s <;> simp, mem_append_left _ ?_⟩
  exact List.mem_map.2 ⟨_, GoMap.mem_keys.2 h, relPath_absPath⟩

theorem mem_knownPaths_of_row (h : ((st.rows.on s).get p).isSome) : p ∈ knownPaths job st :=
  mem_flatMap.2 ⟨s, by cases s <;> simp, mem_append_right _ (GoMap.mem_keys.2 h)⟩

theorem State.KnowsFile.known (h : st.KnowsFile job s p) : p ∈ knownPaths job st := by
  rcases h with h | ⟨r, hr, -⟩
  · exact mem_knownPaths_of_get (Tree.get_isSome_iff.2 (.inl h))
  · exact mem_knownPaths_of_row (by rw [hr]; rfl)

instance (r : GoMap Path Row) (p : Path) (b : Bool) :
    Decidable (∃ row, r.get p = some row ∧ row.isDir = b) :=
  decidable_of_iff ((r.get p).any fun row => row.isDir = b) (by simp [Option.any_eq_true])

instance : Decidable (st.KnowsFile job s p) := by
  unfold State.KnowsFile
  infer_instance

instance : Decidable (st.KnowsDir job s p) := by
  unfold State.KnowsDir
  infer_instance

instance (P : Side → Prop) [DecidablePred P] : Decidable (∀ s, P s) :=
  decidable_of_iff (P .source ∧ P .target)
    ⟨fun h s => by cases s <;> [exact h.1; exact h.2], fun h => ⟨h _, h _⟩⟩

instance : Decidable (NoClash job st) :=
  decidable_of_iff
    (∀ p ∈ knownPaths job st, ∀ s s', ¬ (st.KnowsFile job s p ∧ st.KnowsDir job s' p))
    ⟨fun h p s s' hp => h p hp.1.known s s' hp, fun h p _ s s' => h p s s'⟩

instance {trees : Sided Tree} {t : TaskToCreate} {id : String} : Decidable (Unhindered job trees t id) := by
  unfold Unhindered
  infer_instance

instance {trees : Sided Tree} {t : TaskToCreate} : ∀ o : Outcome, Decidable (o.Smooth job trees t)
  | .completes _ _ => inferInstanceAs (Decidable (Unhindered ..))
  | .fails leaves => inferInstanceAs (Decidable (leaves.isNone = true))

instance decidableSmooth (sanitize : Sanitizer) : ∀ x runs, Decidable (Smooth job sanitize x runs)
  | _, [] => .isTrue trivial
  | x, run :: runs =>
    have := decidableSmooth sanitize (runTask job sanitize x run) runs
    inferInstanceAs (Decidable (_ ∧ _))

instance {sanitize : Sanitizer} {x : Execution} {runs : List (TaskToCreate × Outcome)} :
    Decidable (Undisturbed job sanitize x runs) :=
  decidable_of_iff (_ ∧ _) ⟨fun h => ⟨h.1, h.2⟩, fun h => ⟨h.keeps, h.smooth⟩⟩

instance (digest : List UInt8 → String) (f : File) : Decidable (f.Hashed digest) := by
  unfold File.Hashed
  infer_instance

instance (digest : List UInt8 → String) (trees : Sided Tree) : Decidable (Hashed digest job trees) :=
  decidable_of_iff (∀ s, ∀ p ∈ (trees.on s).nodes.keys.map (relPath (job.base s)),
      ∀ f ∈ fileAt job trees s p, f.Hashed digest)
    ⟨fun h s p f hf => h s p (List.mem_map.2 ⟨_, GoMap.mem_keys.2 (Tree.get_isSome_iff.2 (.inl (by
          rw [fileAt] at hf
          rw [hf]
          rfl))), relPath_absPath⟩) f hf,
      fun h s p _ f hf => h s p f hf⟩

def keepNames : Sanitizer := fun _ name => name

theorem fitsState_of_perm {course : Course}
    (h : (course.runs.map Prod.fst).Perm (delta job (listings job course st) st.rows).tasks) :
    course.FitsState job st := by
  intro pl hpl
  rw [Course.Fits, plan_eq hpl]
  exact h

theorem plan_of_no_errors (job : Job) (course : Course) (st : State)
    (h : ∀ s, (traversal job course st s).indexErrors = []) :
    plan job course st = some (delta job (listings job course st) st.rows) :=
  if_pos ⟨h .source, h .target⟩

def untagged (tree : Tree) : Bool :=
  tree.nodes.all fun n => match n.2 with | .dir e => e = "" | .file _ => true

theorem honors_of_untagged (h : untagged tree = true) : Honors versions tree := by
  intro d e he hd
  have hmem := List.all_eq_true.1 h _ (GoMap.mem_of_get (Tree.dir_eq_some.1 hd))
  exact absurd (of_decide_eq_true hmem) he

theorem current_of_untagged
    (h : ∀ s, untagged (st.trees.on s) = true) (hpl : plan job course st = some pl) :
    Current job course st := by
  refine current_of_valid (fun s d e he _ hd => ?_) hpl
  have hmem := List.all_eq_true.1 (h s) _ (GoMap.mem_of_get (Tree.dir_eq_some.1 hd))
  exact absurd (of_decide_eq_true hmem) he

def hexDigest (content : List UInt8) : String := String.ofList ('x' :: hex content)

theorem hexDigest_injective : Function.Injective hexDigest := by
  intro a b h
  have := congrArg String.toList h
  simp only [hexDigest, String.toList_ofList, List.cons.injEq, true_and] at this
  exact hex_injective this

def hexFile (content : List UInt8) : File := { content := content, hash := hexDigest content }

end Clumoove.Sync
