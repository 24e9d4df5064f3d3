import Clumoove.Sanity.Transfer.Attempts

/-! Concurrent transfers do not interfere as long as they stay away from each other's names, or ask
before they write and share a target whose lock is kept until it is filled: then no two of them end
up under the same path, and what is complete holds the content of its source. -/

namespace Clumoove.Transfer

open Sync

variable {ι : Type} [DecidableEq ι] {s : Setting ι} {M : ι → Prop} {old : GoMap Location Content}

def Untried (old : GoMap Location Content) (w : World ι) : Prop :=
  w.objects = old ∧ ∀ i, w.rows i = {}

omit [DecidableEq ι] in
theorem inv_untried (h : s.Orderly M) (hw : Untried old w) : s.Inv M old w := by
  obtain ⟨rfl, hrows⟩ := hw
  have hfinal : ∀ i k, (s.job i).slot s.lib = some k → (s.job i).final (w.rows i) = none := by
    intro i k hslot
    obtain ⟨mig, task, metadata, hjob, -⟩ := slot_migration hslot
    rw [hjob, hrows]
    rfl
  refine ⟨fun i => .inl (by rw [hrows]), fun i hM => ⟨?_, .inl rfl, fun p hp _ => ?_, ?_⟩, ?_⟩
  · rintro ⟨j, -, k, hslot, -⟩ p hp
    have hnone := hp.final
    rw [hfinal i k hslot] at hnone
    cases hnone
  · -- only a task of a sync pass knows its path from the start
    cases hjob : s.job i with
    | migration mig task =>
      rw [hjob, hrows] at hp
      cases hp
    | sync job task =>
      have hasks : (s.job i).asksFirst = false := by rw [hjob]; rfl
      refine h.own i hM hasks _ ⟨p, ?_, .inl rfl⟩
      rw [hjob, hrows] at hp
      cases hp
      rw [hjob]
      exact List.mem_singleton.2 rfl
  · intro hdone
    rw [hrows] at hdone
    cases hdone
  · rintro i j - - - ⟨k, hslot, -⟩ p q hp -
    have hnone := hp.final
    rw [hfinal i k hslot] at hnone
    cases hnone

omit [DecidableEq ι] in
theorem place_ne_place (h : s.Orderly M) (hi : s.Inv M old w) (hMi : M i)
    (hMj : M j) (hne : i ≠ j) (hp : s.Claims old i w p) (hq : s.Claims old j w q) :
    s.place i p ≠ s.place j q := by
  rcases (h.apart i hMi j hne.symm).names with ⟨hshares, -⟩ | hnames
  · exact hi.distinct i j hMi hMj hne hshares p q hp hq
  · intro heq
    refine hnames _ ⟨p, mem_targets_of_final hi hp.final, .inl rfl⟩ ?_
    refine touches_of_name (h.transfers j hMj) ⟨q, mem_targets_of_final hi hq.final, .inl heq⟩

/-- A test of a state, for runs: every attempt ends only when there is something under its path. -/
def Setting.settled (s : Setting ι) (w : World ι) : Crew.Label ι Outcome → Bool
  | .finish i | .stop i =>
    match (s.job i).final (w.rows i) with
    | none => true
    | some p => (w.objects.get (s.place i p)).isSome
  | _ => true

omit [DecidableEq ι] in
theorem settles_of_settled (w : World ι) (l : Crew.Label ι Outcome) (h : s.settled w l = true) :
    s.Settles M w l := by
  intro i hl _ _ _ p hp
  rcases hl with rfl | rfl
  · simpa [Setting.settled, hp] using h
  · simpa [Setting.settled, hp] using h

/-- Two files on their way into the directory `t`. -/
def twoFiles (targetProvider : Provider) (conflictStrategy : Sync.ConflictStrategy) (one two : Text) :
    Setting Bool where
  lib := asciiLib
  accounts := twoAccounts
  job i := .migration
    { targetDir := "/t".toList, sourceProvider := .webdav, targetProvider, conflictStrategy }
    { id := sampleID, filePath := if i then one else two, fileSize := 1 }

theorem account_of_touches
    (h : ((twoFiles targetProvider conflictStrategy one two).job i).Touches asciiLib twoAccounts l) :
    l.1 = 1 := by
  rcases h with ⟨p, -, rfl | ⟨-, rfl | rfl⟩⟩ | ⟨hmoves, -⟩
  · rfl
  · rfl
  · rfl
  · cases hmoves

def sameName : Setting Bool := twoFiles .smb .rename "/a?".toList "/a*".toList

def sameNameFiles : GoMap Location Content :=
  [(twoAccounts.locate .source "/a?".toList, [1]), (twoAccounts.locate .source "/a*".toList, [2])]

theorem orderly_sameName : sameName.Orderly fun _ => True := by
  refine ⟨fun i _ => ⟨rfl, fun metadata hmeta => ?_⟩, fun i _ hasks => ?_, fun i _ j hne => ⟨?_, ?_⟩⟩
  · cases hmeta
    cases i <;> rfl
  · cases hasks
  · exact fun h => absurd (account_of_touches h) (by decide : (0 : ℕ) ≠ 1)
  · refine .inl ⟨?_, trivial, fun h => ?_⟩
    · let mig : Migration :=
        { targetDir := "/t".toList, sourceProvider := .webdav, targetProvider := .smb,
          conflictStrategy := .rename }
      refine ⟨(mig, "/t/a_".toList), ?_, ?_⟩
      · cases i <;> decide +kernel
      · cases j <;> decide +kernel
    · exact absurd (account_of_touches (.inl h)) (by decide : (0 : ℕ) ≠ 1)

/-- One attempt after the other; the second one has to ask twice. -/
def oneAfterTheOther : List (Crew.Label Bool Outcome) :=
  [.start true, .exec true .ok, .exec true .ok, .exec true (.listing [])] ++
    List.replicate 7 (.exec true .ok) ++ [.finish true] ++
  [.start false, .exec false .ok, .exec false .ok, .exec false (.listing [])] ++
    List.replicate 8 (.exec false .ok) ++ [.finish false]

/-- A file, and another one with the name under which the first is staged. -/
def stagingName : Setting Bool := twoFiles .localFolder .overwrite "/a".toList "/a.tmp".toList

def stagingNameFiles : GoMap Location Content :=
  [(twoAccounts.locate .source "/a".toList, [1]), (twoAccounts.locate .source "/a.tmp".toList, [2])]

end Clumoove.Transfer
