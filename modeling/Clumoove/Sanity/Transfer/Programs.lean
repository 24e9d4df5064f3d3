import Clumoove.Sanity.Transfer.World

/-! What the pieces of a worker's program may come to do: which of them only ask, and which paths
they may settle on. -/

namespace Clumoove.Transfer

open GoPath Prog Sync List

variable {lib : GoLib} {mig : Migration} {task : Task} {path : Text}

variable {provider : Provider} {c : Call} {targetPath : Text} {α : Type} {side : Side} {x : Work α}

def Call.isQuery : Call → Bool
  | .createDirectory _ _ | .createParentDirectories _ _ | .deleteFile _ _ | .renameFile _ _ _
  | .streamUpload _ _ _ | .updateResolvedTargetPath _ | .complete => false
  | _ => true

def Call.isSilent : Call → Bool
  | .skip => false
  | c => c.isQuery

abbrev Asks {α : Type} (x : Work α) : Prop := Within (fun c => c.isQuery = true) x

abbrev Silent {α : Type} (x : Work α) : Prop := Within (fun c => c.isSilent = true) x

theorem asks_call (h : c.isQuery = true) : Asks (call c) := Within.perform h

theorem silent_call (h : c.isSilent = true) : Silent (call c) := Within.perform h

theorem isQuery_of_isSilent (h : c.isSilent = true) : c.isQuery = true := by
  cases c with
  | skip => cases h
  | _ => exact h

theorem asks_of_silent (h : Silent x) : Asks x :=
  h.mono fun _ => isQuery_of_isSilent

theorem triple_only {W : Type} {L : Logic Call (fun c => Except Fault c.Val) W} {P Q : W → Prop}
    {E : Fault → W → Prop} {c : Prop} [Decidable c] {x : Work Unit}
    (h : c → Triple L P x (fun _ => Q) E) (hQ : ¬c → ∀ w, L.inv w → P w → Q w) :
    Triple L P (only c x) (fun _ => Q) E := by
  unfold only
  split_ifs with hc
  · exact h hc
  · exact Triple.pure (hQ hc)

theorem within_only {c : Prop} [Decidable c] {x : Work Unit}
    (h : c → Within A x) : Within A (only c x) := by
  unfold only
  split_ifs with hc
  · exact h hc
  · exact Within.pure _

attribute [local simp] within_iff call only Call.isQuery Call.isSilent

theorem within_orSkip (hskip : A .skip) (h : Within A x) : Within A (orSkip x) := by
  refine Within.bind (Within.attempt h) fun r => ?_
  cases r with
  | ok a => exact Within.pure _
  | error e => cases e <;> simp [hskip]

theorem asks_orSkip (h : Asks x) : Asks (orSkip x) := within_orSkip rfl h

theorem silent_verifyTargetSize (n : ℕ) : Silent (verifyTargetSize side path n) := by
  induction n with
  | zero => exact silent_call rfl
  | succ n ih =>
    refine Within.bind (Within.attempt (silent_call rfl)) fun r => ?_
    cases r with
    | ok found => exact Within.pure _
    | error e => exact ih

theorem silent_verify {route : Route} : Silent route.verify :=
  Within.bind (silent_verifyTargetSize 2) fun _ => within_only fun _ => Within.throw _

theorem silent_inPersonalVault : Silent (inPersonalVault mig task) := by
  simp [inPersonalVault]

theorem asks_directoryCollision : Asks (directoryCollision lib provider side path) := by
  simp [directoryCollision]

theorem within_makeDirectory (hA : ∀ c, c.isQuery = true → A c)
    (hcomplete : A .complete) (h : A (.createDirectory side path)) :
    Within A (makeDirectory lib provider side path) := by
  refine Within.bind (asks_directoryCollision.mono hA) fun found => ?_
  cases found with
  | some _ => exact (asks_call rfl).mono hA
  | none => exact Within.bind (Within.perform h) fun _ => Within.perform hcomplete

/-! The paths an attempt may choose. -/

def baseNames (lib : GoLib) (provider : Provider) (targetPath : Text) : List Text :=
  if provider = .immich then [targetPath]
  else
    let sanitized := sanitizedTarget lib provider targetPath
    if provider.isCaseInsensitive then
      sanitized :: (List.range maxRenameAttempts).map fun k =>
        join [dir sanitized, resolvedName lib provider (base sanitized) (k + 1)]
    else [sanitized]

def copies (targetPath : Text) : List Text :=
  targetPath :: (List.range' 1 100).map (renameCandidate targetPath)

def finalNames (lib : GoLib) (mig : Migration) (targetPath : Text) : List Text :=
  let bases := baseNames lib mig.targetProvider targetPath
  if mig.conflictStrategy = .rename then bases.flatMap copies else bases

theorem baseNames_subset :
    baseNames lib mig.targetProvider targetPath ⊆ finalNames lib mig targetPath := by
  intro p hp
  unfold finalNames
  split_ifs
  · exact mem_flatMap.2 ⟨p, hp, mem_cons_self⟩
  · exact hp

theorem mem_finalNames_of_copy (hmode : mig.conflictStrategy = .rename)
    (hp : p ∈ baseNames lib mig.targetProvider targetPath) (hq : q ∈ copies p) :
    q ∈ finalNames lib mig targetPath := by
  unfold finalNames
  simp only [hmode, if_true]
  exact mem_flatMap.2 ⟨p, hp, hq⟩

theorem gives_avoidCaseCollision (himmich : mig.targetProvider ≠ .immich) :
    Gives (fun c => c.isSilent = true) (· ∈ baseNames lib mig.targetProvider path)
      (avoidCaseCollision lib mig (sanitizedTarget lib mig.targetProvider path)).run := by
  unfold avoidCaseCollision
  split_ifs with hcase
  · have hself : sanitizedTarget lib mig.targetProvider path ∈
        baseNames lib mig.targetProvider path := by
      simp [baseNames, himmich, hcase]
    refine Within.gives_bind (Within.attempt (silent_call rfl)) fun r => ?_
    cases r with
    | error e => exact Gives.pure hself
    | ok listing =>
      simp only
      split
      · exact Gives.pure hself
      · refine Within.gives_bind (silent_call rfl) fun listing => ?_
        split
        · exact Gives.throw _
        · rename_i name hname
          obtain ⟨k, hk, rfl⟩ := List.mem_map.1 (List.mem_of_find?_eq_some hname)
          refine Gives.pure ?_
          simp only [baseNames, himmich, hcase, if_false, if_true]
          exact mem_cons_of_mem _ (List.mem_map.2 ⟨k, hk, rfl⟩)
  · exact Gives.pure (by simp [baseNames, himmich, hcase])

theorem gives_renameTarget (h : counters ⊆ List.range' 1 100) :
    Gives (fun c => c.isQuery = true) (fun o => ∀ p, o = some p → p ∈ copies path)
      (renameTarget path counters).run := by
  induction counters with
  | nil => exact Gives.throw _
  | cons counter rest ih =>
    refine Within.gives_bind (asks_orSkip (asks_call rfl)) fun found => ?_
    cases found with
    | none => exact Gives.pure nofun
    | some found =>
      cases found with
      | none =>
        refine Gives.pure fun p hp => ?_
        cases hp
        exact mem_cons_of_mem _ (List.mem_map_of_mem (h mem_cons_self))
      | some _ => exact ih fun k hk => h (mem_cons_of_mem _ hk)

theorem gives_resolveConflict (hfiles : task.resourceType = .files)
    (hpath : path ∈ baseNames lib mig.targetProvider targetPath) :
    Gives (fun c => c.isQuery = true) (fun o => ∀ p, o = some p → p ∈ finalNames lib mig targetPath)
      (resolveConflict mig task path).run := by
  have hkeep : Gives (fun c => c.isQuery = true)
      (fun o => ∀ p, o = some p → p ∈ finalNames lib mig targetPath)
      (pure (some path) : Work (Option Text)).run := by
    refine Gives.pure fun p hp => ?_
    cases hp
    exact baseNames_subset hpath
  refine Within.gives_bind (asks_orSkip (asks_call rfl)) fun found => ?_
  cases found with
  | none => exact Gives.pure nofun
  | some found =>
    cases found with
    | none => exact hkeep
    | some _ =>
      simp only [hfiles, ne_eq, not_true_eq_false, if_false]
      cases hmode : mig.conflictStrategy with
      | skip => exact Within.gives_bind (asks_call rfl) fun _ => Gives.pure nofun
      | rename =>
        refine Gives.mono (fun _ h => h) (fun o ho p hp => ?_)
          (gives_renameTarget (List.Subset.refl _))
        exact mem_finalNames_of_copy hmode hpath (ho p hp)
      | overwrite | unsupported => exact hkeep

theorem join_dir_ne_nil (p name : Text) : join [dir p, name] ≠ [] := by
  have hd : dir p ≠ [] := clean_ne_nil _
  simp [join, hd, clean_ne_nil]

theorem sanitizedTarget_ne_nil (h : path ≠ []) : sanitizedTarget lib provider path ≠ [] := by
  unfold sanitizedTarget
  simp only
  split_ifs
  · exact join_dir_ne_nil _ _
  · exact h

theorem baseNames_ne_nil (h : path ≠ []) : ∀ p ∈ baseNames lib provider path, p ≠ [] := by
  intro p hp
  unfold baseNames at hp
  split_ifs at hp
  · rw [mem_singleton.1 hp]
    exact h
  · rcases mem_cons.1 hp with rfl | hp
    · exact sanitizedTarget_ne_nil h
    · obtain ⟨k, -, rfl⟩ := List.mem_map.1 hp
      exact join_dir_ne_nil _ _
  · rw [mem_singleton.1 hp]
    exact sanitizedTarget_ne_nil h

theorem finalNames_ne_nil (h : path ≠ []) : ∀ p ∈ finalNames lib mig path, p ≠ [] := by
  intro p hp
  unfold finalNames at hp
  split_ifs at hp
  · obtain ⟨q, hq, hp⟩ := mem_flatMap.1 hp
    rcases mem_cons.1 hp with rfl | hp
    · exact baseNames_ne_nil h p hq
    · obtain ⟨k, -, rfl⟩ := List.mem_map.1 hp
      exact join_dir_ne_nil _ _
  · exact baseNames_ne_nil h p hp

theorem target_ne_nil (hfiles : task.resourceType = .files) : task.target lib mig metadata ≠ [] := by
  unfold Task.target resolveTargetPath
  rw [if_neg (by simp [hfiles])]
  split_ifs
  · exact clean_ne_nil _
  · exact clean_ne_nil _

/-- A path an attempt may write to: the stored one, or one of those a first attempt may choose. -/
def Choosable (lib : GoLib) (mig : Migration) (resolved targetPath p : Text) : Prop :=
  (resolved ≠ [] ∧ p = targetPath) ∨ (resolved = [] ∧ p ∈ finalNames lib mig targetPath)

theorem gives_chooseTarget {resolved targetPath : Text} (hfiles : task.resourceType = .files) :
    Gives (fun c => c.isQuery = true ∨ ∃ p, Choosable lib mig resolved targetPath p ∧
        c = .createParentDirectories .target p)
      (fun o => ∀ p, o = some p → Choosable lib mig resolved targetPath p)
      (chooseTarget lib mig task resolved targetPath).run := by
  let Named (p : Text) : Prop := (resolved ≠ [] ∧ p = targetPath) ∨
    (resolved = [] ∧ p ∈ baseNames lib mig.targetProvider targetPath)
  have hnamed : ∀ p, Named p → Choosable lib mig resolved targetPath p := by
    rintro p (h | ⟨hres, hp⟩)
    · exact .inl h
    · exact .inr ⟨hres, baseNames_subset hp⟩
  have hname : Gives (fun c => c.isQuery = true) Named
      (firstName lib mig task resolved targetPath).run := by
    unfold firstName
    split_ifs with hfirst
    · exact Gives.mono (fun _ => isQuery_of_isSilent) (fun p hp => .inr ⟨hfirst.2.1, hp⟩)
        (gives_avoidCaseCollision hfirst.2.2)
    · refine Gives.pure ?_
      by_cases hres : resolved = []
      · have himmich : mig.targetProvider = .immich := by
          by_contra hne
          exact hfirst ⟨hfiles, hres, hne⟩
        exact .inr ⟨hres, by simp [baseNames, himmich]⟩
      · exact .inl ⟨hres, rfl⟩
  refine Gives.bind (Gives.mono (fun _ h => .inl h) (fun _ h => h) hname) fun p hp => ?_
  refine Within.gives_bind (within_only fun _ => Within.perform (.inr ⟨p, hnamed p hp, rfl⟩))
    fun _ => ?_
  refine Within.gives_bind (within_only fun _ => Within.throw _) fun _ => ?_
  split_ifs with hkeep
  · refine Gives.pure fun q hq => ?_
    cases hq
    exact hnamed p hp
  · have hres : resolved = [] := by
      by_contra hne
      exact hkeep (.inl hne)
    rcases hp with ⟨hne, -⟩ | ⟨-, hp⟩
    · exact absurd hres hne
    · exact Gives.mono (fun _ h => .inl h) (fun o ho q hq => .inr ⟨hres, ho q hq⟩)
        (gives_resolveConflict hfiles hp)

def Job.rest (lib : GoLib) : Job → Text → Work Unit
  | .migration mig task => processPrepared lib mig task
  | .sync job task => fun _ => syncAction lib job task

theorem Job.program_eq (job : Job) : job.program lib = call .prepare >>= job.rest lib := by
  cases job <;> rfl

/-! Calls that leave objects and stored paths alone. -/

def Call.isHarmless : Call → Bool
  | .createDirectory _ _ | .createParentDirectories _ _ | .complete => true
  | c => c.isQuery

theorem isHarmless_of_isQuery (h : c.isQuery = true) : c.isHarmless = true := by
  cases c with
  | createDirectory | createParentDirectories | complete => rfl
  | _ => exact h

theorem harmless_frame {ι : Type} [DecidableEq ι] {i : ι} {w v : World ι} (hc : c.isHarmless = true)
    (h : exec a i c o w = some (r, v)) :
    v.objects = w.objects ∧ ∀ j, (v.rows j).resolved = (w.rows j).resolved := by
  refine ⟨?_, fun j => ?_⟩
  · cases exec_effect h with
    | none | lock | skip | complete => rfl
    | delete | rename | upload | resolved => cases hc
  · rcases exec_resolved h j with h | ⟨-, rfl⟩
    · exact h
    · cases hc

theorem harmless_chooseTarget (hfiles : task.resourceType = .files) :
    Within (fun c => c.isHarmless = true) (chooseTarget lib mig task resolved targetPath) := by
  refine Gives.within (Gives.mono ?_ (fun _ h => h) (gives_chooseTarget hfiles))
  rintro c (hc | ⟨p, -, rfl⟩)
  · exact isHarmless_of_isQuery hc
  · rfl

theorem harmless_of_asks (h : Asks x) : Within (fun c => c.isHarmless = true) x :=
  h.mono fun _ => isHarmless_of_isQuery

end Clumoove.Transfer
