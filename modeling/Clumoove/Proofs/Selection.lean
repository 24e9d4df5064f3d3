import Mathlib.Data.List.TakeWhile
import Clumoove.Lib.Text
import Clumoove.Sanity.RestorePlan

/-! What a selection selects. The browsing query escapes the directory it is asked for; the
preview, the count and the plan put the selected path into a `LIKE` pattern as it is, so a `%`
or `_` in a selected name also matches other names. -/

namespace Clumoove

open Like List

/-- The path is a selected one or lies below it as a path. -/
def under (selected : List Path) (path : Path) : Bool :=
  selected.any fun p => p = [] ∨ path = p ∨ p ++ ['/'] <+: path

/-- Before the first wildcard of a selected path, if it has one, some selected directory ends. -/
def WildcardsGuarded (selected : List Path) : Prop :=
  [] ∈ selected ∨ ∀ p ∈ selected, (∃ c ∈ p, special c = true) →
    ∃ q ∈ selected, q ++ ['/'] <+: p.takeWhile fun c => !special c

/-- `normalJSONBodyLimit`: no request is longer than one mebibyte. -/
def normalJSONBodyLimit : ℕ := 2 ^ 20

theorem normalize_eq_ok : normalizeBackupSnapshotPath p = .ok q ↔
    q = p ∧ '\\' ∉ p ∧ p.head? ≠ some '/' ∧
      ∀ part ∈ p.splitOn '/', part ≠ [] ∧ part ≠ ['.'] ∧ part ≠ ['.', '.'] := by
  unfold normalizeBackupSnapshotPath
  split_ifs with h₁ h₂
  · simp only [contains_eq_mem, decide_eq_true_eq] at h₁
    refine ⟨nofun, fun ⟨_, hb, hs, _⟩ => ?_⟩
    rcases h₁ with h₁ | h₁
    · exact absurd h₁ hb
    · exact absurd h₁ hs
  · refine ⟨nofun, fun ⟨_, _, _, hparts⟩ => ?_⟩
    obtain ⟨part, hmem, hbad⟩ := List.any_eq_true.1 h₂
    have hgood := hparts part hmem
    simp only [decide_eq_true_eq] at hbad
    rcases hbad with hbad | hbad | hbad
    · exact absurd hbad hgood.1
    · exact absurd hbad hgood.2.1
    · exact absurd hbad hgood.2.2
  · simp only [contains_eq_mem, decide_eq_true_eq, not_or] at h₁
    simp only [List.any_eq_true, decide_eq_true_eq, not_exists, not_and, not_or] at h₂
    simp only [Except.ok.injEq]
    exact ⟨fun h => ⟨h.symm, h₁.1, h₁.2, h₂⟩, fun h => h.1.symm⟩

theorem normalizeRestoreSnapshotPath_ok (h : normalizeRestoreSnapshotPath value = some p) :
    (p = [] ∨ normalizeBackupSnapshotPath p = .ok p) ∧ p.length ≤ value.length := by
  have hlen : (if value.head? = some '/' then value.tail else value).length ≤ value.length := by
    split_ifs <;> simp
  unfold normalizeRestoreSnapshotPath at h
  generalize (if value.head? = some '/' then value.tail else value) = clean at h hlen
  dsimp only at h
  split_ifs at h
  · cases h
    exact ⟨.inl rfl, Nat.zero_le _⟩
  · split at h <;> cases h
    obtain ⟨rfl, -⟩ := normalize_eq_ok.1 ‹_›
    exact ⟨.inr ‹_›, hlen⟩

/-- A wildcard of a normalised path may be replaced by any character that is no separator and
no dot, and the path extended, without leaving the normalised paths. -/
theorem normalize_replace (hw : w ≠ '/') (hc : c ≠ '/') (hdot : c ≠ '.')
    (hesc : c ≠ '\\') (h : normalizeBackupSnapshotPath (u ++ w :: v) = .ok (u ++ w :: v)) :
    normalizeBackupSnapshotPath (u ++ c :: v ++ ['/', 'x']) = .ok (u ++ c :: v ++ ['/', 'x']) := by
  obtain ⟨-, hback, hhead, hparts⟩ := normalize_eq_ok.1 h
  refine normalize_eq_ok.2 ⟨rfl, ?_, ?_, ?_⟩
  · simp only [mem_append, mem_cons, not_or] at hback ⊢
    exact ⟨⟨hback.1, hesc.symm, hback.2.2⟩, by decide, by decide, by simp⟩
  · cases u with
    | nil => simpa using hc
    | cons a u => simpa using hhead
  · obtain ⟨before, last, first, after, -, -, hins⟩ := Text.splitOn_insert '/' u v
    rw [hins w hw] at hparts
    have hsplit : (u ++ c :: v ++ ['/', 'x']).splitOn '/'
        = (before ++ (last ++ c :: first) :: after) ++ [['x']] := by
      rw [← hins c hc]
      exact splitOn_append_cons_self _ _
    rw [hsplit]
    intro part hpart
    simp only [mem_append, mem_cons, not_mem_nil, or_false] at hpart
    rcases hpart with (hpart | rfl | hpart) | rfl
    · exact hparts part (by simp [hpart])
    · -- the joined piece keeps the new character
      have hmem : c ∈ last ++ c :: first := by simp
      refine ⟨fun h => ?_, fun h => ?_, fun h => ?_⟩ <;> rw [h] at hmem <;> simp [hdot] at hmem
    · exact hparts part (by simp [hpart])
    · decide

theorem inSelection_of_under (h : ∀ p ∈ selected, p = [] ∨ '\\' ∉ p)
    (hu : under selected path = true) : inSelection selected path = true := by
  simp only [under, inSelection, List.any_eq_true, decide_eq_true_eq] at hu ⊢
  obtain ⟨p, hp, hcase⟩ := hu
  refine ⟨p, hp, ?_⟩
  rcases hcase with hcase | hcase | ⟨t, rfl⟩
  · exact .inl hcase
  · exact .inr (.inl hcase)
  · rcases h p hp with hnil | hesc
    · exact .inl hnil
    · refine .inr (.inr ?_)
      rw [like, tokens_append hesc, append_assoc]
      apply accepts_self
      have hrest : tokens ['/', '%'] = ['/'].map .lit ++ [.any] := rfl
      rw [hrest, accepts_lits]
      exact ⟨t, rfl, accepts_any.2 ⟨t, [], by simp, rfl⟩⟩

/-- With guarded wildcards a pattern match is never more than the selection. -/
theorem under_of_inSelection (hg : WildcardsGuarded selected)
    (hs : inSelection selected path = true) : under selected path = true := by
  simp only [under, inSelection, List.any_eq_true, decide_eq_true_eq] at hs ⊢
  rcases hg with hnil | hg
  · exact ⟨[], hnil, .inl rfl⟩
  obtain ⟨p, hp, hcase⟩ := hs
  rcases hcase with hcase | hcase | hlike
  · exact ⟨p, hp, .inl hcase⟩
  · exact ⟨p, hp, .inr (.inl hcase)⟩
  by_cases hwild : ∃ c ∈ p, special c = true
  · obtain ⟨q, hq, hpre⟩ := hg p hp hwild
    refine ⟨q, hq, .inr (.inr ?_)⟩
    have hplain : ∀ c ∈ p.takeWhile fun c => !special c, special c = false := fun c hc => by
      simpa using mem_takeWhile_imp hc
    have hsplit : p ++ ['/', '%'] = (p.takeWhile fun c => !special c)
        ++ ((p.dropWhile fun c => !special c) ++ ['/', '%']) := by
      rw [← append_assoc, takeWhile_append_dropWhile]
    rw [hsplit] at hlike
    exact hpre.trans (prefix_of_like hplain hlike)
  · refine ⟨p, hp, .inr (.inr ?_)⟩
    have hplain : ∀ c ∈ p ++ ['/'], special c = false := by
      intro c hc
      rcases mem_append.1 hc with hc | hc
      · simpa using fun h => hwild ⟨c, hc, h⟩
      · rw [mem_singleton.1 hc]
        rfl
    refine (like_plain hplain path).1 ?_
    simpa using hlike

/-- An unguarded wildcard matches a normalised path outside the selection. -/
theorem exists_outside (hsel : ∀ p ∈ selected, p = [] ∨ normalizeBackupSnapshotPath p = .ok p)
    (hsize : (selected.map List.length).sum ≤ normalJSONBodyLimit)
    (hg : ¬ WildcardsGuarded selected) :
    ∃ x, normalizeBackupSnapshotPath x = .ok x ∧ inSelection selected x = true ∧
      under selected x = false := by
  simp only [WildcardsGuarded, not_or, not_forall, exists_prop, not_exists, not_and] at hg
  obtain ⟨hnil, p, hp, ⟨a, hap, haspecial⟩, hno⟩ := hg
  -- a character that neither the selection nor the rules of normalisation know
  obtain ⟨c, hc⟩ : ∃ c, c ∉ selected.flatten ++ ['/', '.', '\\'] := by
    apply Text.exists_char_not_mem
    rw [length_append, length_flatten]
    unfold normalJSONBodyLimit at hsize
    simp only [length_cons, length_nil]
    omega
  simp only [mem_append, mem_cons, not_mem_nil, or_false, not_or] at hc
  obtain ⟨hcsel, hcslash, hcdot, hcesc⟩ := hc
  have hfresh : ∀ q ∈ selected, c ∉ q := fun q hq hcq => hcsel (mem_flatten.2 ⟨q, hq, hcq⟩)
  have hnorm : normalizeBackupSnapshotPath p = .ok p := by
    rcases hsel p hp with rfl | h
    · cases hap
    · exact h
  have hesc : '\\' ∉ p := (normalize_eq_ok.1 hnorm).2.1
  -- split the path at its first wildcard
  obtain ⟨w, v, hdrop⟩ : ∃ w v, p.dropWhile (fun c => !special c) = w :: v := by
    refine exists_cons_of_ne_nil fun h => ?_
    have := dropWhile_eq_nil_iff.1 h a hap
    simp [haspecial] at this
  set u := p.takeWhile fun c => !special c with hu
  have hpeq : p = u ++ w :: v := by rw [← hdrop, hu, takeWhile_append_dropWhile]
  have hwspecial : special w = true := by
    have := head_dropWhile_not (p := fun c => !special c) (l := p) (by rw [hdrop]; simp)
    simpa [hdrop] using this
  have hwild : w = '%' ∨ w = '_' := by
    have hwesc : w ≠ '\\' := fun h => hesc (by rw [hpeq, h]; simp)
    simpa [special, hwesc] using hwspecial
  have hwslash : w ≠ '/' := by
    rcases hwild with rfl | rfl <;> decide
  refine ⟨u ++ c :: v ++ ['/', 'x'], ?_, ?_, ?_⟩
  · exact normalize_replace hwslash hcslash hcdot hcesc (hpeq ▸ hnorm)
  · simp only [inSelection, List.any_eq_true, decide_eq_true_eq]
    refine ⟨p, hp, .inr (.inr ?_)⟩
    rw [like, tokens_append hesc, hpeq]
    simp only [map_append, map_cons, append_assoc, cons_append]
    apply accepts_self
    apply accepts_tok_cons (.inr hwild)
    apply accepts_self
    rfl
  · simp only [under, List.any_eq_false, decide_eq_true_eq, not_or]
    intro q hq
    refine ⟨fun h => hnil (h ▸ hq), fun h => hfresh q hq (by rw [← h]; simp), fun hpre => ?_⟩
    have hpre' : u ++ [c] <+: u ++ c :: v ++ ['/', 'x'] := ⟨v ++ ['/', 'x'], by simp⟩
    rcases prefix_or_prefix_of_prefix hpre hpre' with h | h
    · rcases prefix_concat_iff.1 h with h | h
      · have := (append_inj' h rfl).2
        simp only [List.cons.injEq, and_true] at this
        exact hcslash this.symm
      · exact hno q hq h
    · have hmem : c ∈ q ++ ['/'] := h.subset (by simp)
      simp only [mem_append, mem_singleton] at hmem
      rcases hmem with hmem | hmem
      · exact hfresh q hq hmem
      · exact hcslash hmem

def Db.selectedItems (db : Db) (snapshotId : ℕ) (selected : List Path) : List Item :=
  db.items.filter fun i => i.snapshotId = snapshotId ∧ under selected i.relativePath

def Db.normalised (db : Db) : Prop :=
  ∀ i ∈ db.items, normalizeBackupSnapshotPath i.relativePath = .ok i.relativePath

def ListExact (selected : List Path) : Prop :=
  ∀ collate db snapshotId, db.normalised → db.restorable snapshotId = true →
    listRestorePreviewItems collate snapshotId selected db
      = .ok (((db.selectedItems snapshotId selected).map Item.preview).mergeSort
          (previewOrder collate), db)

def CountExact (selected : List Path) : Prop :=
  ∀ db snapshotId, db.normalised → db.restorable snapshotId = true → selected ≠ [] →
    countRestorePreviewSelection snapshotId selected db
      = .ok ((((db.selectedItems snapshotId selected).filter fun i =>
            ¬ i.isDir ∧ i.state = .available).length,
          (((db.selectedItems snapshotId selected).filter fun i =>
            ¬ i.isDir ∧ i.state = .available).map (·.sizeBytes)).sum), db)

def PlanExact (selected : List Path) : Prop :=
  ∀ db job run b db' snapshotId, db.normalised → job.selectedPaths = selected →
    job.snapshotId = some snapshotId → planRestoreRun job run db = .ok (b, db') →
    ∃ planned, db'.restoreItems = db.restoreItems ++ planned ∧ planned.map (·.snapshotRelativePath)
        = (db.selectedItems snapshotId selected).map (·.relativePath)

theorem planItems_paths (runId now : ℕ) (targetRoot : Path) (id : ℕ) (items : List Item) :
    (planItems runId now targetRoot id items).map (·.snapshotRelativePath)
      = items.map (·.relativePath) := by
  induction items generalizing id with
  | nil => rfl
  | cons i items ih =>
    rw [planItems, map_cons, map_cons, ih]
    rfl

theorem linkParents_paths (planned : List RestoreItem) :
    (linkParents planned).map (·.snapshotRelativePath) = planned.map (·.snapshotRelativePath) := by
  unfold linkParents
  rw [List.map_map]
  refine map_congr_left fun child _ => ?_
  simp only [Function.comp]
  split_ifs
  · split <;> rfl
  · rfl

theorem plannedItems_paths (db : Db) (job : RestoreJob) (runId snapshotId : ℕ) :
    (db.plannedItems job runId snapshotId).map (·.snapshotRelativePath)
      = (db.items.filter fun i => i.snapshotId = snapshotId ∧
          inSelection job.selectedPaths i.relativePath).map (·.relativePath) := by
  rw [Db.plannedItems, linkParents_paths, planItems_paths]

def probeItem (id : ℕ) (path : Path) : Item where
  id := id
  snapshotId := 0
  relativePath := path
  isDir := false
  sizeBytes := 0
  mtime := none
  fileSha256 := none
  state := .available
  errorCode := none

def probe (path : Path) : Db where
  job := some {
    selectedPaths := [], targetDir := [], repositoryId := [], repositoryRoot := []
    retentionCount := 1, filesSupported := true }
  snapshots := [{ id := 0, runId := 0, state := .ready, selectedRoots := [] }]
  items := [probeItem 1 path]
  restoreRuns := [{ id := 2, jobId := 3, generation := 1, status := .planning, updatedAt := 0 }]
  nextId := 4

def probeJob (selected : List Path) : RestoreJob where
  id := 3
  snapshotId := some 0
  selectedPaths := selected
  targetRoot := ['/']
  conflictStrategy := .skip
  threads := 1

def probeRun : RestoreRun where
  id := 2
  jobId := 3
  generation := 1
  updatedAt := 0

theorem probe_normalised (h : normalizeBackupSnapshotPath x = .ok x) : (probe x).normalised := by
  intro i hi
  rw [mem_singleton.1 hi]
  exact h

theorem probe_selectedItems (h : under selected x = false) :
    (probe x).selectedItems 0 selected = [] := by
  simp [Db.selectedItems, probe, probeItem, h]

theorem planRestoreRun_probe (selected : List Path) (x : Path) :
    planRestoreRun (probeJob selected) probeRun (probe x)
      = .ok (true, (probe x).withPlan (probeJob selected) probeRun 0) := by
  have hok : (probe x).planRefused (probeJob selected) probeRun 0 = none := by
    refine planRefused_eq_none.2 ⟨rfl, rfl, ?_, ?_, ?_, rfl⟩
    · simp [probe, probeItem, Db.invalidRecipe]
    · simp [probe]
    · simp [probe]
  exact planRestoreRun_eq_ok.2 ⟨0, rfl, hok, rfl, rfl⟩

section Exactness

variable {selected : List Path}
  (hsel : ∀ p ∈ selected, p = [] ∨ normalizeBackupSnapshotPath p = .ok p)

include hsel

theorem inSelection_eq_under (hg : WildcardsGuarded selected) (path : Path) :
    inSelection selected path = under selected path := by
  have hesc : ∀ p ∈ selected, p = [] ∨ '\\' ∉ p := fun p hp =>
    (hsel p hp).imp_right fun h => (normalize_eq_ok.1 h).2.1
  exact Bool.eq_iff_iff.2 ⟨under_of_inSelection hg, inSelection_of_under hesc⟩

variable (hsize : (selected.map List.length).sum ≤ normalJSONBodyLimit)

include hsize

theorem listExact_iff : ListExact selected ↔ WildcardsGuarded selected := by
  refine ⟨fun h => ?_, fun hg => ?_⟩
  · by_contra hg
    obtain ⟨x, hnorm, hin, hout⟩ := exists_outside hsel hsize hg
    have := h (fun _ _ => true) (probe x) 0 (probe_normalised hnorm) rfl
    rw [probe_selectedItems hout] at this
    simp [listRestorePreviewItems, probe, probeItem, hin, Db.restorable, SnapshotState.live] at this
  · intro collate db snapshotId _ hr
    simp only [listRestorePreviewItems, Db.selectedItems, hr, inSelection_eq_under hsel hg, true_and]

theorem countExact_iff : CountExact selected ↔ WildcardsGuarded selected := by
  refine ⟨fun h => ?_, fun hg => ?_⟩
  · by_contra hg
    obtain ⟨x, hnorm, hin, hout⟩ := exists_outside hsel hsize hg
    have hne : selected ≠ [] := fun hnil => by simp [hnil, inSelection] at hin
    have := h (probe x) 0 (probe_normalised hnorm) rfl hne
    rw [probe_selectedItems hout] at this
    simp [countRestorePreviewSelection, probe, probeItem, hne, hin, Db.restorable, SnapshotState.live] at this
  · intro db snapshotId _ hr hne
    have hfilter : (db.items.filter fun i => i.snapshotId = snapshotId ∧
          db.restorable snapshotId ∧ ¬ i.isDir ∧ i.state = .available ∧
          inSelection selected i.relativePath)
        = (db.selectedItems snapshotId selected).filter fun i =>
            ¬ i.isDir ∧ i.state = .available := by
      rw [Db.selectedItems, List.filter_filter]
      refine filter_congr fun i _ => ?_
      rw [inSelection_eq_under hsel hg, hr]
      simp only [decide_eq_decide, ← Bool.decide_and]
      tauto
    simp only [countRestorePreviewSelection, hne, if_false, hfilter]

theorem planExact_iff : PlanExact selected ↔ WildcardsGuarded selected := by
  refine ⟨fun h => ?_, fun hg => ?_⟩
  · by_contra hg
    obtain ⟨x, hnorm, hin, hout⟩ := exists_outside hsel hsize hg
    obtain ⟨planned, hitems, hpaths⟩ := h (probe x) (probeJob selected) probeRun true _ 0
      (probe_normalised hnorm) rfl rfl (planRestoreRun_probe selected x)
    rw [probe_selectedItems hout, map_nil, map_eq_nil_iff] at hpaths
    have hone := congrArg List.length (plannedItems_paths (probe x) (probeJob selected) 2 0)
    have hnone : (probe x).plannedItems (probeJob selected) 2 0 = planned := hitems
    rw [hnone, hpaths] at hone
    simp [probe, probeItem, probeJob, hin] at hone
  · intro db job run b db' snapshotId _ hjob hsnap hok
    obtain ⟨snapshotId', hsnap', -, -, rfl⟩ := planRestoreRun_eq_ok.1 hok
    cases hsnap.symm.trans hsnap'
    refine ⟨_, rfl, ?_⟩
    rw [plannedItems_paths, hjob]
    simp only [inSelection_eq_under hsel hg]
    rfl

end Exactness

/-- For the selections a request can carry, the preview, the count and the plan take exactly the
selected subtrees of every snapshot if and only if every wildcard in a selected name is guarded
by a selected directory above it. -/
theorem selection_exact_iff (selected : List Path)
    (hsel : ∀ p ∈ selected, p = [] ∨ normalizeBackupSnapshotPath p = .ok p)
    (hsize : (selected.map List.length).sum ≤ normalJSONBodyLimit) :
    (ListExact selected ↔ WildcardsGuarded selected) ∧
      (CountExact selected ↔ WildcardsGuarded selected) ∧
      (PlanExact selected ↔ WildcardsGuarded selected) :=
  ⟨listExact_iff hsel hsize, countExact_iff hsel hsize, planExact_iff hsel hsize⟩

theorem selection_exact_docs :
    ListExact [['d', 'o', 'c', 's']] ∧ CountExact [['d', 'o', 'c', 's']] ∧
      PlanExact [['d', 'o', 'c', 's']] := by
  have hguarded : WildcardsGuarded [['d', 'o', 'c', 's']] := by
    refine .inr fun p hp hwild => ?_
    rw [mem_singleton.1 hp] at hwild
    exact absurd (List.any_eq_true.2 hwild) (by decide)
  obtain ⟨hlist, hcount, hplan⟩ := selection_exact_iff [['d', 'o', 'c', 's']]
    (fun p hp => .inr (by rw [mem_singleton.1 hp]; rfl)) (by simp [normalJSONBodyLimit])
  exact ⟨hlist.2 hguarded, hcount.2 hguarded, hplan.2 hguarded⟩

/-- The selection that `normalizeRestoreSnapshotPaths` lets through is in the domain above. Only the root
may have other selected paths below it. -/
theorem normalizeRestoreSnapshotPaths_ok (h : normalizeRestoreSnapshotPaths paths = some selected) :
    (∀ p ∈ selected, p = [] ∨ normalizeBackupSnapshotPath p = .ok p) ∧
      (selected.map List.length).sum ≤ (paths.map List.length).sum ∧
      selected.Nodup ∧ ∀ p ∈ selected, ∀ q ∈ selected, under [p] q = true → p = [] ∨ p = q := by
  have hmapM : ∀ (paths seen : List Path), paths.mapM normalizeRestoreSnapshotPath = some seen →
      (∀ p ∈ seen, p = [] ∨ normalizeBackupSnapshotPath p = .ok p) ∧
        (seen.map List.length).sum ≤ (paths.map List.length).sum := by
    intro paths
    induction paths with
    | nil => intro seen h; cases h; exact ⟨by simp, Nat.le_refl _⟩
    | cons value paths ih =>
      intro seen h
      simp only [mapM_cons, Option.bind_eq_bind, Option.bind_eq_some_iff, Option.pure_def,
        Option.some.injEq] at h
      obtain ⟨p, hp, rest, hrest, rfl⟩ := h
      obtain ⟨hok, hlen⟩ := normalizeRestoreSnapshotPath_ok hp
      obtain ⟨hoks, hlens⟩ := ih rest hrest
      exact ⟨forall_mem_cons.2 ⟨hok, hoks⟩, by simpa using Nat.add_le_add hlen hlens⟩
  unfold normalizeRestoreSnapshotPaths at h
  cases hm : paths.mapM normalizeRestoreSnapshotPath with
  | none => simp only [hm] at h; split_ifs at h
  | some seen =>
    simp only [hm] at h
    split_ifs at h with _ hnodup hnested
    cases h
    obtain ⟨hok, hlen⟩ := hmapM paths seen hm
    have hperm := mergeSort_perm seen fun a b => decide (a ≤ b)
    refine ⟨fun p hp => hok p (hperm.mem_iff.1 hp), ?_, hperm.nodup_iff.2 hnodup, ?_⟩
    · rw [(hperm.map List.length).sum_nat]
      exact hlen
    · intro p hp q hq hunder
      rw [hperm.mem_iff] at hp hq
      simp only [List.any_eq_true, decide_eq_true_eq, isPrefixOf_iff_prefix, not_exists, not_and] at hnested
      simp only [under, any_cons, any_nil, Bool.or_false, decide_eq_true_eq] at hunder
      rcases hunder with hroot | hsame | hbelow
      · exact .inl hroot
      · exact .inr hsame.symm
      · exact .inr (by_contra fun hne => hnested p hp q hq hne hbelow)

/-- The root is let through beside a path that lies below it, which is not above the root. -/
theorem normalizeRestoreSnapshotPaths_root :
    normalizeRestoreSnapshotPaths [['/'], ['/', 'a']] = some [[], ['a']] ∧
      under [[]] ['a'] = true ∧ under [['a']] [] = false := by
  have hmap : [['/'], ['/', 'a']].mapM normalizeRestoreSnapshotPath = some [[], ['a']] := by decide
  have hsorted : [[], ['a']].mergeSort (fun a b : Path => decide (a ≤ b)) = [[], ['a']] :=
    mergeSort_of_pairwise (by decide)
  have h : normalizeRestoreSnapshotPaths [['/'], ['/', 'a']] = some [[], ['a']] := by
    simp [normalizeRestoreSnapshotPaths, hmap, hsorted]
  refine ⟨h, rfl, Bool.eq_false_iff.2 fun hunder => ?_⟩
  have hroot := (normalizeRestoreSnapshotPaths_ok h).2.2.2 ['a'] (by simp) [] (by simp) hunder
  simp at hroot

def siblings : Db :=
  { probe [] with
    items := [probeItem 1 ['a', '_', 'b', '/', 'x'], probeItem 5 ['a', 'c', 'b', '/', 'y']] }

/-- Selecting `a_b` also previews, counts and restores a file of `acb`. -/
theorem selection_takes_sibling :
    normalizeRestoreSnapshotPaths [['a', '_', 'b']] = some [['a', '_', 'b']] ∧
      siblings.normalised ∧ under [['a', '_', 'b']] ['a', 'c', 'b', '/', 'y'] = false ∧
      (∃ items db, listRestorePreviewItems (fun _ _ => true) 0 [['a', '_', 'b']] siblings
        = .ok (items, db) ∧ (probeItem 5 ['a', 'c', 'b', '/', 'y']).preview ∈ items) ∧
      countRestorePreviewSelection 0 [['a', '_', 'b']] siblings = .ok ((2, 0), siblings) ∧
      ∃ db, planRestoreRun (probeJob [['a', '_', 'b']]) probeRun siblings = .ok (true, db) ∧
        db.restoreItems.map (·.snapshotRelativePath)
          = [['a', '_', 'b', '/', 'x'], ['a', 'c', 'b', '/', 'y']] := by
  refine ⟨?_, ?_, by decide, ⟨_, _, rfl, ?_⟩, rfl, _, rfl, rfl⟩
  · have hmap : [['a', '_', 'b']].mapM normalizeRestoreSnapshotPath = some [['a', '_', 'b']] := by
      decide
    simp [normalizeRestoreSnapshotPaths, hmap]
  · intro i hi
    simp only [siblings, mem_cons, not_mem_nil, or_false] at hi
    rcases hi with rfl | rfl <;> rfl
  · rw [mem_mergeSort]
    decide

/-- Browsing shows exactly the items one level below the directory, whatever characters its name
has. -/
theorem mem_listBackupSnapshotChildren
    (h : listBackupSnapshotChildren collate snapshotId directory db = .ok (children, db'))
    (name : Path) (item : RestorePreviewItem) : (name, item) ∈ children ↔ name ≠ [] ∧ '/' ∉ name ∧
      (∃ s ∈ db.snapshots, s.id = snapshotId ∧ (s.state.live = true ∨ s.state = .damaged)) ∧
      ∃ i ∈ db.items, i.snapshotId = snapshotId ∧ item = i.preview ∧
        i.relativePath = (if directory = [] then [] else directory ++ ['/']) ++ name := by
  unfold listBackupSnapshotChildren at h
  split at h
  · cases h
  simp only [Except.ok.injEq, Prod.mk.injEq] at h
  generalize (if directory = [] then [] else directory ++ ['/']) = dir at h ⊢
  rw [← h.1]
  simp only [mem_filterMap, mem_mergeSort, mem_filter, decide_eq_true_eq,
    List.any_eq_true, like_escape, contains_eq_mem, ite_eq_iff, reduceCtorEq, and_false,
    false_or, Option.some.injEq, Prod.mk.injEq, not_or]
  refine ⟨?_, ?_⟩
  · intro ⟨i, ⟨hi, hsnap, hvis, t, ht⟩, ⟨hne, hslash⟩, hname, hitem⟩
    rw [← ht, drop_left] at hname hne hslash
    rw [hname] at hne hslash ht
    exact ⟨hne, hslash, hvis, i, hi, hsnap, hitem.symm, ht.symm⟩
  · intro ⟨hne, hslash, hvis, i, hi, hsnap, hitem, hpath⟩
    refine ⟨i, ⟨hi, hsnap, hvis, name, hpath.symm⟩, ?_, ?_, hitem.symm⟩
    · rw [hpath, drop_left]
      exact ⟨hne, hslash⟩
    · rw [hpath, drop_left]

theorem listBackupSnapshotChildren_siblings : ∃ children db,
    listBackupSnapshotChildren (fun _ _ => true) 0 ['a', '_', 'b'] siblings = .ok (children, db) ∧
      (['x'], (probeItem 1 ['a', '_', 'b', '/', 'x']).preview) ∈ children := by
  have hlist : listBackupSnapshotChildren (fun _ _ => true) 0 ['a', '_', 'b'] siblings = .ok (_, _) := rfl
  refine ⟨_, _, hlist, (mem_listBackupSnapshotChildren hlist _ _).2 ⟨by decide, by decide, ?_, ?_⟩⟩
  · exact ⟨_, mem_cons_self, rfl, .inl rfl⟩
  · exact ⟨_, mem_cons_self, rfl, rfl, rfl⟩

end Clumoove
