import Clumoove.Sanity.Sync.Scope
import Clumoove.Spec.Sync.Assumptions

/-! What the tasks of a pass do to the two providers, seen through relative paths. -/

namespace Clumoove.Sync

open PathTree List

variable {t : TaskToCreate} {P : Execution → Prop} {w : Written} {clock : String} {p : Path}
  {s : Side}

section Perform

variable {job : Job} {sanitize : Sanitizer} {t : TaskToCreate} {w : Written} {clock : String}
variable {trees trees' : Sided Tree}

theorem prefix_dropLast_iff (hp : p ≠ []) : q <+: p.dropLast ↔ q <+: p ∧ q ≠ p := by
  constructor
  · intro h
    refine ⟨h.trans (List.dropLast_prefix p), ?_⟩
    rintro rfl
    have hlen := h.length_le
    have hpos := length_pos_iff.2 hp
    rw [length_dropLast] at hlen
    omega
  · rintro ⟨⟨r, rfl⟩, hne⟩
    have hr : r ≠ [] := by
      rintro rfl
      simp at hne
    rw [dropLast_append_of_ne_nil hr]
    exact prefix_append q _

theorem perform_other (h : perform job sanitize t w clock trees = some trees')
    (hs : s ≠ t.dest) : trees'.on s = trees.on s := by
  obtain ⟨tree, -, rfl⟩ := Option.map_eq_some_iff.1 h
  rw [Sided.on_update, if_neg hs]

theorem fileAt_update : fileAt job (trees.update s tree) s' p
    = if s' = s then tree.file (absPath (job.base s) p) else fileAt job trees s' p := by
  unfold fileAt
  rw [Sided.on_update]
  split_ifs with h
  · rw [h]
  · rfl

theorem dirAt_update : dirAt job (trees.update s tree) s' p
    = if s' = s then tree.isDir (absPath (job.base s) p) else dirAt job trees s' p := by
  unfold dirAt
  rw [Sided.on_update]
  split_ifs with h
  · rw [h]
  · rfl

theorem isDir_remove_file {tree tree' : Tree} (h : tree.remove p = some tree') (hf : (tree.file p).isSome)
    (q : Path) : tree'.isDir q = tree.isDir q := by
  rw [Bool.eq_iff_iff, Tree.remove_isDir h]
  refine ⟨And.left, fun hd => ⟨hd, fun hq => ?_⟩⟩
  rw [hq, Tree.isDir, Tree.file_isSome_not_dir hf] at hd
  cases hd

def TaskToCreate.isTransfer (t : TaskToCreate) : Bool :=
  t.action = .upload ∨ t.action = .download

theorem withSuffix_not_above (path : Path) (suffix : String) :
    ¬ withSuffix path suffix <+: path.dropLast := by
  intro h
  have hlen := h.length_le
  rw [withSuffix, length_append, length_singleton] at hlen
  omega

theorem withSuffix_injective (path : Path) : Function.Injective (withSuffix path) := by
  intro a b h
  have hname := List.append_cancel_left h
  rw [cons.injEq, ← String.toList_inj, String.toList_append, String.toList_append] at hname
  exact String.toList_inj.1 (List.append_cancel_left hname.1)

theorem withSuffix_ne (hne : path ≠ []) (hs : suffix ≠ "") : path ≠ withSuffix path suffix := by
  have hself : withSuffix path "" = path := by
    obtain ⟨p, x, rfl⟩ := eq_nil_or_concat path |>.resolve_left hne
    simp [withSuffix]
  exact fun h => hs (withSuffix_injective path (hself.trans h)).symm

theorem uploadPath_ne (hne : path ≠ []) : path ≠ uploadPath path :=
  withSuffix_ne hne (by decide)

theorem uploadPath_ne_backupPath (path : Path) (stamp : String) :
    uploadPath path ≠ backupPath path stamp := by
  intro h
  have := congrArg String.toList (withSuffix_injective path h)
  simp at this

section Promotion

variable {provider : Transfer.Provider} {path : Path} {stamp : String} {tree tree' : Tree}

theorem promoteOverwrite_ne_nil (h : promoteOverwrite provider path stamp tree = some tree') :
    path ≠ [] := by
  obtain ⟨f, hf, hrest⟩ := Option.bind_eq_some_iff.1 h
  dsimp only at hrest
  split at hrest
  · cases hrest
  · exact (Tree.put_eq_some hrest).1.1

/-- A promotion puts the upload in its place, if there is no directory and no older backup. -/
theorem promoteOverwrite_get (h : promoteOverwrite provider path stamp tree = some tree')
    (hbackup : tree.get (backupPath path stamp) = none) (hdir : tree.isDir path = false)
    (hf : tree.get (uploadPath path) = some (.file f)) (q : Path) :
    tree'.get q = if q = path then some (.file f) else if q = uploadPath path then none else tree.get q := by
  have hne := promoteOverwrite_ne_nil h
  unfold promoteOverwrite at h
  rw [Tree.file_eq_some.2 hf, Option.bind_some, if_neg fun hc => by simp [hdir] at hc] at h
  -- whether or not something was at the path, it is free then
  have hfree : ∀ q, (if (tree.get path).isSome then (tree.prune (backupPath path stamp)).prune path
      else tree).get q = if q = path then none else tree.get q := by
    intro q
    have hkept := Tree.get_prune_of_none hbackup
    split_ifs with hsome hq hq
    · rw [Tree.get_prune (by rwa [Tree.isDir_congr (hkept path)]), if_pos hq]
    · rw [Tree.get_prune (by rwa [Tree.isDir_congr (hkept path)]), if_neg hq, hkept]
    · simpa [hq] using hsome
    · rfl
  dsimp only at h
  generalize (if (tree.get path).isSome then (tree.prune (backupPath path stamp)).prune path else tree)
    = preserved at hfree h
  have hupload : preserved.isDir (uploadPath path) = false := by
    have hget := hfree (uploadPath path)
    rw [if_neg (uploadPath_ne hne).symm, hf] at hget
    simp [Tree.isDir, Tree.dir, hget]
  rw [(Tree.put_eq_some h).2]
  split_ifs with hq hu
  · rfl
  · rw [Tree.get_prune hupload, if_pos hu]
  · rw [Tree.get_prune hupload, if_neg hu, hfree, if_neg hq]

theorem transfer_eq_some {src dst : Tree} (h : transfer provider src dst srcPath path w stamp = some tree)
    (hfree : provider.supportsAtomicRename = true → dst.get (uploadPath path) = none ∧
      dst.get (backupPath path stamp) = none ∧ dst.isDir path = false) :
    ∃ f dst₁, src.file srcPath = some f ∧ dst.mkdirs "" path.dropLast = some dst₁ ∧ path ≠ [] ∧
      dst₁.isDir path = false ∧
      ∀ q, tree.get q = if q = path then some (.file (w.file f.content)) else dst₁.get q := by
  obtain ⟨f, hf, hrest⟩ := Option.bind_eq_some_iff.1 h
  obtain ⟨dst₁, hmk, hrest⟩ := Option.bind_eq_some_iff.1 hrest
  refine ⟨f, dst₁, hf, hmk, ?_⟩
  split_ifs at hrest with hatomic
  · obtain ⟨hupload, hbackup, hdir⟩ := hfree hatomic
    obtain ⟨dst₂, hput, hpromote⟩ := Option.bind_eq_some_iff.1 hrest
    have hne := promoteOverwrite_ne_nil hpromote
    -- the directories above have none of the names
    have hmade : ∀ q, ¬ q <+: path.dropLast → dst₁.get q = dst.get q := by
      intro q hq
      rw [(Tree.mkdirs_eq_some hmk).2, if_neg fun hc => hq hc.1]
    have hput := (Tree.put_eq_some hput).2
    have hpath : dst₁.get path = dst.get path := hmade path fun hp => by
      exact ((prefix_dropLast_iff hne).1 hp).2 rfl
    have hdir₁ : dst₁.isDir path = false := by rwa [Tree.isDir_congr hpath]
    refine ⟨hne, hdir₁, fun q => ?_⟩
    rw [promoteOverwrite_get hpromote, hput]
    · split_ifs with hq hu
      · rfl
      · rw [hu, hmade (uploadPath path) (withSuffix_not_above path _), hupload]
      · rfl
    · rw [hput, if_neg (uploadPath_ne_backupPath path stamp).symm,
        hmade (backupPath path stamp) (withSuffix_not_above path _), hbackup]
    · rwa [Tree.isDir_congr]
      rw [hput, if_neg (uploadPath_ne hne)]
    · rw [hput, if_pos rfl]
  · obtain ⟨⟨hne, -, hdir⟩, hget⟩ := Tree.put_eq_some hrest
    exact ⟨hne, hdir, hget⟩

end Promotion

/-- A task that was done, unhindered. -/
structure Done (job : Job) (sanitize : Sanitizer) (t : TaskToCreate) (w : Written) (clock : String)
    (trees trees' : Sided Tree) : Prop where
  performed : perform job sanitize t w clock trees = some trees'
  free : Unhindered job trees t clock
  keeps : (job.providers.on t.dest).createsDirectories = true

structure Transferred (job : Job) (s : Side) (p : Path) (w : Written) (trees trees' : Sided Tree) :
    Prop where
  copies : ∃ f, fileAt job trees s.other p = some f ∧
    fileAt job trees' s p = some (w.file f.content)
  file : ∀ s' q, ¬ (s' = s ∧ q = p) → fileAt job trees' s' q = fileAt job trees s' q
  dir : ∀ s' q, dirAt job trees' s' q = true ↔
    dirAt job trees s' q = true ∨ (s' = s ∧ q <+: p ∧ q ≠ p)

theorem perform_transfer (ha : t.action = .upload ∨ t.action = .download)
    (h : Done job sanitize t w clock trees trees') :
    Transferred job t.dest t.filePath w trees trees' := by
  have htransfer : ∃ tree, transfer (job.providers.on t.dest) (trees.on t.dest.other) (trees.on t.dest)
      (absPath (job.base t.dest.other) t.filePath) (absPath (job.base t.dest) t.filePath) w clock
      = some tree ∧ trees' = trees.update t.dest tree := by
    obtain ⟨tree, htree, rfl⟩ := Option.map_eq_some_iff.1 h.performed
    refine ⟨tree, ?_, rfl⟩
    rcases ha with ha | ha <;> simpa only [ha] using htree
  obtain ⟨tree, htree, rfl⟩ := htransfer
  obtain ⟨f, tree₁, hf, hmk, hne, hdir, hput⟩ := transfer_eq_some htree (h.free ha)
  refine ⟨⟨f, hf, ?_⟩, fun s q hq => ?_, fun s q => ?_⟩
  · rw [fileAt_update, if_pos rfl, Tree.put_file hput, if_pos rfl]
  · rw [fileAt_update]
    split_ifs with hs
    · subst hs
      rw [Tree.put_file hput, if_neg fun hqp => hq ⟨rfl, absPath_inj.1 hqp⟩, Tree.mkdirs_file hmk]
      rfl
    · rfl
  · rw [dirAt_update]
    split_ifs with hs
    · subst hs
      rw [Tree.put_isDir hdir hput, Tree.mkdirs_isDir hmk, prefix_dropLast_iff hne, absPath_prefix, ne_eq,
        absPath_inj]
      simp [dirAt]
    · simp [hs]

theorem perform_delete (ha : t.action = .delete)
    (h : Done job sanitize t w clock trees trees') : (∀ s q, fileAt job trees' s q
      = if s = t.dest ∧ q = t.filePath then none else fileAt job trees s q) ∧
    ∀ s q, dirAt job trees' s q = dirAt job trees s q := by
  obtain ⟨tree, htree, rfl⟩ := Option.map_eq_some_iff.1 h.performed
  simp only [ha] at htree
  split_ifs at htree with hfile
  constructor
  · intro s q
    rw [fileAt_update]
    by_cases hs : s = t.dest
    · subst hs
      rw [if_pos rfl, Tree.remove_file_eq htree]
      simp only [absPath_inj, true_and]
      rfl
    · simp [hs]
  · intro s q
    rw [dirAt_update]
    split_ifs with hs
    · rw [isDir_remove_file htree hfile, hs]
      rfl
    · rfl

theorem perform_mkdir (ha : t.action = .mkdir)
    (h : Done job sanitize t w clock trees trees') :
    (∀ s q, fileAt job trees' s q = fileAt job trees s q) ∧
    ∀ s q, dirAt job trees' s q = true ↔ dirAt job trees s q = true ∨
      (s = t.dest ∧ absPath (job.base s) q <+:
        mkdirPath sanitize t.dest (absPath (job.base t.dest) t.filePath)) := by
  obtain ⟨tree, htree, rfl⟩ := Option.map_eq_some_iff.1 h.performed
  simp only [ha, h.keeps, if_true] at htree
  constructor
  · intro s q
    rw [fileAt_update]
    split_ifs with hs
    · subst hs
      rw [Tree.mkdirs_file htree]
      rfl
    · rfl
  · intro s q
    rw [dirAt_update]
    split_ifs with hs
    · subst hs
      rw [Tree.mkdirs_isDir htree]
      simp [dirAt]
    · simp [hs]

def copyPath (job : Job) (p : Path) (clock : String) : Path :=
  (absPath (job.base .target) p).dropLast ++
    [conflictName ((absPath (job.base .target) p).getLast?.getD "") clock]

/-- A completed conflict copy: the file has moved to a path where nothing was. -/
structure Copied (job : Job) (p copy : Path) (trees trees' : Sided Tree) : Prop where
  source : ∀ q, fileAt job trees' .source q = fileAt job trees .source q
  target : ∀ q, absPath (job.base .target) q ≠ copy →
    fileAt job trees' .target q = if q = p then none else fileAt job trees .target q
  free : ∀ q, absPath (job.base .target) q = copy → fileAt job trees .target q = none
  dir : ∀ s q, dirAt job trees' s q = dirAt job trees s q

theorem perform_conflictCopy (ha : t.action = .conflictCopy)
    (h : Done job sanitize t w clock trees trees') :
    Copied job t.filePath (copyPath job t.filePath clock) trees trees' := by
  have hdest : t.dest = .target := by simp [TaskToCreate.dest, ha]
  obtain ⟨tree, htree, rfl⟩ := Option.map_eq_some_iff.1 h.performed
  simp only [ha, hdest] at htree ⊢
  obtain ⟨f, hf, hrest⟩ := Option.bind_eq_some_iff.1 htree
  dsimp only at hrest
  split_ifs at hrest with hfree
  obtain ⟨tree₁, hrem, hput⟩ := Option.bind_eq_some_iff.1 hrest
  refine ⟨fun q => by rw [fileAt_update, if_neg (by simp)], fun q hq => ?_, fun q hq => ?_, fun s q => ?_⟩
  · rw [copyPath] at hq
    rw [fileAt_update, if_pos rfl, Tree.put_file (Tree.put_eq_some hput).2, if_neg hq, Tree.remove_file_eq hrem]
    simp only [absPath_inj]
    rfl
  · have hnone : (trees.on .target).get (copyPath job t.filePath clock) = none := by
      simpa [copyPath] using hfree
    simp only [fileAt, hq, Tree.file, hnone]
  · rw [dirAt_update]
    split_ifs with hs
    · rw [Tree.put_isDir (Tree.put_eq_some hput).1.2.2 (Tree.put_eq_some hput).2,
        isDir_remove_file hrem (by rw [hf]; rfl), hs]
      rfl
    · rfl

end Perform

/-! A whole run of tasks. -/

section Run

variable {job : Job} {sanitize : Sanitizer} {trees : Sided Tree}
variable {runs : List (TaskToCreate × Outcome)} {s : Side} {p : Path} {f : File}

theorem runTask_done (job : Job) (sanitize : Sanitizer) (x : Execution) (run : TaskToCreate × Outcome) :
    ∃ b, (runTask job sanitize x run).done = x.done ++ [(run.1, b)] := by
  unfold runTask
  dsimp only
  repeat' split
  all_goals exact ⟨_, rfl⟩

/-- A step of an undisturbed run: the task fails without a trace, or is done. -/
theorem runTask_cases (hu : Undisturbed job sanitize x (run :: runs)) :
    runTask job sanitize x run = { x with done := x.done ++ [(run.1, false)] } ∨
      ∃ w clock trees', run.2 = .completes w clock ∧
        (run.1.prerequisite = true → x.completed (conflictCopyTask run.1.filePath) = true) ∧
        Done job sanitize run.1 w clock x.trees trees' ∧
        runTask job sanitize x run = { trees := trees', done := x.done ++ [(run.1, true)] } := by
  have hsmooth := hu.smooth.1
  unfold runTask
  dsimp only
  split_ifs with hpre
  · exact .inl rfl
  · split
    · next leaves hrun =>
      rw [hrun] at hsmooth
      rw [Option.isNone_iff_eq_none.1 hsmooth]
      exact .inl rfl
    · next w clock hrun =>
      rw [hrun] at hsmooth
      split
      · next trees' hperf =>
        refine .inr ⟨w, clock, trees', hrun, fun h => ?_, ⟨hperf, hsmooth, hu.keeps _⟩, rfl⟩
        simpa [h] using hpre
      · exact .inl rfl

theorem Undisturbed.tail (hu : Undisturbed job sanitize x (run :: runs)) :
    Undisturbed job sanitize (runTask job sanitize x run) runs :=
  ⟨hu.keeps, hu.smooth.2⟩

theorem undisturbed_append : Undisturbed job sanitize x (l₁ ++ l₂) ↔ Undisturbed job sanitize x l₁ ∧
    Undisturbed job sanitize (l₁.foldl (runTask job sanitize) x) l₂ := by
  induction l₁ generalizing x with
  | nil => exact ⟨fun h => ⟨⟨h.keeps, trivial⟩, h⟩, And.right⟩
  | cons run l₁ ih =>
    constructor
    · intro h
      obtain ⟨h₁, h₂⟩ := ih.1 h.tail
      exact ⟨⟨h.keeps, h.smooth.1, h₁.smooth⟩, h₂⟩
    · rintro ⟨h₁, h₂⟩
      exact ⟨h₁.keeps, h₁.smooth.1, (ih.2 ⟨h₁.tail, h₂⟩).smooth⟩

theorem runTasks_induction (hu : Undisturbed job sanitize x₀ runs) (h₀ : P x₀)
    (hfail : ∀ x run, run ∈ runs → P x → P { x with done := x.done ++ [(run.1, false)] })
    (hdone : ∀ x run w clock trees', run ∈ runs → P x → run.2 = .completes w clock →
      Done job sanitize run.1 w clock x.trees trees' →
      P { trees := trees', done := x.done ++ [(run.1, true)] }) :
    P (runs.foldl (runTask job sanitize) x₀) := by
  induction runs generalizing x₀ with
  | nil => exact h₀
  | cons run runs ih =>
    refine ih hu.tail ?_ (fun x run' h => hfail x run' (mem_cons_of_mem _ h))
      fun x run' w clock trees' h => hdone x run' w clock trees' (mem_cons_of_mem _ h)
    rcases runTask_cases hu with h | ⟨w, clock, trees', hout, -, hperf, h⟩
    · rw [h]
      exact hfail x₀ run mem_cons_self h₀
    · rw [h]
      exact hdone x₀ run w clock trees' mem_cons_self h₀ hout hperf

theorem foldl_runTask_done (job : Job) (sanitize : Sanitizer)
    (runs : List (TaskToCreate × Outcome)) (x : Execution) :
    ∃ l, (runs.foldl (runTask job sanitize) x).done = x.done ++ l ∧
      l.map Prod.fst = runs.map Prod.fst := by
  induction runs generalizing x with
  | nil => exact ⟨[], by simp, rfl⟩
  | cons run runs ih =>
    obtain ⟨l, hl, hfst⟩ := ih (runTask job sanitize x run)
    obtain ⟨b, hb⟩ := runTask_done job sanitize x run
    refine ⟨(run.1, b) :: l, ?_, by simp [hfst]⟩
    rw [foldl_cons, hl, hb]
    simp

theorem runTasks_done :
    (runTasks job sanitize trees runs).done.map Prod.fst = runs.map Prod.fst := by
  obtain ⟨l, hl, hfst⟩ := foldl_runTask_done job sanitize runs { trees := trees }
  rw [runTasks, hl, nil_append, hfst]

theorem mem_done_of_mem (h : run ∈ runs) :
    ∃ b, (run.1, b) ∈ (runTasks job sanitize trees runs).done := by
  have hmem : run.1 ∈ (runTasks job sanitize trees runs).done.map Prod.fst := by
    rw [runTasks_done]
    exact List.mem_map_of_mem h
  obtain ⟨⟨t, b⟩, hd, rfl⟩ := List.mem_map.1 hmem
  exact ⟨b, hd⟩

theorem mem_runs_of_mem_done
    (h : (t, b) ∈ (runTasks job sanitize trees runs).done) : ∃ o, (t, o) ∈ runs := by
  have hmem : t ∈ (runTasks job sanitize trees runs).done.map Prod.fst := List.mem_map_of_mem h
  rw [runTasks_done] at hmem
  obtain ⟨⟨t, o⟩, hr, rfl⟩ := List.mem_map.1 hmem
  exact ⟨o, hr⟩

def TaskToCreate.Touches (t : TaskToCreate) (s : Side) (p : Path) : Prop :=
  t.action ≠ .mkdir ∧ t.dest = s ∧ t.filePath = p

def Lands (job : Job) (run : TaskToCreate × Outcome) (p : Path) : Prop :=
  run.1.action = .conflictCopy ∧ ∃ w clock, run.2 = .completes w clock ∧
    absPath (job.base .target) p = copyPath job run.1.filePath clock

def Clear (job : Job) (runs : List (TaskToCreate × Outcome)) (s : Side) (p : Path) : Prop :=
  s = .source ∨ ∀ run ∈ runs, ¬ Lands job run p

theorem Clear.run (hc : Clear job runs s p) {run : TaskToCreate × Outcome} (hrun : run ∈ runs)
    (hout : run.2 = .completes w clock)
    (ha : run.1.action = .conflictCopy) :
    s = .source ∨ absPath (job.base .target) p ≠ copyPath job run.1.filePath clock :=
  hc.imp_right fun hc hp => hc run hrun ⟨ha, w, clock, hout, hp⟩

/-- A task leaves the file at a path alone that it does not work on; only a conflict copy creates
a file somewhere else. -/
theorem perform_file (h : Done job sanitize t w clock trees trees') (ht : ¬ t.Touches s p)
    (hc : t.action = .conflictCopy → fileAt job trees s p ≠ none ∨ s = .source ∨
      absPath (job.base .target) p ≠ copyPath job t.filePath clock) :
    fileAt job trees' s p = fileAt job trees s p := by
  cases ha : t.action with
  | upload | download =>
    refine (perform_transfer (by simp [ha]) h).file s p fun ⟨hs, hp⟩ => ht ⟨?_, hs.symm, hp.symm⟩
    simp [ha]
  | delete =>
    rw [(perform_delete ha h).1, if_neg fun ⟨hs, hp⟩ => ht ⟨by simp [ha], hs.symm, hp.symm⟩]
  | mkdir => exact (perform_mkdir ha h).1 s p
  | conflictCopy =>
    have hdest : t.dest = .target := by simp [TaskToCreate.dest, ha]
    have hcopy := perform_conflictCopy ha h
    cases s with
    | source => exact hcopy.source p
    | target =>
      have hpath : absPath (job.base .target) p ≠ copyPath job t.filePath clock := by
        rcases hc ha with hf | hs | hpath
        · exact fun hp => hf (hcopy.free p hp)
        · cases hs
        · exact hpath
      rw [hcopy.target p hpath, if_neg fun hp => ht ⟨by simp [ha], hdest, hp.symm⟩]

theorem runTasks_present (hu : Undisturbed job sanitize x runs) (hf : fileAt job x.trees s p = some f)
    (h : ∀ run ∈ runs, ¬ run.1.Touches s p) :
    fileAt job (runs.foldl (runTask job sanitize) x).trees s p = some f := by
  refine runTasks_induction hu (P := fun x => fileAt job x.trees s p = some f) hf
    (fun x run _ hx => hx) fun x run w clock trees' hrun hx _ hperf => ?_
  rw [perform_file hperf (h run hrun) fun _ => .inl (by simp [hx]), hx]

theorem runTasks_untouched (hu : Undisturbed job sanitize { trees := trees } runs)
    (hc : Clear job runs s p) (h : ∀ run ∈ runs, ¬ run.1.Touches s p) :
    fileAt job (runTasks job sanitize trees runs).trees s p = fileAt job trees s p := by
  refine runTasks_induction hu (P := fun x => fileAt job x.trees s p = fileAt job trees s p) rfl
    (fun x run _ hx => hx) fun x run w clock trees' hrun hx hout hperf => ?_
  rw [perform_file hperf (h run hrun) fun ha => .inr (hc.run hrun hout ha), hx]

theorem runTasks_before (hu : Undisturbed job sanitize { trees := trees } runs)
    (hc : Clear job runs s p)
    (h : ∀ t, (t, true) ∈ (runTasks job sanitize trees runs).done → t.isTransfer = true →
      ¬ (t.dest = s ∧ t.filePath = p))
    (hf : fileAt job (runTasks job sanitize trees runs).trees s p = some f) :
    fileAt job trees s p = some f := by
  refine runTasks_induction hu (P := fun x => (∀ t, (t, true) ∈ x.done → t.isTransfer = true →
    ¬ (t.dest = s ∧ t.filePath = p)) → fileAt job x.trees s p = some f →
    fileAt job trees s p = some f) (fun _ h => h) (fun x run _ ih h hf => ?_)
    (fun x run w clock trees' hrun ih hout hperf h hf => ?_) h hf
  · exact ih (fun t ht => h t (mem_append_left _ ht)) hf
  · have ih := ih fun t ht => h t (mem_append_left _ ht)
    by_cases htouch : run.1.Touches s p
    · -- the task of this path takes the file away
      have hlast := h run.1 (mem_append_right _ mem_cons_self)
      obtain ⟨hmk, rfl, rfl⟩ := htouch
      cases ha : run.1.action with
      | upload | download => exact absurd ⟨rfl, rfl⟩ (hlast (by simp [TaskToCreate.isTransfer, ha]))
      | delete =>
        rw [(perform_delete ha hperf).1, if_pos ⟨rfl, rfl⟩] at hf
        cases hf
      | mkdir => exact absurd ha hmk
      | conflictCopy =>
        have hdest : run.1.dest = .target := by simp [TaskToCreate.dest, ha]
        rw [hdest] at hf hc
        rw [(perform_conflictCopy ha hperf).target _
          ((hc.run hrun hout ha).resolve_left nofun), if_pos rfl] at hf
        cases hf
    · rw [perform_file hperf htouch fun ha => .inr (hc.run hrun hout ha)] at hf
      exact ih hf

section

variable (hu : Undisturbed job sanitize { trees := trees } runs)
variable (hnodup : (runs.map Prod.fst).Nodup) (hdone : (t, true) ∈ (runTasks job sanitize trees runs).done)
include hu hnodup hdone

theorem runTasks_split :
    ∃ l₁ w clock l₂ trees', runs = l₁ ++ (t, .completes w clock) :: l₂ ∧
      Done job sanitize t w clock (runTasks job sanitize trees l₁).trees trees' ∧
      (t.prerequisite = true →
        (conflictCopyTask t.filePath, true) ∈ (runTasks job sanitize trees l₁).done) ∧
      Undisturbed job sanitize
        { trees := trees', done := (runTasks job sanitize trees l₁).done ++ [(t, true)] } l₂ ∧
      runTasks job sanitize trees runs = l₂.foldl (runTask job sanitize)
        { trees := trees', done := (runTasks job sanitize trees l₁).done ++ [(t, true)] } := by
  obtain ⟨o, ho⟩ := mem_runs_of_mem_done hdone
  obtain ⟨l₁, l₂, rfl⟩ := append_of_mem ho
  rw [map_append, map_cons, nodup_append, nodup_cons] at hnodup
  obtain ⟨-, ⟨hl₂, -⟩, hl₁⟩ := hnodup
  have hfold : runTasks job sanitize trees (l₁ ++ (t, o) :: l₂) = l₂.foldl (runTask job sanitize)
      (runTask job sanitize (runTasks job sanitize trees l₁) (t, o)) := by
    rw [runTasks, foldl_append, foldl_cons]
    rfl
  have hdone₁ : (t, true) ∉ (runTasks job sanitize trees l₁).done := by
    intro h
    have := List.mem_map_of_mem (f := Prod.fst) h
    rw [runTasks_done] at this
    exact hl₁ t this t mem_cons_self rfl
  -- the entry of the task is the one its own step makes
  rw [hfold] at hdone ⊢
  have hstep : (t, true) ∈ (runTask job sanitize (runTasks job sanitize trees l₁) (t, o)).done := by
    obtain ⟨l, hl, hfst⟩ := foldl_runTask_done job sanitize l₂
      (runTask job sanitize (runTasks job sanitize trees l₁) (t, o))
    rw [hl] at hdone
    refine (mem_append.1 hdone).resolve_right fun h => hl₂ ?_
    rw [← hfst]
    exact List.mem_map_of_mem (f := Prod.fst) h
  have hu₂ : Undisturbed job sanitize (runTasks job sanitize trees l₁) ((t, o) :: l₂) :=
    (undisturbed_append.1 hu).2
  rcases runTask_cases hu₂ with
    h | ⟨w, clock, trees', hout, hpre, hperf, h⟩
  · rw [h] at hstep
    simp [hdone₁] at hstep
  · cases hout
    refine ⟨l₁, w, clock, l₂, trees', rfl, hperf, fun hp => ?_, h ▸ hu₂.tail, by rw [h]⟩
    exact of_decide_eq_true (hpre hp)

theorem prerequisite_done (hpre : t.prerequisite = true) :
    (conflictCopyTask t.filePath, true) ∈ (runTasks job sanitize trees runs).done := by
  obtain ⟨l₁, w, clock, l₂, trees', -, -, hcopy, -, hfold⟩ := runTasks_split hu hnodup hdone
  obtain ⟨l, hl, -⟩ := foldl_runTask_done job sanitize l₂
    { trees := trees', done := (runTasks job sanitize trees l₁).done ++ [(t, true)] }
  rw [hfold, hl]
  exact mem_append_left _ (mem_append_left _ (hcopy hpre))

end

/-- A transfer that completes leaves the other side's content at its path. Its own conflict copy
is the only other task that may work on the file, and is over by then. -/
theorem runTasks_transfer (hu : Undisturbed job sanitize { trees := trees } runs)
    (ha : t.isTransfer = true) (hnodup : (runs.map Prod.fst).Nodup)
    (honly : ∀ run ∈ runs, run.1.Touches t.dest t.filePath →
      run.1 = t ∨ (run.1 = conflictCopyTask t.filePath ∧ t.prerequisite = true))
    (hother : ∀ run ∈ runs, ¬ run.1.Touches t.dest.other t.filePath)
    (hf : fileAt job trees t.dest.other t.filePath = some f)
    (hdone : (t, true) ∈ (runTasks job sanitize trees runs).done) :
    ∃ w clock, (t, .completes w clock) ∈ runs ∧
      fileAt job (runTasks job sanitize trees runs).trees t.dest t.filePath
        = some (w.file f.content) := by
  obtain ⟨l₁, w, clock, l₂, trees', rfl, hperf, hpre, hu₂, hfold⟩ := runTasks_split hu hnodup hdone
  refine ⟨w, clock, by simp, ?_⟩
  have hsrc : fileAt job (runTasks job sanitize trees l₁).trees t.dest.other t.filePath = some f :=
    runTasks_present (undisturbed_append.1 hu).1 hf fun run hrun =>
      hother run (mem_append_left _ hrun)
  obtain ⟨g, hg, hw⟩ := (perform_transfer (by simpa [TaskToCreate.isTransfer] using ha) hperf).copies
  rw [hsrc] at hg
  cases hg
  rw [hfold]
  refine runTasks_present hu₂ hw fun run hrun htouch => ?_
  rw [map_append, map_cons, nodup_append, nodup_cons] at hnodup
  have hrun' : run.1 ∈ l₂.map Prod.fst := List.mem_map_of_mem hrun
  rcases honly run (mem_append_right _ (mem_cons_of_mem _ hrun)) htouch with h | ⟨h, hp⟩
  · exact hnodup.2.1.1 (h ▸ hrun')
  · have hmem := List.mem_map_of_mem (f := Prod.fst) (hpre hp)
    rw [runTasks_done, ← h] at hmem
    exact hnodup.2.2 _ hmem _ (mem_cons_of_mem _ hrun') rfl

theorem runTasks_delete (hu : Undisturbed job sanitize { trees := trees } runs)
    (ha : t.action = .delete) (hc : Clear job runs t.dest t.filePath)
    (honly : ∀ run ∈ runs, run.1.Touches t.dest t.filePath → run.1 = t)
    (hdone : (t, true) ∈ (runTasks job sanitize trees runs).done) :
    fileAt job (runTasks job sanitize trees runs).trees t.dest t.filePath = none := by
  refine runTasks_induction hu
    (P := fun x => (t, true) ∈ x.done → fileAt job x.trees t.dest t.filePath = none)
    (fun h => by cases h) (fun x run _ hx h => ?_)
    (fun x run w clock trees' hrun hx hout hperf h => ?_) hdone
  · simp only [mem_append, mem_singleton, Prod.mk.injEq, Bool.true_eq_false, and_false,
      or_false] at h
    exact hx h
  · by_cases hrt : run.1 = t
    · rw [hrt] at hperf
      rw [(perform_delete ha hperf).1, if_pos ⟨rfl, rfl⟩]
    · simp only [mem_append, mem_singleton, Prod.mk.injEq, and_true] at h
      have hx := hx (h.resolve_right fun h => hrt h.symm)
      rw [perform_file hperf (fun ht => hrt (honly run hrun ht)) fun ha =>
        .inr (hc.run hrun hout ha), hx]

def TaskToCreate.Makes (job : Job) (sanitize : Sanitizer) (t : TaskToCreate) (s : Side) (q : Path) :
    Prop :=
  t.dest = s ∧ (((t.action = .upload ∨ t.action = .download) ∧ q <+: t.filePath ∧ q ≠ t.filePath) ∨
      (t.action = .mkdir ∧ absPath (job.base s) q <+:
        mkdirPath sanitize s (absPath (job.base s) t.filePath)))

theorem perform_dirs (h : Done job sanitize t w clock trees trees') (q : Path) :
    dirAt job trees' s q = true ↔ dirAt job trees s q = true ∨ t.Makes job sanitize s q := by
  unfold TaskToCreate.Makes
  cases ha : t.action with
  | upload | download =>
    rw [(perform_transfer (by simp [ha]) h).dir, eq_comm (a := s)]
    simp
  | delete =>
    rw [(perform_delete ha h).2]
    simp
  | mkdir =>
    rw [(perform_mkdir ha h).2]
    constructor
    · rintro (h | ⟨rfl, h⟩)
      · exact .inl h
      · exact .inr ⟨rfl, .inr ⟨rfl, h⟩⟩
    · rintro (h | ⟨rfl, h | h⟩)
      · exact .inl h
      · simp at h
      · exact .inr ⟨rfl, h.2⟩
  | conflictCopy =>
    rw [(perform_conflictCopy ha h).dir]
    simp

theorem runTasks_dirs (hu : Undisturbed job sanitize { trees := trees } runs)
    (s : Side) (q : Path) :
    dirAt job (runTasks job sanitize trees runs).trees s q = true ↔ dirAt job trees s q = true ∨
        ∃ t, (t, true) ∈ (runTasks job sanitize trees runs).done ∧ t.Makes job sanitize s q := by
  refine runTasks_induction hu (P := fun x => dirAt job x.trees s q = true ↔
    dirAt job trees s q = true ∨ ∃ t, (t, true) ∈ x.done ∧ t.Makes job sanitize s q)
    (by simp) (fun x run _ hx => ?_) fun x run w clock trees' hrun hx hout hperf => ?_
  · simpa using hx
  · rw [perform_dirs hperf, hx, or_assoc]
    refine or_congr Iff.rfl ⟨?_, ?_⟩
    · rintro (⟨t, ht, hm⟩ | hm)
      · exact ⟨t, mem_append_left _ ht, hm⟩
      · exact ⟨run.1, by simp, hm⟩
    · rintro ⟨t, ht, hm⟩
      rcases mem_append.1 ht with ht | ht
      · exact .inl ⟨t, ht, hm⟩
      · simp only [mem_singleton, Prod.mk.injEq, and_true] at ht
        exact .inr (ht ▸ hm)

end Run

end Clumoove.Sync
