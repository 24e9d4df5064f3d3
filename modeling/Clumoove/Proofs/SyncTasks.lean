import Clumoove.Proofs.Replacement
import Clumoove.Sanity.Sync.Execution

/-! The worker's program for a sync task against `Sync.perform`: a task that ends without an error
leaves the files of the two accounts as the pass's model of it does. -/

namespace Clumoove.Transfer

open PathTree Prog Sync Function

variable {a : Accounts} {time : ℕ}

abbrev Objects := Location → Option Content

/-- A worker nobody interferes with, whose clock shows `time`. -/
def lone (a : Accounts) (time : ℕ) : Logic Call (fun c => Except Fault c.Val) (World Unit) :=
  { alone a fun _ => True with
    guar := fun _ _ => True
    exec := fun c w r v => ∃ o, (∀ t, o = .time t → t = time) ∧ exec a () c o w = some (r, v) }

def Holds (f : Objects) (w : World Unit) : Prop := ∀ l, w.objects.get l = f l

/-- What a call that reports no error has made of the objects. -/
def Call.after (a : Accounts) (f : Objects) : Call → Objects
  | .deleteFile s p => update f (a.locate s p) none
  | .renameFile s p q => update (update f (a.locate s p) none) (a.locate s q) (f (a.locate s p))
  | .streamUpload s p content => update f (a.locate s p) (some content)
  | _ => f

/-- What its answer tells about them. -/
def Call.Tells (a : Accounts) (time : ℕ) (f : Objects) : (c : Call) → c.Val → Prop
  | .fileExists s p, size => size = (f (a.locate s p)).map List.length
  | .streamDownload s p, content => f (a.locate s p) = some content
  | .now, t => t = time
  | _, _ => True

variable {f : Objects} {α : Type} {Q : α → World Unit → Prop}

theorem exec_tells {c : Call} {x : c.Val} (ho : ∀ t, o = .time t → t = time) (hw : Holds f w)
    (hx : exec a () c o w = some (.ok x, v)) : c.Tells a time f x ∧ Holds (c.after a f) v := by
  have hkeeps : (∀ l, ¬c.Writes a l) → Holds f v := fun h l =>
    (exec_objects hx (h l)).trans (hw l)
  cases c with
  | fileExists s p =>
    refine ⟨?_, hkeeps fun _ => id⟩
    rcases effect_cases hx with ⟨hr, -⟩ | ⟨_, hr, -⟩ <;> cases hr
    rw [hw]
    rfl
  | streamDownload s p => exact ⟨(hw _).symm.trans (download_ok hx), hkeeps fun _ => id⟩
  | now =>
    refine ⟨?_, hkeeps fun _ => id⟩
    cases o <;> cases hx
    exact ho _ rfl
  | deleteFile s p =>
    rcases effect_cases hx with ⟨-, rfl⟩ | ⟨_, hr, -⟩
    · exact ⟨trivial, fun l => by rw [World.get_remove, hw, Call.after, update_apply]⟩
    · cases hr
  | renameFile s p q =>
    simp only [exec] at hx
    split at hx
    · obtain ⟨_, hr, -⟩ := missing_cases hx
      cases hr
    · next content hget =>
      rcases effect_cases hx with ⟨-, rfl⟩ | ⟨_, hr, -⟩
      · refine ⟨trivial, fun l => ?_⟩
        rw [World.get_put, World.get_remove, hw, Call.after, update_apply, update_apply, ← hget, hw]
      · cases hr
  | streamUpload s p content =>
    rcases effect_cases hx with ⟨-, rfl⟩ | ⟨_, hr, -⟩
    · exact ⟨trivial, fun l => by rw [World.get_put, hw, Call.after, update_apply]⟩
    · cases hr
  | _ => exact ⟨trivial, hkeeps fun _ => id⟩

/-- From these objects the program, if it reports no error, comes to `Q`. -/
abbrev Leads (a : Accounts) (time : ℕ) (f : Objects) (x : Work α)
    (Q : α → World Unit → Prop) : Prop :=
  Ensures (lone a time) (Holds f) x Q

theorem Leads.post {Q' : α → World Unit → Prop} (h : Leads a time f x Q)
    (hQ : ∀ y w, Q y w → Q' y w) : Leads a time f x Q' :=
  h.conseq (fun _ _ h => h) hQ fun _ _ _ => trivial

theorem leads_call (c : Call) (f : Objects) :
    Leads a time f (call c) fun x w => c.Tells a time f x ∧ Holds (c.after a f) w := by
  refine Triple.perform (fun hw hr _ => hr ▸ hw) fun w r v _ hw hx => ⟨trivial, trivial, ?_⟩
  obtain ⟨o, ho, hx⟩ := hx
  cases r with
  | ok x => exact exec_tells ho hw hx
  | error _ => trivial

theorem leads_bind {c : Call} {k : c.Val → Work α}
    (h : ∀ x, c.Tells a time f x → Leads a time (c.after a f) (k x) Q) :
    Leads a time f (call c >>= k) Q :=
  Triple.bind (leads_call c f) fun x w hi hw => h x hw.1 w hi hw.2

theorem leads_attempt {x : Work α} (h : Leads a time f x Q) :
    Leads a time f (attempt x) fun r w => ∀ y, r = .ok y → Q y w := by
  refine Triple.attempt (h.conseq (fun _ _ h => h) (fun x w h y hy => ?_) fun _ _ _ => nofun)
  cases hy
  exact h

theorem lone_runs (P : World Unit → Prop) (x : Work α) : Runs (lone a time) P x := by
  intro w _ hw
  clear hw
  generalize x.run = p
  induction p generalizing w with
  | ret r => cases r <;> exact ⟨trivial, trivial⟩
  | call c k ih => exact fun _ _ _ r v _ => ⟨trivial, trivial, ih r v trivial⟩

/-- A program that writes no object. -/
theorem leads_keeps {x : Work α} (hx : Within (fun c => ∀ l, ¬c.Writes a l) x) :
    Leads a time f x fun _ => Holds f := by
  refine (Within.triple hx (fun hw hr _ => hr ▸ hw) fun c w r v hc _ hw hx => ?_).drop
  obtain ⟨o, -, hx⟩ := hx
  exact ⟨trivial, trivial, fun l => (exec_objects hx (hc l)).trans (hw l)⟩

theorem not_writes_of_isQuery {c : Call} (hc : c.isQuery = true) (l : Location) :
    ¬c.Writes a l := by
  cases c with
  | deleteFile | renameFile | streamUpload => cases hc
  | _ => exact id

theorem leads_complete : Leads a time f (call .complete) fun _ => Holds f :=
  leads_keeps (Within.perform fun _ => id)

section Transfer

variable {s : Side} {t u b : Text} {route : Route}

theorem leads_preserveTarget (hfree : f (a.locate s b) = none) :
    Leads a time f (preserveTarget s t b) fun kept w => ∃ g, Holds g w ∧
      (∀ l, l ≠ a.locate s b → g l = if l = a.locate s t then none else f l) ∧
      (kept = false → g (a.locate s b) = none) := by
  refine leads_bind fun size hsize => ?_
  cases size with
  | none =>
    have hnone := Option.map_eq_none_iff.1 hsize.symm
    exact Triple.pure fun w _ hw => ⟨f, hw, fun l _ => by grind, fun _ => hfree⟩
  | some n =>
    have hclear : Leads a time f (clearBackup s b) fun _ => Holds f := by
      refine leads_bind fun found hfound => triple_only (fun h => ?_) fun _ w _ hw => hw
      simp [show found = _ from hfound, hfree] at h
    refine Triple.bind hclear fun _ => leads_bind fun _ _ =>
      Triple.pure fun w _ hw => ⟨_, hw, fun l hl => ?_, nofun⟩
    simp only [Call.after, update_apply, if_neg hl]

/-- Nothing has the names the transfer takes for a while, and they are not those of its target. -/
def Route.Free (a : Accounts) (f : Objects) (route : Route) : Prop :=
  let l := a.locate route.target
  route.staged = true → f (l route.uploadPath) = none ∧ f (l route.backupPath) = none ∧
    l route.targetPath ≠ l route.backupPath ∧ l route.uploadPath ≠ l route.backupPath ∧
    l route.uploadPath ≠ l route.targetPath

theorem leads_promoteOverwrite (htb : a.locate s t ≠ a.locate s b)
    (hub : a.locate s u ≠ a.locate s b) (hut : a.locate s u ≠ a.locate s t)
    (hfree : f (a.locate s b) = none) :
    Leads a time f (promoteOverwrite s t u b) fun _ =>
      Holds (update (update f (a.locate s u) none) (a.locate s t) (f (a.locate s u))) := by
  refine Triple.bind (leads_preserveTarget hfree) fun kept w hi hw => ?_
  obtain ⟨g, hg, hoff, hkept⟩ := hw
  refine Triple.bind (leads_attempt (leads_call (.renameFile s u t) g)) (fun r => ?_) w hi hg
  cases r with
  | error e =>
    exact Triple.bind (lone_runs _ _) fun _ => Triple.bind (lone_runs _ _) fun _ =>
      Triple.throw fun _ _ _ => trivial
  | ok _ =>
    refine triple_only (fun h => ?_) fun h v _ hv l => ?_
    · refine Triple.pre ((leads_call _ _).post fun _ v hv l => ?_) fun v _ hv => (hv () rfl).2
      rw [hv.2 l]
      simp only [Call.after, update_apply]
      grind
    · rw [(hv () rfl).2 l]
      simp only [Call.after, update_apply]
      grind

theorem leads_uploadOrCleanUp (content : Content) :
    Leads a time f (route.uploadOrCleanUp content) fun _ =>
      Holds (update f (a.locate route.target route.uploadPath) (some content)) := by
  have hupload : Leads a time f (route.upload content) fun _ =>
      Holds (update f (a.locate route.target route.uploadPath) (some content)) := by
    refine leads_bind fun _ _ => triple_only (fun _ => Triple.throw fun _ _ _ => trivial) ?_
    intro hlen w _ hw
    rwa [Call.after, ← not_not.1 hlen, List.take_length] at hw
  refine Triple.bind (leads_attempt hupload) fun r => ?_
  cases r with
  | ok _ => exact Triple.pure fun w _ hw => hw () rfl
  | error e => exact Triple.bind (lone_runs _ _) fun _ => Triple.throw fun _ _ _ => trivial

theorem leads_syncTransfer (hfree : route.Free a f) :
    Leads a time f (syncTransfer route) fun _ =>
      Holds (update f (a.locate route.target route.targetPath)
        (f (a.locate route.source route.sourcePath))) := by
  refine leads_bind fun _ _ => leads_bind fun content hcontent => ?_
  rw [show f (a.locate route.source route.sourcePath) = some content from hcontent]
  refine Triple.bind (leads_uploadOrCleanUp content) fun _ => ?_
  refine Triple.bind (Triple.bind (triple_only (fun h => ?_) ?_) fun _ =>
    triple_only (fun _ => leads_keeps ?_) fun _ _ _ hw => hw) fun _ => leads_complete
  · obtain ⟨hu, hb, htb, hub, hut⟩ := hfree h
    refine (leads_promoteOverwrite htb hub hut ?_).post fun _ w hw l => ?_
    · rw [update_of_ne hub.symm]
      exact hb
    · rw [hw l]
      simp only [Call.after, update_apply]
      grind
  · intro h w _ hw
    have hsame : route.uploadPath = route.targetPath := by simpa [Route.staged] using h
    rwa [← hsame]
  · exact silent_verify.mono fun c hc => not_writes_of_isQuery (isQuery_of_isSilent hc)

end Transfer

section Perform

variable {lib : GoLib} {sync : SyncJob} {task : SyncTask} {job : Sync.Job} {t : TaskToCreate}
  {clock : String} {trees trees' : Sided Tree} {s : Side} {p q : Sync.Path}

def place (a : Accounts) (s : Side) (p : Sync.Path) : Location :=
  (a.account s, (p.map String.toList).reverse)

/-- The objects of the two accounts are the files of the trees. -/
def Depicts (a : Accounts) (trees : Sided Tree) (w : World Unit) : Prop :=
  ∀ s p, w.objects.get (place a s p) = ((trees.on s).file p).map (·.content)

/-- One task in the terms of both models, with the same names for the same places. -/
structure Twin (a : Accounts) (time : ℕ) (sync : SyncJob) (task : SyncTask) (job : Sync.Job)
    (t : TaskToCreate) (clock : String) : Prop where
  accounts : a.account .source ≠ a.account .target
  action : task.action = t.action
  side : t.action = .delete → task.side = t.dest
  provider : sync.provider t.dest = job.providers.on t.dest
  path : ∀ s, a.locate s (sync.path s task.filePath) = place a s (absPath (job.base s) t.filePath)
  upload : t.isTransfer = true → a.locate t.dest (stagingPath (sync.path t.dest task.filePath)) =
    place a t.dest (Sync.uploadPath (absPath (job.base t.dest) t.filePath))
  backup : t.isTransfer = true → a.locate t.dest
      (overwriteBackupPath (sync.path t.dest task.filePath) task.id.text) =
    place a t.dest (Sync.backupPath (absPath (job.base t.dest) t.filePath) clock)
  copy : t.action = .conflictCopy →
    a.locate .target (conflictPath (sync.path .target task.filePath) time) =
    place a .target (copyPath job t.filePath clock)

theorem place_inj (ha : a.account .source ≠ a.account .target) :
    place a s p = place a s' q ↔ s = s' ∧ p = q := by
  have hs : a.account s = a.account s' ↔ s = s' := by
    cases s <;> cases s' <;> simp [ha, ha.symm]
  simp only [place, Prod.mk.injEq, hs, List.reverse_inj]
  rw [(List.map_injective_iff.2 fun _ _ => String.toList_inj.1).eq_iff]

theorem update_place (ha : a.account .source ≠ a.account .target) :
    update f (place a s p) x (place a s' q) = if s' = s ∧ q = p then x else f (place a s' q) := by
  simp only [update_apply, place_inj ha]

theorem Depicts.update (hd : Depicts a trees w) (hg : Holds g v)
    (hother : ∀ s' q, s' ≠ s → g (place a s' q) = w.objects.get (place a s' q))
    (hs : ∀ q, g (place a s q) = (tree.file q).map (·.content)) :
    Depicts a (trees.update s tree) v := by
  intro s' q
  rw [hg, Sided.on_update]
  split_ifs with hss
  · rw [hss, hs]
  · rw [hother s' q hss, hd]

theorem Twin.free (h : Twin a time sync task job t clock) (hdest : task.dest = t.dest)
    (ha : t.isTransfer = true) (hd : Depicts a trees w)
    (hne : absPath (job.base t.dest) t.filePath ≠ [])
    (hfree : Unhindered job trees t clock) : (task.route sync).Free a w.objects.get := by
  intro hstaged
  have hatomic : (job.providers.on t.dest).supportsAtomicRename = true := by
    by_contra hc
    simp [Route.staged, SyncTask.route, hdest, h.provider, hc] at hstaged
  obtain ⟨hu, hb, -⟩ := hfree (of_decide_eq_true ha) hatomic
  have hnone : ∀ q, (trees.on t.dest).get q = none → w.objects.get (place a t.dest q) = none := by
    intro q hq
    rw [hd, Tree.file, hq]
    rfl
  simp only [SyncTask.route, hdest, h.provider, hatomic, if_true, h.upload ha, h.backup ha, h.path,
    place_inj h.accounts, ne_eq, true_and]
  exact ⟨hnone _ hu, hnone _ hb, withSuffix_ne hne (by simp), uploadPath_ne_backupPath _ _,
    (uploadPath_ne hne).symm⟩

/-- One completed run of the program is one step of the pass, as far as files go: directories are
not among the objects. -/
theorem processSyncTask_performs (h : Twin a time sync task job t clock)
    (hfree : Unhindered job trees t clock)
    (hp : Sync.perform job sanitize t written clock trees = some trees') :
    Ensures (lone a time) (Depicts a trees) (processSyncTask lib sync task)
      (fun _ => Depicts a trees') := by
  intro w hi hd
  refine Triple.pre (P := (· = w)) (R := Holds w.objects.get) (leads_bind fun _ _ => ?_)
    (fun v _ hv _ => by rw [hv]) w hi rfl
  obtain ⟨tree, htree, rfl⟩ := Option.map_eq_some_iff.1 hp
  simp only [Call.after, syncAction, h.action]
  cases ha : t.action with
  | upload | download =>
    have hdest : task.dest = t.dest := by simp [SyncTask.dest, TaskToCreate.dest, h.action, ha]
    simp only [ha] at htree
    obtain ⟨file, dst, hfile, hmk, hne, -, hget⟩ := transfer_eq_some htree (hfree (by simp [ha]))
    refine (leads_syncTransfer (h.free hdest (decide_eq_true (by simp [ha])) hd hne hfree)).post
      fun _ v hv => hd.update hv ?_ fun q => ?_
    all_goals simp only [SyncTask.route, hdest, h.path, update_place h.accounts]
    · exact fun s' q hs => if_neg fun hc => hs hc.1
    · rw [Tree.put_file hget, Tree.mkdirs_file hmk]
      split_ifs with hq hq hq <;> simp_all [hd _ _, Written.file]
  | delete =>
    simp only [ha] at htree
    split_ifs at htree
    refine leads_bind fun _ _ => leads_complete.post fun _ v hv =>
      hd.update hv ?_ fun q => ?_
    all_goals simp only [Call.after, h.side ha, h.path, update_place h.accounts]
    · exact fun s' q hs => if_neg fun hc => hs hc.1
    · rw [Tree.remove_file_eq htree]
      split_ifs with hq hq hq <;> simp_all [hd _ _]
  | mkdir =>
    have hsame : ∀ q, tree.file q = (trees.on t.dest).file q := by
      simp only [ha] at htree
      split_ifs at htree
      · exact Tree.mkdirs_file htree
      · cases htree
        exact fun _ => rfl
    refine (leads_keeps (within_makeDirectory (fun c => not_writes_of_isQuery) (fun _ => id)
      fun _ => id)).post fun _ v hv => hd.update hv (fun _ _ _ => rfl) fun q => ?_
    rw [hd, hsame]
  | conflictCopy =>
    have hdest : t.dest = .target := by simp [TaskToCreate.dest, ha]
    simp only [ha, hdest] at htree
    obtain ⟨file, hfile, hrest⟩ := Option.bind_eq_some_iff.1 htree
    dsimp only at hrest
    split_ifs at hrest
    obtain ⟨tree₁, hrem, hput⟩ := Option.bind_eq_some_iff.1 hrest
    refine leads_bind fun now hnow => leads_bind fun _ _ => leads_complete.post fun _ v hv =>
      hd.update hv ?_ fun q => ?_
    all_goals
      simp only [Call.after, show now = time from hnow, h.copy ha, h.path, hdest,
        update_place h.accounts]
    · intro s' q hs
      rw [if_neg fun hc => hs hc.1, if_neg fun hc => hs hc.1]
    · rw [Tree.put_file (Tree.put_eq_some hput).2, Tree.remove_file_eq hrem,
        hd, hd, hfile, copyPath]
      simp only [true_and]
      split_ifs <;> rfl

example : Twin ⟨fun | .source => 0 | .target => 1, fun _ => .webdav, fun _ => id⟩ 20240102030405
    ⟨"/t".toList, .webdav, .webdav⟩
    { id := ⟨"12345678-90".toList, by simp [GoPath.isSpace]⟩, filePath := "/d/x".toList, action := .upload }
    { direction := .twoWay, targetDir := ["t"], conflictStrategy := .skip, deletePropagation := true }
    { action := .upload, filePath := ["d", "x"] } "12345678" where
  accounts := by decide
  action := rfl
  side := nofun
  provider := rfl
  path s := by cases s <;> decide +kernel
  upload _ := by decide +kernel
  backup _ := by decide +kernel
  copy := nofun

end Perform

end Clumoove.Transfer
