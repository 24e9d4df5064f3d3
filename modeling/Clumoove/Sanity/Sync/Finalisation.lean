import Clumoove.Sanity.Sync.Execution

/-! The end of a pass: how the reconciliation and the removal of directories change the listings
that become the baseline, and the providers. -/

namespace Clumoove.Sync

open List

section Reconcile

variable {job : Job} {trees : Sided Tree} {inspects : Path → Bool} {m : Snapshot}
variable {op : TaskToCreate} {ops : List TaskToCreate} {s : Side} {p : Path} (scan : Scan)

@[simp] theorem Scan.invalidate_files : (scan.invalidate p).files = scan.files := rfl

@[simp] theorem Scan.invalidate_dirs : (scan.invalidate p).dirs = scan.dirs := rfl

theorem Scan.invalidate_etags (q : Path) :
    (scan.invalidate p).etags.get q = if q <+: p.dropLast then none else scan.etags.get q := by
  have h := GoMap.get_filter_key (m := scan.etags) (k := q) fun q => decide (q ∉ p.dropLast.inits)
  rw [Scan.invalidate]
  simpa [mem_inits] using h

theorem Snapshot.update_on (s' : Side) :
    (m.update s scan).scans.on s' = if s' = s then scan else m.scans.on s' :=
  Sided.on_update ..

inductive Applies (job : Job) (trees : Sided Tree) (op : TaskToCreate) (scan : Scan) : Scan → Prop
  | transfer {f : File} : op.isTransfer = true → fileAt job trees op.dest op.filePath = some f →
      Applies job trees op scan { scan with files := scan.files.set op.filePath f.state }
  | delete : op.action = .delete → Applies job trees op scan
      { files := scan.files.erase op.filePath, dirs := scan.dirs.filter (· ≠ op.filePath),
        etags := scan.etags.erase op.filePath }
  | mkdir : op.action = .mkdir → Applies job trees op scan
      { scan with dirs := op.filePath :: scan.dirs, etags := scan.etags.erase op.filePath }
  | copy : op.action = .conflictCopy → Applies job trees op scan scan

/-- What an operation does to the listings and the protected paths. -/
inductive ReconcileStep (job : Job) (trees : Sided Tree) (inspects : Path → Bool) (m : Snapshot)
    (op : TaskToCreate) : Snapshot → Prop
  | passedOver : op.filePath ∈ m.protectedPaths → ReconcileStep job trees inspects m op m
  | unread : op.isTransfer = true →
      (inspects op.filePath = true → fileAt job trees op.dest op.filePath = none) →
      ReconcileStep job trees inspects m op
        { m with protectedPaths := op.filePath :: m.protectedPaths }
  | applied {scan : Scan} : Applies job trees op (m.scans.on op.dest) scan →
      ReconcileStep job trees inspects m op (m.update op.dest (scan.invalidate op.filePath))

theorem reconcileStep_transfer (ht : op.isTransfer = true) :
    ReconcileStep job trees inspects m op
      (match if inspects op.filePath then (trees.on op.dest).file
          (absPath (job.base op.dest) op.filePath) else none with
        | none => { m with protectedPaths := op.filePath :: m.protectedPaths }
        | some f => m.update op.dest (Scan.invalidate op.filePath { m.scans.on op.dest with
            files := (m.scans.on op.dest).files.set op.filePath f.state })) := by
  split
  · next h => exact .unread ht fun hi => by rwa [if_pos hi] at h
  · next f h =>
    split_ifs at h
    exact .applied (.transfer ht h)

theorem reconcileOperation_step (job : Job) (trees : Sided Tree) (inspects : Path → Bool)
    (m : Snapshot) (op : TaskToCreate) :
    ReconcileStep job trees inspects m op (reconcileOperation job trees inspects m op) := by
  unfold reconcileOperation
  by_cases hprot : op.filePath ∈ m.protectedPaths
  · rw [if_pos hprot]
    exact .passedOver hprot
  rw [if_neg hprot]
  cases ha : op.action with
  | upload | download => exact reconcileStep_transfer (by simp [TaskToCreate.isTransfer, ha])
  | delete => exact .applied (.delete ha)
  | mkdir => exact .applied (.mkdir ha)
  | conflictCopy => exact .applied (.copy ha)

section Applies

variable {scan scan' : Scan}

def TaskToCreate.Writes (t : TaskToCreate) (s : Side) (p : Path) : Prop :=
  (t.isTransfer = true ∨ t.action = .delete) ∧ t.dest = s ∧ t.filePath = p

section

variable (h : Applies job trees op scan scan')
include h

theorem Applies.file_eq (hw : ¬ op.Writes op.dest p) :
    scan'.files.get p = scan.files.get p := by
  cases h with
  | transfer ht _ => rw [GoMap.get_set, if_neg fun hp => hw ⟨.inl ht, rfl, hp.symm⟩]
  | delete hd => rw [GoMap.get_erase, if_neg fun hp => hw ⟨.inr hd, rfl, hp.symm⟩]
  | mkdir _ => rfl
  | copy _ => rfl

theorem Applies.mem_dirs (hp : p ∈ scan'.dirs) :
    p ∈ scan.dirs ∨ (op.action = .mkdir ∧ op.filePath = p) := by
  cases h with
  | transfer _ _ => exact .inl hp
  | delete _ => exact .inl (mem_filter.1 hp).1
  | mkdir ha => exact (mem_cons.1 hp).elim (fun h => .inr ⟨ha, h.symm⟩) .inl
  | copy _ => exact .inl hp

theorem Applies.dirs_of_mem (hp : p ∈ scan.dirs)
    (hne : op.action = .delete → op.filePath ≠ p) : p ∈ scan'.dirs := by
  cases h with
  | transfer _ _ => exact hp
  | delete ha => exact mem_filter.2 ⟨hp, decide_eq_true (Ne.symm (hne ha))⟩
  | mkdir _ => exact mem_cons_of_mem _ hp
  | copy _ => exact hp

theorem Applies.etag : scan'.etags.get p =
    if (op.action = .delete ∨ op.action = .mkdir) ∧ op.filePath = p then none
    else scan.etags.get p := by
  have hne : op.isTransfer = true → ¬ ((op.action = .delete ∨ op.action = .mkdir) ∧
      op.filePath = p) := by
    rintro ht ⟨ha | ha, -⟩ <;> simp [TaskToCreate.isTransfer, ha] at ht
  cases h with
  | transfer ht _ => rw [if_neg (hne ht)]
  | delete ha | mkdir ha => simp [GoMap.get_erase, ha, eq_comm]
  | copy ha => simp [ha]

end

end Applies

section

variable (h : ReconcileStep job trees inspects m op m')
include h

theorem ReconcileStep.on_side (s : Side) : m'.scans.on s = m.scans.on s ∨ (op.dest = s ∧
      ∃ scan, Applies job trees op (m.scans.on s) scan ∧
        m'.scans.on s = scan.invalidate op.filePath) := by
  cases h with
  | passedOver | unread => exact .inl rfl
  | applied ha =>
    rw [Snapshot.update_on]
    split_ifs with hs
    · subst hs
      exact .inr ⟨rfl, _, ha, rfl⟩
    · exact .inl rfl

theorem ReconcileStep.protectedPaths_mono (hp : p ∈ m.protectedPaths) :
    p ∈ m'.protectedPaths := by
  cases h with
  | passedOver _ => exact hp
  | unread _ _ => exact mem_cons_of_mem _ hp
  | applied _ => exact hp

theorem ReconcileStep.applied_or_protected : op.filePath ∈ m'.protectedPaths ∨
      ∃ scan, Applies job trees op (m.scans.on op.dest) scan ∧
        m'.scans.on op.dest = scan.invalidate op.filePath := by
  cases h with
  | passedOver hp => exact .inl hp
  | unread _ _ => exact .inl mem_cons_self
  | applied ha => exact .inr ⟨_, ha, by rw [Snapshot.update_on, if_pos rfl]⟩

theorem ReconcileStep.file_eq (hw : ¬ op.Writes s p) : (m'.scans.on s).files.get p = (m.scans.on s).files.get p := by
  rcases h.on_side s with h | ⟨rfl, scan, ha, h⟩
  · rw [h]
  · rw [h, Scan.invalidate_files, ha.file_eq hw]

end

/-- What one element establishes and every other keeps holds after a fold. -/
theorem foldl_establish {α β : Type} {f : β → α → β} {P : β → Prop} {l : List α} {b : β}
    (keep : ∀ b, ∀ a ∈ l, P b → P (f b a)) (h : P b ∨ ∃ a ∈ l, ∀ b, P (f b a)) :
    P (l.foldl f b) := by
  rcases h with h | ⟨a, ha, h⟩
  · exact List.foldlRecOn l f h fun b hb a ha => keep b a ha hb
  · obtain ⟨l₁, l₂, rfl⟩ := append_of_mem ha
    rw [foldl_append, foldl_cons]
    exact List.foldlRecOn l₂ f (h _) fun b hb a ha =>
      keep b a (mem_append_right _ (mem_cons_of_mem _ ha)) hb

/-! A whole reconciliation. -/

theorem reconcile_protected (hp : p ∈ m.protectedPaths) :
    p ∈ (reconcileSuccessfulOperations job trees inspects m ops).protectedPaths :=
  List.foldlRecOn ops _ (motive := fun m => p ∈ m.protectedPaths) hp fun m hm op _ =>
    (reconcileOperation_step job trees inspects m op).protectedPaths_mono hm

theorem reconcile_protected_cases
    (h : p ∈ (reconcileSuccessfulOperations job trees inspects m ops).protectedPaths) :
    p ∈ m.protectedPaths ∨ ∃ op ∈ ops, op.isTransfer = true ∧ op.filePath = p ∧
      (inspects p = true → fileAt job trees op.dest p = none) := by
  refine List.foldlRecOn ops _ (motive := fun m' : Snapshot => p ∈ m'.protectedPaths →
    p ∈ m.protectedPaths ∨ ∃ op ∈ ops, op.isTransfer = true ∧ op.filePath = p ∧
      (inspects p = true → fileAt job trees op.dest p = none)) .inl (fun m' ih op hop h => ?_) h
  have hstep := reconcileOperation_step job trees inspects m' op
  generalize reconcileOperation job trees inspects m' op = m'' at hstep h
  cases hstep with
  | passedOver _ => exact ih h
  | unread hx hnone =>
    rcases mem_cons.1 h with rfl | h
    · exact .inr ⟨op, hop, hx, rfl, hnone⟩
    · exact ih h
  | applied _ => exact ih h

theorem reconcile_file_eq (hw : ∀ op ∈ ops, ¬ op.Writes s p) :
    ((reconcileSuccessfulOperations job trees inspects m ops).scans.on s).files.get p
      = (m.scans.on s).files.get p :=
  List.foldlRecOn ops _
    (motive := fun m' => (m'.scans.on s).files.get p = (m.scans.on s).files.get p) rfl
    fun m' hm' op hop =>
      ((reconcileOperation_step job trees inspects m' op).file_eq (hw op hop)).trans hm'

/-- Where every operation that writes a file leaves the listing with `P`, the listing has `P` once
there is one, unless the path is protected. -/
theorem reconcile_written {P : Option FileState → Prop} (hop : op ∈ ops) (hw : op.Writes s p)
    (hP : ∀ op ∈ ops, op.Writes s p → ∀ scan scan', Applies job trees op scan scan' →
      P (scan'.files.get p))
    (hp : p ∉ (reconcileSuccessfulOperations job trees inspects m ops).protectedPaths) :
    P (((reconcileSuccessfulOperations job trees inspects m ops).scans.on s).files.get p) := by
  have hset : ∀ m, ∀ op ∈ ops, op.Writes s p →
      p ∈ (reconcileOperation job trees inspects m op).protectedPaths ∨
        P (((reconcileOperation job trees inspects m op).scans.on s).files.get p) := by
    intro m op hop hw
    obtain ⟨-, hs, hpath⟩ := id hw
    rcases (reconcileOperation_step job trees inspects m op).applied_or_protected with
      h | ⟨scan, ha, h⟩
    · exact .inl (hpath ▸ h)
    · rw [hs] at h
      rw [h, Scan.invalidate_files]
      exact .inr (hP op hop hw _ _ ha)
  refine (foldl_establish (P := fun m : Snapshot => p ∈ m.protectedPaths ∨
    P ((m.scans.on s).files.get p)) (fun m op' hop' hm => ?_)
    (.inr ⟨op, hop, fun m => hset m op hop hw⟩)).resolve_left hp
  have hstep := reconcileOperation_step job trees inspects m op'
  by_cases hw' : op'.Writes s p
  · exact hset m op' hop' hw'
  · rw [hstep.file_eq hw']
    exact hm.imp_left hstep.protectedPaths_mono

theorem reconcile_transfer (hop : op ∈ ops) (ht : op.isTransfer = true)
    (hd : ∀ op' ∈ ops, op'.Writes op.dest op.filePath → op'.isTransfer = true)
    (hp : op.filePath ∉ (reconcileSuccessfulOperations job trees inspects m ops).protectedPaths) :
    ∃ f, fileAt job trees op.dest op.filePath = some f ∧
      ((reconcileSuccessfulOperations job trees inspects m ops).scans.on op.dest).files.get
        op.filePath = some f.state := by
  refine reconcile_written (P := fun o => ∃ f, fileAt job trees op.dest op.filePath = some f ∧
    o = some f.state) hop ⟨.inl ht, rfl, rfl⟩ (fun op' hop' hw scan scan' ha => ?_) hp
  have ht' := hd op' hop' hw
  obtain ⟨-, hs, hpath⟩ := hw
  cases ha with
  | transfer _ hf =>
    rw [hs, hpath] at hf
    exact ⟨_, hf, by rw [GoMap.get_set, if_pos hpath.symm]⟩
  | _ ha => simp [TaskToCreate.isTransfer, ha] at ht'

theorem reconcile_delete (hop : op ∈ ops) (hdel : op.action = .delete)
    (hd : ∀ op' ∈ ops, op'.Writes op.dest op.filePath → op'.action = .delete)
    (hp : op.filePath ∉ (reconcileSuccessfulOperations job trees inspects m ops).protectedPaths) :
    ((reconcileSuccessfulOperations job trees inspects m ops).scans.on op.dest).files.get
      op.filePath = none := by
  refine reconcile_written (P := fun o => o = none) hop ⟨.inr hdel, rfl, rfl⟩
    (fun op' hop' hw scan scan' ha => ?_) hp
  have ha' := hd op' hop' hw
  cases ha with
  | transfer ht _ => simp [TaskToCreate.isTransfer, ha'] at ht
  | delete _ => rw [GoMap.get_erase, if_pos hw.2.2.symm]
  | mkdir ha | copy ha => simp [ha'] at ha

theorem reconcile_file_cases
    (h : ((reconcileSuccessfulOperations job trees inspects m ops).scans.on s).files.get p = some fs) :
    (m.scans.on s).files.get p = some fs ∨ ∃ f, fileAt job trees s p = some f ∧ fs = f.state := by
  refine List.foldlRecOn ops _ (motive := fun m' : Snapshot =>
    (m'.scans.on s).files.get p = some fs → (m.scans.on s).files.get p = some fs ∨
      ∃ f, fileAt job trees s p = some f ∧ fs = f.state) .inl (fun m' ih op _ h => ?_) h
  rcases (reconcileOperation_step job trees inspects m' op).on_side s with hs | ⟨hs, scan, ha, hscan⟩
  · rw [hs] at h
    exact ih h
  · rw [hscan, Scan.invalidate_files] at h
    cases ha with
    | transfer _ hf =>
      rw [GoMap.get_set] at h
      split_ifs at h with hp
      · rw [hs, ← hp] at hf
        exact .inr ⟨_, hf, (Option.some.inj h).symm⟩
      · exact ih h
    | delete _ =>
      rw [GoMap.get_erase] at h
      split_ifs at h
      exact ih h
    | mkdir _ => exact ih h
    | copy _ => exact ih h

theorem reconcile_mem_dirs
    (hp : p ∈ ((reconcileSuccessfulOperations job trees inspects m ops).scans.on s).dirs) :
    p ∈ (m.scans.on s).dirs ∨ ∃ op ∈ ops, op.action = .mkdir ∧ op.dest = s ∧ op.filePath = p := by
  refine List.foldlRecOn ops _ (motive := fun m' : Snapshot => p ∈ (m'.scans.on s).dirs →
    p ∈ (m.scans.on s).dirs ∨ ∃ op ∈ ops, op.action = .mkdir ∧ op.dest = s ∧ op.filePath = p)
    .inl (fun m' ih op hop hp => ?_) hp
  rcases (reconcileOperation_step job trees inspects m' op).on_side s with h | ⟨hs, scan, ha, h⟩
  · rw [h] at hp
    exact ih hp
  · rw [h, Scan.invalidate_dirs] at hp
    rcases ha.mem_dirs hp with hp | ⟨hmk, hpath⟩
    · exact ih hp
    · exact .inr ⟨op, hop, hmk, hs, hpath⟩

theorem ReconcileStep.dirs_of_mem (h : ReconcileStep job trees inspects m op m')
    (hd : ¬ (op.action = .delete ∧ op.dest = s ∧ op.filePath = p))
    (hp : p ∈ (m.scans.on s).dirs) : p ∈ (m'.scans.on s).dirs := by
  rcases h.on_side s with h | ⟨hs, scan, ha, h⟩
  · rwa [h]
  · rw [h, Scan.invalidate_dirs]
    exact ha.dirs_of_mem hp fun hdel hpath => hd ⟨hdel, hs, hpath⟩

theorem reconcile_dirs (hd : ∀ op ∈ ops, ¬ (op.action = .delete ∧ op.dest = s ∧ op.filePath = p))
    (hp : p ∈ (m.scans.on s).dirs ∨ ∃ op ∈ ops, op.action = .mkdir ∧ op.dest = s ∧ op.filePath = p) :
    p ∈ (reconcileSuccessfulOperations job trees inspects m ops).protectedPaths ∨
      p ∈ ((reconcileSuccessfulOperations job trees inspects m ops).scans.on s).dirs := by
  refine foldl_establish (P := fun m : Snapshot => p ∈ m.protectedPaths ∨ p ∈ (m.scans.on s).dirs)
    (fun m op hop hm => ?_) (hp.imp .inr fun ⟨op, hop, hmk, hs, hpath⟩ => ⟨op, hop, fun m => ?_⟩)
  · have hstep := reconcileOperation_step job trees inspects m op
    exact hm.imp hstep.protectedPaths_mono (hstep.dirs_of_mem (hd op hop))
  · rcases (reconcileOperation_step job trees inspects m op).applied_or_protected with
      h | ⟨scan, ha, h⟩
    · exact .inl (hpath ▸ h)
    · rw [hs] at h
      rw [h]
      refine .inr ?_
      cases ha with
      | transfer ht _ => simp [TaskToCreate.isTransfer, hmk] at ht
      | delete hdel => simp [hmk] at hdel
      | mkdir _ => exact hpath ▸ mem_cons_self
      | copy hcopy => simp [hmk] at hcopy

def TaskToCreate.Stales (t : TaskToCreate) (s : Side) (d : Path) : Prop :=
  t.dest = s ∧ (d <+: t.filePath.dropLast ∨
    ((t.action = .delete ∨ t.action = .mkdir) ∧ t.filePath = d))

theorem ReconcileStep.etag (h : ReconcileStep job trees inspects m op m') :
    (m'.scans.on s).etags.get p = (m.scans.on s).etags.get p ∨
      (op.Stales s p ∧ (m'.scans.on s).etags.get p = none) := by
  rcases h.on_side s with h | ⟨hs, scan, ha, h⟩
  · rw [h]
    exact .inl rfl
  · rw [h, Scan.invalidate_etags, ha.etag]
    split_ifs with h₁ h₂
    · exact .inr ⟨⟨hs, .inl h₁⟩, rfl⟩
    · exact .inr ⟨⟨hs, .inr h₂⟩, rfl⟩
    · exact .inl rfl

theorem ReconcileStep.etag_of_stales (h : ReconcileStep job trees inspects m op m')
    (hs : op.Stales s p) : op.filePath ∈ m'.protectedPaths ∨ (m'.scans.on s).etags.get p = none := by
  obtain ⟨rfl, hst⟩ := hs
  refine h.applied_or_protected.imp id fun ⟨scan, ha, h⟩ => ?_
  rw [h, Scan.invalidate_etags, ha.etag]
  rcases hst with hst | hst
  · rw [if_pos hst]
  · rw [if_pos hst, ite_self]

theorem reconcile_etag_eq (h : ∀ op ∈ ops, ¬ op.Stales s p) :
    ((reconcileSuccessfulOperations job trees inspects m ops).scans.on s).etags.get p
      = (m.scans.on s).etags.get p :=
  List.foldlRecOn ops _
    (motive := fun m' : Snapshot => (m'.scans.on s).etags.get p = (m.scans.on s).etags.get p) rfl
    fun m' hm' op hop => by
      rcases (reconcileOperation_step job trees inspects m' op).etag with he | ⟨hs, -⟩
      · exact he.trans hm'
      · exact absurd hs (h op hop)

theorem reconcile_etag_some
    (h : ((reconcileSuccessfulOperations job trees inspects m ops).scans.on s).etags.get p
      = some e) : (m.scans.on s).etags.get p = some e := by
  refine List.foldlRecOn ops _ (motive := fun m' : Snapshot => (m'.scans.on s).etags.get p = some e →
    (m.scans.on s).etags.get p = some e) id (fun m' ih op _ h => ih ?_) h
  rcases (reconcileOperation_step job trees inspects m' op).etag with he | ⟨-, hn⟩
  · rwa [he] at h
  · rw [hn] at h
    cases h

/-- No operation is at or below the directory of such an ETag, except at protected paths. -/
theorem reconcile_etag_stale (hop : op ∈ ops) (hs : op.Stales s p) :
    op.filePath ∈ (reconcileSuccessfulOperations job trees inspects m ops).protectedPaths ∨
      ((reconcileSuccessfulOperations job trees inspects m ops).scans.on s).etags.get p = none := by
  refine foldl_establish (P := fun m : Snapshot => op.filePath ∈ m.protectedPaths ∨
    (m.scans.on s).etags.get p = none) (fun m op' _ hm => ?_)
    (.inr ⟨op, hop, fun m => (reconcileOperation_step job trees inspects m op).etag_of_stales hs⟩)
  have hstep := reconcileOperation_step job trees inspects m op'
  refine hm.imp hstep.protectedPaths_mono fun hm => ?_
  rcases hstep.etag (s := s) (p := p) with he | ⟨-, hn⟩
  · rw [he, hm]
  · exact hn

end Reconcile

end Clumoove.Sync
