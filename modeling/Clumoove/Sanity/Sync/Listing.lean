import Clumoove.Spec.Sync.Listing

/-! What `listFiles` returns. If the stored rows below every directory whose stored ETag is the
current one are the subtree there, the traversal finds exactly the files and directories at and
below its start paths, in whichever order the listings come back. -/

namespace Clumoove.Sync

open PathTree List Option

def InScope (starts : List Path) (p : Path) : Prop := ∃ s ∈ starts, s <+: p

theorem InScope.below (h : InScope starts p) (q : Path) : InScope starts (p ++ q) := by
  obtain ⟨s, hs, hp⟩ := h
  exact ⟨s, hs, hp.trans (prefix_append p q)⟩

/-- A scan that has exactly the files and directories of a tree in some scope. -/
structure Scan.Reports (scan : Scan) (tree : Tree) (scope : Path → Prop) : Prop where
  file : ∀ p fs, scan.files.get p = some fs ↔ scope p ∧ (tree.file p).map File.state = some fs
  dir : ∀ p, p ∈ scan.dirs ↔ scope p ∧ tree.isDir p = true
  etag : ∀ p e, scan.etags.get p = some e ↔ scope p ∧ tree.dir p = some e ∧ e ≠ ""

/-- Where a stored ETag is the current one, the stored rows below are the tree's. -/
def Cache.Valid (cache : Cache) (tree : Tree) : Prop :=
  ∀ d e, e ≠ "" → cache.etags.get d = some e → tree.dir d = some e →
    ∀ q, cache.files.get (d ++ q) = (tree.file (d ++ q)).map File.state ∧
      cache.etags.get (d ++ q) = tree.dir (d ++ q)

theorem Cache.valid_empty (tree : Tree) : Cache.Valid {} tree := by
  intro d e _ h
  cases h

section

variable {cache : Cache} {tree : Tree} {scope : Path → Prop} {t t' : Traversal} {p d q : Path}
variable {scan scan' scan'' : Scan} {e : String}

def Scan.entry (scan : Scan) (p : Path) : Option FileState × Prop × Option String :=
  (scan.files.get p, p ∈ scan.dirs, scan.etags.get p)

def treeEntry (tree : Tree) (p : Path) : Option FileState × Prop × Option String :=
  ((tree.file p).map File.state, tree.isDir p = true, (tree.dir p).filter (· ≠ ""))

def Scan.Records (scan : Scan) (tree : Tree) (p : Path) : Prop := scan.entry p = treeEntry tree p

/-- Nothing happens to a scan but that it records paths in scope. -/
def Scan.Fills (tree : Tree) (scope : Path → Prop) (scan scan' : Scan) : Prop :=
  ∀ q, scan'.entry q = scan.entry q ∨ scope q ∧ scan'.Records tree q

namespace Scan.Fills

theorem refl : Fills tree scope scan scan := fun _ => .inl rfl

theorem trans (h : Fills tree scope scan scan') (h' : Fills tree scope scan' scan'') :
    Fills tree scope scan scan'' := by
  intro q
  rcases h' q with hq | hq
  · rw [Records, hq]
    exact h q
  · exact .inr hq

theorem records (h : Fills tree scope scan scan') (hq : scan.Records tree q) : scan'.Records tree q := by
  rcases h q with heq | hq'
  · exact heq.trans hq
  · exact hq'.2

theorem records_of_get (hs : Fills tree scope {} scan)
    (h : (tree.get p).isSome → scan.Records tree p) : scan.Records tree p := by
  cases hg : tree.get p with
  | some n => exact h (by rw [hg]; rfl)
  | none =>
    rcases hs p with hp | hp
    · rw [Records, hp]
      simp [treeEntry, Scan.entry, Tree.file, Tree.isDir, Tree.dir, hg]
    · exact hp.2

end Scan.Fills

def Scan.Puts (tree : Tree) (p : Path) (scan scan' : Scan) : Prop :=
  ∀ q, scan'.entry q = if q = p then treeEntry tree p else scan.entry q

theorem Scan.Puts.records (h : Scan.Puts tree p scan scan') : scan'.Records tree p := by
  rw [Records, h, if_pos rfl]

theorem Scan.Puts.fills (h : Scan.Puts tree p scan scan') (hp : scope p) : Fills tree scope scan scan' := by
  intro q
  by_cases hq : q = p
  · subst hq
    exact .inr ⟨hp, h.records⟩
  · exact .inl (by rw [h, if_neg hq])

theorem Scan.Fills.addFile (hs : Fills tree scope {} scan) (hf : tree.file p = some f) :
    Puts tree p scan (scan.addFile p f.state) := by
  have hdir : tree.dir p = none := Tree.file_isSome_not_dir (by simp [hf])
  intro q
  split_ifs with hq
  · subst hq
    have hrest : (scan.entry q).2 = (treeEntry tree q).2 := by
      rcases hs q with h | h
      · rw [h]
        simp [Scan.entry, treeEntry, Tree.isDir, hdir]
      · rw [h.2]
    exact Prod.ext (by simp [Scan.entry, Scan.addFile, treeEntry, hf, GoMap.get_set]) hrest
  · simp [Scan.entry, Scan.addFile, GoMap.get_set, hq]

theorem Scan.Fills.addDir (hs : Fills tree scope {} scan) (hd : tree.dir p = some e) :
    Puts tree p scan ((scan.addDir p).addDirETag p e) := by
  have hfile : tree.file p = none := by
    cases hf : tree.file p with
    | none => rfl
    | some f => rw [Tree.file_isSome_not_dir (by simp [hf])] at hd; cases hd
  intro q
  unfold Scan.addDirETag Scan.addDir
  by_cases hq : q = p
  · have hold := hs q
    simp only [Records, Scan.entry, treeEntry, hfile, hd, Prod.mk.injEq] at hold ⊢
    split_ifs with he <;> rcases hold with h | h <;> simp_all [Tree.isDir, GoMap.get_set, filter_some]
  · split_ifs <;> simp [Scan.entry, GoMap.get_set, hq]

theorem Scan.Reports.of_records (hs : Fills tree scope {} scan)
    (h : ∀ p, scope p → scan.Records tree p) : scan.Reports tree scope := by
  constructor <;> intro p
  all_goals
    by_cases hp : scope p
    · simp_all [Records, Scan.entry, treeEntry, filter_eq_some_iff]
    · have hentry := (hs p).resolve_right fun h => hp h.1
      simp_all [Scan.entry]

theorem Scan.addDirETag_addDir : (scan.addDirETag p e).addDir p = (scan.addDir p).addDirETag p e := by
  unfold Scan.addDirETag Scan.addDir
  split_ifs <;> rfl

/-! Copying a subtree from the cache. -/

theorem foldl_fills {l : List Path} (hscope : ∀ q, scope (d ++ q))
    (hf : ∀ p ∈ l, ∀ scan, Scan.Fills tree scope {} scan →
      if d <+: p then Scan.Puts tree p scan (f scan p) else f scan p = scan)
    (h : Scan.Fills tree scope {} scan) : Scan.Fills tree scope scan (l.foldl f scan) ∧
      ∀ q, d ++ q ∈ l → (l.foldl f scan).Records tree (d ++ q) := by
  induction l generalizing scan with
  | nil => exact ⟨.refl, by simp⟩
  | cons a l ih =>
    have ha := hf a mem_cons_self scan h
    have hstep : Scan.Fills tree scope scan (f scan a) := by
      split_ifs at ha with hd
      · obtain ⟨q, rfl⟩ := hd
        exact ha.fills (hscope q)
      · rw [ha]
        exact .refl
    obtain ⟨h₁, h₂⟩ := ih (fun b hb => hf b (mem_cons_of_mem a hb)) (h.trans hstep)
    refine ⟨hstep.trans h₁, fun q hq => ?_⟩
    rcases mem_cons.1 hq with rfl | hq
    · rw [if_pos (prefix_append d q)] at ha
      exact h₁.records ha.records
    · exact h₂ q hq

theorem copyPreviousSubtree_spec (hc : cache.Valid tree) (he : e ≠ "")
    (hcd : cache.etags.get d = some e) (hd : tree.dir d = some e)
    (hscope : ∀ q, scope (d ++ q)) (h : Scan.Fills tree scope {} scan) :
    Scan.Fills tree scope scan (copyPreviousSubtree cache d scan) ∧
      ∀ q, (copyPreviousSubtree cache d scan).Records tree (d ++ q) := by
  have hv := hc d e he hcd hd
  -- what is stored below the directory is the tree's
  obtain ⟨s₁, k₁⟩ := foldl_fills (f := copyFile cache d) (l := cache.files.keys) hscope (by
    intro p hp scan hs
    obtain ⟨fs, hfs⟩ := isSome_iff_exists.1 (GoMap.mem_keys.1 hp)
    simp only [copyFile, hfs]
    split_ifs with hdp
    · obtain ⟨q, rfl⟩ := hdp
      obtain ⟨f, hf, rfl⟩ := map_eq_some_iff.1 ((hv q).1.symm.trans hfs)
      exact hs.addFile hf
    · rfl) h
  obtain ⟨s₂, k₂⟩ := foldl_fills (f := copyDir cache d) (l := cache.etags.keys) hscope (by
    intro p hp scan hs
    obtain ⟨e', he'⟩ := isSome_iff_exists.1 (GoMap.mem_keys.1 hp)
    simp only [copyDir, he']
    split_ifs with hdp
    · obtain ⟨q, rfl⟩ := hdp
      exact hs.addDir ((hv q).2.symm.trans he')
    · rfl) (h.trans s₁)
  refine ⟨s₁.trans s₂, fun q => (h.trans (s₁.trans s₂)).records_of_get fun hg => ?_⟩
  -- and what the tree has there is stored, so one of the two loops recorded it
  rcases Tree.get_isSome_iff.1 hg with hg | hg
  · exact s₂.records (k₁ q (GoMap.mem_keys.2 (by rwa [(hv q).1, isSome_map])))
  · exact k₂ q (GoMap.mem_keys.2 (by rwa [(hv q).2]))

/-! The traversal. -/

/-- A directory that has been dealt with: it was copied, or it was listed and its directories
have been met. -/
def Traversal.Settled (t : Traversal) (tree : Tree) (d : Path) : Prop :=
  (∀ q, t.scan.Records tree (d ++ q)) ∨
    ∀ x, t.scan.Records tree (d ++ [x]) ∧ (tree.isDir (d ++ [x]) = true → d ++ [x] ∈ t.visited)

/-- What holds all along; `busy` are the directories whose listing is being taken up. -/
structure Traversal.Inv (t : Traversal) (tree : Tree) (scope : Path → Prop) (busy : List Path) :
    Prop where
  sound : Scan.Fills tree scope {} t.scan
  visited : ∀ d ∈ t.visited, scope d ∧ t.scan.Records tree d
  pending : ∀ d ∈ t.pending, d ∈ t.visited
  settled : ∀ d ∈ t.visited, d ∉ t.pending → d ∉ busy → t.Settled tree d

/-- A traversal goes on: nothing recorded or visited is lost. -/
structure Traversal.Le (tree : Tree) (scope : Path → Prop) (t t' : Traversal) : Prop where
  fills : Scan.Fills tree scope t.scan t'.scan
  visited : ∀ d ∈ t.visited, d ∈ t'.visited

theorem Traversal.Le.refl (t : Traversal) : Traversal.Le tree scope t t := ⟨.refl, fun _ h => h⟩

theorem Traversal.Le.trans (h : Traversal.Le tree scope t t')
    (h' : Traversal.Le tree scope t' t'') : Traversal.Le tree scope t t'' :=
  ⟨h.fills.trans h'.fills, fun d hd => h'.visited d (h.visited d hd)⟩

theorem Traversal.Settled.le (hs : t.Settled tree d) (h : Traversal.Le tree scope t t') :
    t'.Settled tree d := by
  rcases hs with hs | hs
  · exact .inl fun q => h.fills.records (hs q)
  · exact .inr fun x => ⟨h.fills.records (hs x).1, fun hx => h.visited _ ((hs x).2 hx)⟩

def Traversal.remaining (tree : Tree) (t : Traversal) : ℕ :=
  (tree.nodes.keys.filter fun d => d ∉ t.visited).length + t.pending.length

theorem length_filter_visit {l : List Path} (hd : d ∈ l) (hv : d ∉ visited) :
    (l.filter fun q => q ∉ d :: visited).length < (l.filter fun q => q ∉ visited).length := by
  have hfilter : (l.filter fun q => q ∉ d :: visited) =
      (l.filter fun q => q ∉ visited).filter fun q => q ≠ d := by
    rw [List.filter_filter]
    congr 1
    funext q
    simp
  rw [hfilter]
  exact length_filter_lt_length_iff_exists.2 ⟨d, by simp [hd, hv], by simp⟩

structure Met (tree : Tree) (scope : Path → Prop) (busy : List Path) (t t' : Traversal)
    (p : Path) : Prop where
  inv : t'.Inv tree scope busy
  le : Traversal.Le tree scope t t'
  records : t'.scan.Records tree p
  visits : tree.isDir p = true → p ∈ t'.visited
  remaining : t'.remaining tree ≤ t.remaining tree

section

variable {busy : List Path}

theorem Met.of_scan (h : t.Inv tree scope busy) (hf : Scan.Fills tree scope t.scan scan)
    (hp : scan.Records tree p) (hv : tree.isDir p = true → p ∈ t.visited) :
    Met tree scope busy t { t with scan := scan } p where
  inv := ⟨h.sound.trans hf, fun d hd => ⟨(h.visited d hd).1, hf.records (h.visited d hd).2⟩, h.pending,
    fun d hd hp hb => (h.settled d hd hp hb).le ⟨hf, fun _ h => h⟩⟩
  le := ⟨hf, fun _ h => h⟩
  records := hp
  visits := hv
  remaining := Nat.le_refl _

theorem Met.visit {pending : List Path} (h : t.Inv tree scope busy)
    (hf : Scan.Fills tree scope t.scan scan) (hp : scope p) (hd : tree.dir p = some e)
    (hrec : scan.Records tree p) (hv : p ∉ t.visited)
    (hset : pending = t.pending ∧ (∀ q, scan.Records tree (p ++ q)) ∨ pending = t.pending ++ [p]) :
    Met tree scope busy t { t with scan := scan, visited := p :: t.visited, pending := pending } p := by
  have hmem : p ∈ tree.nodes.keys := by
    rw [Tree.dir_eq_some] at hd
    exact GoMap.mem_keys.2 (by rw [show tree.nodes.get p = _ from hd]; rfl)
  have hcount := length_filter_visit hmem hv
  have hle : Traversal.Le tree scope t
      { t with scan := scan, visited := p :: t.visited, pending := pending } :=
    ⟨hf, fun d hd => mem_cons_of_mem p hd⟩
  refine ⟨⟨h.sound.trans hf, fun d hd => ?_, fun d hd => ?_, fun d hd hnp hb => ?_⟩, hle, hrec,
    fun _ => mem_cons_self, ?_⟩
  · rcases mem_cons.1 hd with rfl | hd
    · exact ⟨hp, hrec⟩
    · exact ⟨(h.visited d hd).1, hf.records (h.visited d hd).2⟩
  · rcases hset with ⟨rfl, -⟩ | rfl
    · exact mem_cons_of_mem p (h.pending d hd)
    · rcases mem_append.1 hd with hd | hd
      · exact mem_cons_of_mem p (h.pending d hd)
      · rw [mem_singleton.1 hd]
        exact mem_cons_self
  · rcases hset with ⟨rfl, hall⟩ | rfl
    · rcases mem_cons.1 hd with rfl | hd
      · exact .inl hall
      · exact (h.settled d hd hnp hb).le hle
    · simp only [mem_append, mem_singleton, not_or] at hnp
      exact (h.settled d ((mem_cons.1 hd).resolve_left hnp.2) hnp.1 hb).le hle
  · simp only [Traversal.remaining]
    rcases hset with ⟨rfl, -⟩ | rfl
    · omega
    · simp only [length_append, length_cons, length_nil]
      omega

section

variable (hc : cache.Valid tree) (hscope : ∀ p q, scope p → scope (p ++ q))
include hc hscope

theorem meetDir_spec (h : t.Inv tree scope busy) (hp : scope p) (hd : tree.dir p = some e) :
    Met tree scope busy t (meetDir cache p e t) p := by
  have hput := h.sound.addDir hd
  have hf := hput.fills hp
  unfold meetDir enqueueDir
  rw [Scan.addDirETag_addDir]
  by_cases hv : p ∈ t.visited
  · rw [if_pos hv]
    exact Met.of_scan h hf hput.records fun _ => hv
  rw [if_neg hv]
  split_ifs with hcopy
  · -- the directory has not changed: its subtree is copied
    obtain ⟨hf', hall⟩ :=
      copyPreviousSubtree_spec hc hcopy.1 hcopy.2 hd (fun q => hscope p q hp) (h.sound.trans hf)
    exact Met.visit h (hf.trans hf') hp hd (hf'.records hput.records) hv (.inl ⟨rfl, hall⟩)
  · exact Met.visit h hf hp hd hput.records hv (.inr rfl)

theorem meet_spec (h : t.Inv tree scope busy) (hp : scope p) : Met tree scope busy t (meet cache tree t p) p := by
  unfold meet
  split
  · next e hg => exact meetDir_spec hc hscope h hp (Tree.dir_eq_some.2 hg)
  · next f hg =>
    have hput := h.sound.addFile (Tree.file_eq_some.2 hg)
    refine Met.of_scan h (hput.fills hp) hput.records fun hd => ?_
    obtain ⟨tag, ht⟩ := Tree.isDir_iff.1 hd
    rw [ht] at hg
    cases hg
  · next hg =>
    refine Met.of_scan h .refl (h.sound.records_of_get (by simp [hg])) fun hd => ?_
    simp [Tree.isDir, Tree.dir, hg] at hd

theorem foldl_meet_spec {l : List Path} (hl : ∀ p ∈ l, scope p) (h : t.Inv tree scope busy) :
    (l.foldl (meet cache tree) t).Inv tree scope busy ∧
      Traversal.Le tree scope t (l.foldl (meet cache tree) t) ∧
      (∀ p ∈ l, (l.foldl (meet cache tree) t).scan.Records tree p ∧
        (tree.isDir p = true → p ∈ (l.foldl (meet cache tree) t).visited)) ∧
      (l.foldl (meet cache tree) t).remaining tree ≤ t.remaining tree := by
  induction l generalizing t with
  | nil => exact ⟨h, .refl t, nofun, Nat.le_refl _⟩
  | cons a l ih =>
    have ha := meet_spec hc hscope h (hl a mem_cons_self)
    obtain ⟨h₁, h₂, h₃, h₄⟩ := ih (fun p hp => hl p (mem_cons_of_mem a hp)) ha.inv
    refine ⟨h₁, ha.le.trans h₂, fun p hp => ?_, h₄.trans ha.remaining⟩
    rcases mem_cons.1 hp with rfl | hp
    · exact ⟨h₂.fills.records ha.records, fun hd => h₂.visited _ (ha.visits hd)⟩
    · exact h₃ p hp

end

end

/-! Listings that fail are noted, and never forgotten. -/

theorem meet_indexErrors : (meet cache tree t p).indexErrors = t.indexErrors := by
  unfold meet meetDir enqueueDir
  repeat' split
  all_goals rfl

theorem foldl_meet_indexErrors (l : List Path) :
    (l.foldl (meet cache tree) t).indexErrors = t.indexErrors := by
  induction l generalizing t with
  | nil => rfl
  | cons a l ih => rw [foldl_cons, ih, meet_indexErrors]

section

variable {provider : Provider} {order : ℕ → ℕ}

theorem inspectStart_of_no_errors (h : (inspectStart cache provider t p).indexErrors = []) :
    t.indexErrors = [] ∧ inspectStart cache provider t p = meet cache provider.tree t p := by
  unfold inspectStart at h ⊢
  split_ifs at h ⊢ with hp
  rw [meet_indexErrors] at h
  exact ⟨h, rfl⟩

theorem foldl_inspectStart_of_no_errors {l : List Path}
    (h : (l.foldl (inspectStart cache provider) t).indexErrors = []) : t.indexErrors = [] ∧
      l.foldl (inspectStart cache provider) t = l.foldl (meet cache provider.tree) t := by
  induction l generalizing t with
  | nil => exact ⟨h, rfl⟩
  | cons a l ih =>
    obtain ⟨h₁, h₂⟩ := ih h
    obtain ⟨h₃, h₄⟩ := inspectStart_of_no_errors h₁
    exact ⟨h₃, by rw [foldl_cons, foldl_cons, ← h₄, h₂]⟩

theorem takeResult_nil (i : ℕ) (h : t.pending = []) : takeResult cache provider i t = t := by
  simp [takeResult, h]

theorem takeResult_of_no_errors (hp : t.pending ≠ [])
    (h : (takeResult cache provider i t).indexErrors = []) :
    ∃ l₁ d l₂, t.pending = l₁ ++ d :: l₂ ∧ t.indexErrors = [] ∧ takeResult cache provider i t =
        (provider.tree.children d).foldl (meet cache provider.tree)
          { t with pending := l₁ ++ l₂ } := by
  have hlt : i % t.pending.length < t.pending.length :=
    Nat.mod_lt _ (length_pos_iff.2 hp)
  refine ⟨t.pending.take (i % t.pending.length), t.pending[i % t.pending.length],
    t.pending.drop (i % t.pending.length + 1), ?_, ?_⟩
  · rw [cons_getElem_drop_succ, take_append_drop]
  · unfold takeResult at h ⊢
    rw [List.getElem?_eq_getElem hlt] at h ⊢
    rw [← eraseIdx_eq_take_drop_succ]
    dsimp only at h ⊢
    split_ifs at h ⊢
    rw [foldl_meet_indexErrors] at h
    exact ⟨h, rfl⟩

theorem drain_of_no_errors (h : (drain cache provider order n t).indexErrors = []) :
    t.indexErrors = [] := by
  induction n generalizing t with
  | zero => exact h
  | succ n ih =>
    have ht := ih h
    by_cases hp : t.pending = []
    · rwa [takeResult_nil _ hp] at ht
    · exact (takeResult_of_no_errors hp ht).choose_spec.choose_spec.choose_spec.2.1

theorem takeResult_spec {i : ℕ} (hc : cache.Valid provider.tree)
    (hscope : ∀ p q, scope p → scope (p ++ q)) (hp : t.pending ≠ [])
    (h : t.Inv provider.tree scope []) (he : (takeResult cache provider i t).indexErrors = []) :
    (takeResult cache provider i t).Inv provider.tree scope [] ∧
      Traversal.Le provider.tree scope t (takeResult cache provider i t) ∧
      (takeResult cache provider i t).remaining provider.tree + 1 ≤ t.remaining provider.tree := by
  obtain ⟨l₁, d, l₂, hpend, -, htake⟩ := takeResult_of_no_errors hp he
  have hmem : d ∈ t.pending := by simp [hpend]
  have hd := h.visited d (h.pending d hmem)
  have hbusy : Traversal.Inv { t with pending := l₁ ++ l₂ } provider.tree scope [d] := by
    refine ⟨h.sound, h.visited, fun q hq => h.pending q ?_, fun q hq hnp hb => ?_⟩
    · rw [hpend]
      rcases mem_append.1 hq with hq | hq <;> simp [hq]
    · refine h.settled q hq (fun hqp => ?_) (by simp)
      rw [hpend] at hqp
      simp only [mem_append, mem_cons, not_or] at hqp hnp hb
      rcases hqp with hqp | hqp | hqp
      · exact hnp.1 hqp
      · exact hb.1 hqp
      · exact hnp.2 hqp
  have hchild : ∀ q ∈ provider.tree.children d, scope q := by
    intro q hq
    obtain ⟨x, rfl, -⟩ := Tree.mem_children.1 hq
    exact hscope d [x] hd.1
  obtain ⟨h₁, h₂, h₃, h₄⟩ := foldl_meet_spec hc hscope hchild hbusy
  rw [htake]
  refine ⟨⟨h₁.sound, h₁.visited, h₁.pending, fun q hq hnp _ => ?_⟩, ⟨h₂.fills, h₂.visited⟩, ?_⟩
  · by_cases hqd : q = d
    · subst hqd
      refine .inr fun x => ⟨h₁.sound.records_of_get fun hx => ?_, fun hdir => ?_⟩
      · exact (h₃ _ (Tree.mem_children.2 ⟨x, rfl, hx⟩)).1
      · obtain ⟨tag, ht⟩ := Tree.isDir_iff.1 hdir
        exact (h₃ _ (Tree.mem_children.2 ⟨x, rfl, by rw [ht]; rfl⟩)).2 hdir
    · exact h₁.settled q hq hnp (by simpa using hqd)
  · have hlen : t.pending.length = (l₁ ++ l₂).length + 1 := by
      rw [hpend]
      simp
      omega
    simp only [Traversal.remaining] at h₄ ⊢
    omega

theorem drain_spec (hc : cache.Valid provider.tree) (hscope : ∀ p q, scope p → scope (p ++ q))
    (h : t.Inv provider.tree scope []) (hn : t.remaining provider.tree ≤ n)
    (he : (drain cache provider order n t).indexErrors = []) :
    (drain cache provider order n t).Inv provider.tree scope [] ∧
      Traversal.Le provider.tree scope t (drain cache provider order n t) ∧
      (drain cache provider order n t).pending = [] := by
  induction n generalizing t with
  | zero =>
    refine ⟨h, .refl t, ?_⟩
    have : t.pending.length = 0 := by
      unfold Traversal.remaining at hn
      omega
    exact length_eq_zero_iff.1 this
  | succ n ih =>
    unfold drain at he ⊢
    by_cases hp : t.pending = []
    · rw [takeResult_nil _ hp] at he ⊢
      -- an empty list of pending directories stays empty
      clear ih hn
      induction n with
      | zero => exact ⟨h, .refl t, hp⟩
      | succ n ih =>
        unfold drain at he ⊢
        rw [takeResult_nil _ hp] at he ⊢
        exact ih he
    · have hstep := takeResult_spec (i := order n) hc hscope hp h (drain_of_no_errors he)
      obtain ⟨h₁, h₂, h₃⟩ := ih hstep.1 (by omega) he
      exact ⟨h₁, hstep.2.1.trans h₂, h₃⟩

theorem Traversal.Inv.records_below (h : t.Inv tree scope []) (hp : t.pending = [])
    (q : Path) : ∀ d ∈ t.visited, t.scan.Records tree (d ++ q) := by
  induction q with
  | nil =>
    intro d hd
    rw [append_nil]
    exact (h.visited d hd).2
  | cons x q ih =>
    intro d hd
    rcases h.settled d hd (by simp [hp]) (by simp) with hall | hchild
    · exact hall (x :: q)
    · obtain ⟨hrec, hvis⟩ := hchild x
      have happ : d ++ x :: q = (d ++ [x]) ++ q := by simp
      rw [happ]
      by_cases hq : q = []
      · subst hq
        rwa [append_nil]
      · -- there is something below only if the child is a directory
        exact h.sound.records_of_get fun hsome => ih _ (hvis (Tree.isDir_of_below hq hsome))

/-- A traversal without errors reports the tree in the scope of its start paths. -/
theorem listFiles_reports {starts : List Path} (hc : cache.Valid provider.tree)
    (he : (listFiles cache provider order starts).indexErrors = []) :
    (listFiles cache provider order starts).scan.Reports provider.tree (InScope starts) := by
  have hscope : ∀ p q, InScope starts p → InScope starts (p ++ q) := fun p q h => h.below q
  have hstart : ∀ p ∈ starts, InScope starts p := fun p hp => ⟨p, hp, prefix_refl p⟩
  have h₀ : Traversal.Inv {} provider.tree (InScope starts) [] :=
    ⟨.refl, by simp, by simp, by simp⟩
  unfold listFiles at he ⊢
  have hmeet := (foldl_inspectStart_of_no_errors (drain_of_no_errors he)).2
  rw [hmeet] at he ⊢
  obtain ⟨h₁, h₂, h₃, h₄⟩ := foldl_meet_spec hc hscope hstart h₀
  have hn : (starts.foldl (meet cache provider.tree) {}).remaining provider.tree
      ≤ provider.tree.nodes.length := by
    refine h₄.trans ?_
    refine (length_filter_le _ _).trans ?_
    simp [GoMap.keys]
  obtain ⟨k₁, k₂, k₃⟩ := drain_spec hc hscope h₁ hn he
  -- whatever the tree has in scope lies at or below a start path that was met
  have hrec : ∀ p, InScope starts p → (drain cache provider order provider.tree.nodes.length
        (starts.foldl (meet cache provider.tree) {})).scan.Records provider.tree p := by
    rintro _ ⟨s, hs, q, rfl⟩
    by_cases hq : q = []
    · subst hq
      rw [append_nil]
      exact k₂.fills.records (h₃ s hs).1
    · exact k₁.sound.records_of_get fun hsome =>
        k₁.records_below k₃ q s (k₂.visited _ ((h₃ s hs).2 (Tree.isDir_of_below hq hsome)))
  exact .of_records k₁.sound hrec

end

end

end Clumoove.Sync
