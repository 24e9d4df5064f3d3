import Clumoove.Spec.Hashers

/-! The hashers of Dropbox and HiDrive compute the hashes as they are defined, however the data is cut
into writes and whenever a digest is asked for. For HiDrive the levels are a number of base 256: each
holds the nodes that do not make up a full group yet. -/

namespace Clumoove.Hashing

open Bytes Blocks List

variable {data : Bytes}

theorem run_eq_digests (h : Hasher) (hash : Bytes → Bytes) (holds : Bytes → h.State → Prop)
    (hnew : holds [] h.new) (hwrite : ∀ data p s, holds data s → holds (data ++ p) (h.write p s))
    (hsum : ∀ data s, holds data s → h.sum s = (hash data, s)) (calls : List HashCall) :
    h.run calls h.new = digests hash calls [] := by
  have hrun : ∀ data s, holds data s → h.run calls s = digests hash calls data := by
    induction calls with
    | nil => exact fun _ _ _ => rfl
    | cons call calls ih =>
      intro data s hs
      cases call with
      | write p => exact ih _ _ (hwrite data p s hs)
      | sum =>
        rw [Hasher.run, digests, hsum data s hs]
        exact congrArg _ (ih data s hs)
  exact hrun [] h.new hnew

section Dropbox

variable (sha256 : Bytes → Bytes)

def DropboxHasher.Holds (data : Bytes) (dh : DropboxHasher) : Prop :=
  ∃ full, Filled dropboxBlockSize (fun hashes block => hashes ++ sha256 block) [] data full
    (dh.currentBlock, dh.concatenatedHashes)

theorem dropbox_sum {dh : DropboxHasher} (h : dh.Holds sha256 data) :
    dh.sum sha256 = (dropboxHash sha256 data, dh) := by
  obtain ⟨full, h⟩ := h
  have hstate : dh.concatenatedHashes = full.flatMap sha256 := by
    have hfold : ∀ (full : List Bytes) (hashes : Bytes),
        full.foldl (fun hashes block => hashes ++ sha256 block) hashes =
          hashes ++ full.flatMap sha256 := by
      intro full
      induction full with
      | nil => simp
      | cons block full ih =>
        intro hashes
        rw [foldl_cons, ih, flatMap_cons, append_assoc]
    exact h.state.trans (hfold full [])
  have hchunks := chunks_flatten (by decide) h.size h.short
  rw [h.data_eq] at hchunks
  rw [dropboxHash, hchunks, flatMap_append, ← hstate]
  unfold DropboxHasher.sum
  cases hb : dh.currentBlock with
  | nil => by_cases hempty : dh.concatenatedHashes = [] <;> simp [hempty]
  | cons b block => simp

/-- `DropboxHasher`. -/
theorem dropbox_hash_is_content_hash (calls : List HashCall) :
    (dropboxHasher sha256).run calls (dropboxHasher sha256).new =
      digests (dropboxHash sha256) calls [] := by
  apply run_eq_digests _ _ (DropboxHasher.Holds sha256)
  · exact ⟨[], rfl, by simp, (by decide : 0 < dropboxBlockSize), rfl⟩
  · intro data p dh h
    obtain ⟨full, h⟩ := h
    exact h.fill le_rfl
  · exact fun data dh h => dropbox_sum sha256 h

end Dropbox

section HiDrive

variable {sha1 : Sha1}

theorem addHiDriveModulo_carry (h : dst.length = src.length) :
    (addHiDriveModulo dst src).1.length = dst.length ∧
      readBE (addHiDriveModulo dst src).1 + (addHiDriveModulo dst src).2 * 256 ^ dst.length =
        readBE dst + readBE src := by
  induction dst generalizing src with
  | nil =>
    cases src with
    | nil => exact ⟨rfl, rfl⟩
    | cons s src => cases h
  | cons d dst ih =>
    cases src with
    | nil => cases h
    | cons s src =>
      obtain ⟨hlen, hsum⟩ := ih (Nat.succ.inj h)
      have hlen' : dst.length = src.length := Nat.succ.inj h
      refine ⟨congrArg Nat.succ hlen, ?_⟩
      simp only [addHiDriveModulo, readBE, hlen, ← hlen', UInt8.toNat_ofNat', length_cons]
      generalize (addHiDriveModulo dst src).2 = carry at hsum ⊢
      have hdiv := Nat.mod_add_div (d.toNat + s.toNat + carry) 256
      calc
        _ = ((d.toNat + s.toNat + carry) % 256 + 256 * ((d.toNat + s.toNat + carry) / 256)) *
            256 ^ dst.length + readBE (addHiDriveModulo dst src).1 := by ring
        _ = d.toNat * 256 ^ dst.length + s.toNat * 256 ^ dst.length +
            (readBE (addHiDriveModulo dst src).1 + carry * 256 ^ dst.length) := by rw [hdiv]; ring
        _ = _ := by rw [hsum]; ring

theorem addHiDriveModulo_eq (h : src.length = 20) :
    (addHiDriveModulo (be 20 n) src).1 = be 20 (n + readBE src) := by
  obtain ⟨hlen, hsum⟩ := addHiDriveModulo_carry ((be_length 20 n).trans h.symm)
  rw [be_length] at hlen hsum
  have hbytes := be_readBE (addHiDriveModulo (be 20 n) src).1
  rw [hlen] at hbytes
  rw [← hbytes, ← be_mul_add le_rfl (addHiDriveModulo (be 20 n) src).2, Nat.add_comm, hsum,
    readBE_be_mod, ← Nat.div_add_mod' n (256 ^ 20), Nat.add_assoc, be_mul_add le_rfl]
  simp

theorem zeroNode_eq : zeroNode = be 20 0 := by decide

theorem combine_nil : combine sha1 [] = zeroNode := zeroNode_eq.symm

theorem push_combine (group : List Bytes) (node : Bytes) :
    HiDriveHashLevel.push sha1 ⟨combine sha1 group, group.length⟩ node =
      ⟨combine sha1 (group ++ [node]), (group ++ [node]).length⟩ := by
  have hsum : combine sha1 (group ++ [node]) =
      be 20 ((group.zipIdx.map (share sha1)).sum + share sha1 (node, group.length)) := by
    simp [combine, zipIdx_append]
  rw [HiDriveHashLevel.push, hsum, length_append, share]
  split_ifs
  · rfl
  · rw [combine, addHiDriveModulo_eq (by simp)]
    rfl

variable (sha1) in
/-- The levels that some nodes lead to, and the node that was added last. -/
inductive Levels : List Bytes → List HiDriveHashLevel → Bytes → Prop
  | nil : Levels [] [] zeroNode
  | cons {nodes rest levels last} {full : List (List Bytes)} : nodes ≠ [] → full.flatten ++ rest = nodes →
      (∀ group ∈ full, group.length = 256) → rest.length < 256 →
      Levels (full.map (combine sha1)) levels last →
      Levels nodes (⟨combine sha1 rest, rest.length⟩ :: levels) (rest.getLastD last)

namespace Levels

variable {nodes : List Bytes} {levels : List HiDriveHashLevel} {last : Bytes}

theorem add (h : Levels sha1 nodes levels last) (node : Bytes) :
    Levels sha1 (nodes ++ [node]) (add sha1 levels node).1 (add sha1 levels node).2 := by
  induction h generalizing node with
  | nil =>
    have hpush := @push_combine sha1 [] node
    rw [combine_nil] at hpush
    change Levels sha1 [node] [HiDriveHashLevel.push sha1 ⟨zeroNode, ([] : List Bytes).length⟩ node] node
    rw [hpush]
    exact .cons (by simp) (rfl : ([] : List (List Bytes)).flatten ++ [node] = _) (by simp) (by simp) .nil
  | @cons nodes rest levels last full _ hnodes hfull hrest htail ih =>
    unfold Hashing.add
    rw [push_combine, ← hnodes, append_assoc]
    simp only
    split_ifs with hcount
    · have h := Levels.cons (by simp) rfl hfull hcount htail
      rwa [getLastD_concat] at h
    · -- the group is full, and its node goes to the next level
      have hgroup : (rest ++ [node]).length = 256 := by
        rw [length_append, length_singleton] at hcount ⊢
        omega
      have hup := ih (combine sha1 (rest ++ [node]))
      rw [← combine_nil]
      refine .cons (by simp) ?_ ?_ (by decide) (map_append ▸ hup : Levels sha1
        ((full ++ [rest ++ [node]]).map (combine sha1)) _ _)
      · simp
      · intro group hmem
        rcases mem_append.1 hmem with hmem | hmem
        · exact hfull group hmem
        · rw [mem_singleton.1 hmem, hgroup]

theorem length_flatten_append {full : List (List Bytes)}
    (hfull : ∀ group ∈ full, group.length = 256) :
    (full.flatten ++ rest).length = full.length * 256 + rest.length := by
  rw [length_append, length_flatten, map_congr_left hfull, map_const', sum_replicate_nat]

theorem length_lt (h : Levels sha1 nodes levels last) : nodes.length < 256 ^ levels.length := by
  induction h with
  | nil => exact Nat.one_pos
  | @cons _ rest levels last full _ hnodes hfull hrest _ ih =>
    rw [length_map] at ih
    rw [← hnodes, length_flatten_append hfull, length_cons, pow_succ]
    omega

theorem finish_short (h : Levels sha1 nodes levels last) (hlt : nodes.length < 256) (fuel : ℕ) :
    finish sha1 (fuel + 1) levels last = top sha1 nodes := by
  cases h with
  | nil =>
    rw [top]
    rfl
  | @cons _ rest levels last full hne hnodes hfull hrest htail =>
    rw [← hnodes, length_flatten_append hfull] at hlt
    obtain rfl : full = [] := length_eq_zero_iff.1 (by omega)
    rw [flatten_nil, nil_append] at hnodes
    subst hnodes
    cases htail with
    | cons h => exact absurd rfl h
    | nil =>
      simp only [Hashing.finish]
      rw [top]
      split_ifs with hcount
      · have hone := chunks_flatten (by decide) hfull hrest
        rw [flatten_nil, nil_append, if_neg hne] at hone
        rw [parents, hone, top]
        rfl
      · obtain ⟨node, rfl⟩ : ∃ node, rest = [node] := by
          have := length_pos_iff.2 hne
          exact length_eq_one_iff.1 (by omega)
        rfl

theorem finish (h : Levels sha1 nodes levels last) {fuel : ℕ} (hf : nodes.length ≤ 255 * 256 ^ fuel) :
    finish sha1 (fuel + 1) levels last = top sha1 nodes := by
  induction fuel generalizing nodes levels last with
  | zero => exact h.finish_short (by omega) 0
  | succ fuel ih =>
    by_cases hlt : nodes.length < 256
    · exact h.finish_short hlt _
    cases h with
    | nil => exact absurd (by decide) hlt
    | @cons _ rest levels last full hne hnodes hfull hrest htail =>
      rw [← hnodes, length_flatten_append hfull] at hlt hf
      have hparents : parents sha1 nodes =
          full.map (combine sha1) ++ if rest = [] then [] else [combine sha1 rest] := by
        rw [parents, ← hnodes, chunks_flatten (by decide) hfull hrest]
        split_ifs <;> simp
      rw [top, if_pos (by rw [← hnodes, length_flatten_append hfull]; omega), hparents]
      have hlevels : levels ≠ [] := by
        rintro rfl
        have := htail.length_lt
        simp at this
        simp [this] at hlt
        omega
      obtain ⟨l, ls, rfl⟩ := exists_cons_of_ne_nil hlevels
      rw [Hashing.finish]
      · cases rest with
        | nil =>
          rw [if_neg (by simp), if_pos rfl, append_nil]
          exact ih htail (by rw [length_map]; simp at hf; omega)
        | cons node rest =>
          exact ih (htail.add _) (by rw [length_append, length_map]; simp at hf ⊢; omega)
      · simp

end Levels

def HiDriveHasher.Holds (sha1 : Sha1) (data : Bytes) (h : HiDriveHasher) : Prop :=
  ∃ full, Filled hiDriveHashBlockSize (commitBlock sha1) ([], zeroNode) data full
    (h.block, h.levels, h.last)

theorem levels_of_blocks (full : List Bytes) (h : Levels sha1 nodes levels last) :
    Levels sha1 (nodes ++ full.map (hiDriveNode sha1))
      (full.foldl (commitBlock sha1) (levels, last)).1 (full.foldl (commitBlock sha1) (levels, last)).2 := by
  induction full generalizing nodes levels last with
  | nil => rwa [map_nil, append_nil]
  | cons block full ih =>
    have h := ih (h.add (hiDriveNode sha1 block))
    rwa [append_assoc] at h

theorem padded_full (h : block.length = hiDriveHashBlockSize) : padded block = block := by
  rw [padded, h, Nat.sub_self, replicate_zero, append_nil]

theorem hiDrive_sum {h : HiDriveHasher} (hh : h.Holds sha1 data) :
    h.sum sha1 = (hiDriveHash sha1 data, h) := by
  obtain ⟨full, hh⟩ := hh
  have hlevels := levels_of_blocks full (.nil : Levels sha1 [] [] zeroNode)
  rw [← hh.state, nil_append] at hlevels
  have hnodes : (chunks hiDriveHashBlockSize data).map (fun block => hiDriveNode sha1 (padded block)) =
      full.map (hiDriveNode sha1) ++ if h.block = [] then [] else [hiDriveNode sha1 (padded h.block)] := by
    rw [← hh.data_eq, chunks_flatten (by decide) hh.size hh.short, map_append]
    congr 1
    · exact map_congr_left fun block hb => by rw [padded_full (hh.size block hb)]
    · split_ifs <;> rfl
  have hfinish {nodes : List Bytes} {levels : List HiDriveHashLevel} {last : Bytes}
      (hl : Levels sha1 nodes levels last) : finish sha1 (levels.length + 1) levels last = top sha1 nodes := by
    apply hl.finish
    have := hl.length_lt
    omega
  rw [hiDriveHash, hnodes]
  unfold HiDriveHasher.sum
  cases hb : h.block with
  | nil =>
    simp only [length_nil, Nat.lt_irrefl, if_false, if_true, append_nil]
    rw [hfinish hlevels]
  | cons b block =>
    simp only [length_cons, Nat.succ_pos, if_true, reduceCtorEq, if_false]
    rw [commitBlock, hfinish (hlevels.add _)]

/-- `HiDriveHasher`. -/
theorem hiDrive_hash_is_tree_hash (sha1 : Sha1) (calls : List HashCall) :
    (hiDriveHasher sha1).run calls (hiDriveHasher sha1).new = digests (hiDriveHash sha1) calls [] := by
  apply run_eq_digests _ _ (HiDriveHasher.Holds sha1)
  · exact ⟨[], rfl, by simp, (by decide : 0 < hiDriveHashBlockSize), rfl⟩
  · intro data p h hh
    obtain ⟨full, hh⟩ := hh
    exact hh.fill le_rfl
  · exact fun data h hh => hiDrive_sum hh

end HiDrive

end Clumoove.Hashing
