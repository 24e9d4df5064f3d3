import Clumoove.Lib.Blocks

/-! The hashes of Dropbox and HiDrive, as they are computed while the data comes in, and as they are
defined on the data as a whole. SHA-1 and SHA-256 are parameters. -/

namespace Clumoove.Hashing

open Bytes Blocks

abbrev Bytes := List UInt8

/-- A `hash.Hash`. `Sum` returns the digest and what it leaves of the hasher. -/
structure Hasher where
  State : Type
  new : State
  write : Bytes → State → State
  sum : State → Bytes × State

inductive HashCall
  | write (p : Bytes)
  | sum

def Hasher.run (h : Hasher) : List HashCall → h.State → List Bytes
  | [], _ => []
  | .write p :: calls, s => h.run calls (h.write p s)
  | .sum :: calls, s => (h.sum s).1 :: h.run calls (h.sum s).2

/-- What they are to return: each `Sum` the hash of all that has been written before it. -/
def digests (hash : Bytes → Bytes) : List HashCall → Bytes → List Bytes
  | [], _ => []
  | .write p :: calls, data => digests hash calls (data ++ p)
  | .sum :: calls, data => hash data :: digests hash calls data

section Dropbox

variable (sha256 : Bytes → Bytes)

def dropboxBlockSize : ℕ := 4 * 1024 * 1024

structure DropboxHasher where
  /-- What has been written to the hasher of the current block since its last `Reset`, of which
  `currentBlockSize` is the length. -/
  currentBlock : Bytes := []
  concatenatedHashes : Bytes := []

namespace DropboxHasher

def write (p : Bytes) (dh : DropboxHasher) : DropboxHasher :=
  let (block, hashes) := fill dropboxBlockSize (fun hashes block => hashes ++ sha256 block) p.length p
    (dh.currentBlock, dh.concatenatedHashes)
  { currentBlock := block, concatenatedHashes := hashes }

def sum (dh : DropboxHasher) : Bytes × DropboxHasher :=
  if dh.concatenatedHashes.length = 0 ∧ dh.currentBlock.length = 0 then (sha256 [], dh)
  else
    let concat := dh.concatenatedHashes
    let concat := if 0 < dh.currentBlock.length then concat ++ sha256 dh.currentBlock else concat
    (sha256 concat, dh)

end DropboxHasher

def dropboxHasher : Hasher := ⟨DropboxHasher, {}, DropboxHasher.write sha256, DropboxHasher.sum sha256⟩

def dropboxHash (data : Bytes) : Bytes :=
  sha256 ((chunks dropboxBlockSize data).flatMap sha256)

end Dropbox

section HiDrive

abbrev Sha1 := Bytes → Vector UInt8 20

variable (sha1 : Sha1)

def hiDriveHashBlockSize : ℕ := 4096

def zeroNode : Bytes := List.replicate 20 0

/-- `addHiDriveModulo`, from the last byte to the first, with the carry that is left. -/
def addHiDriveModulo : Bytes → Bytes → Bytes × ℕ
  | d :: dst, s :: src =>
    let (sum, carry) := addHiDriveModulo dst src
    let v := d.toNat + s.toNat + carry
    (UInt8.ofNat v :: sum, v / 256)
  | _, _ => ([], 0)

structure HiDriveHashLevel where
  sum : Bytes := zeroNode
  count : ℕ := 0

def HiDriveHashLevel.push (l : HiDriveHashLevel) (node : Bytes) : HiDriveHashLevel where
  sum :=
    if node = zeroNode then l.sum
    else (addHiDriveModulo l.sum (sha1 (node ++ [UInt8.ofNat l.count])).toList).1
  count := l.count + 1

/-- `add`, on the levels from its own on, with the node it adds last. -/
def add : List HiDriveHashLevel → Bytes → List HiDriveHashLevel × Bytes
  | [], node => ([HiDriveHashLevel.push sha1 {} node], node)
  | l :: levels, node =>
    let l := l.push sha1 node
    if l.count < 256 then (l :: levels, node)
    else
      let (levels, last) := add levels l.sum
      ({} :: levels, last)

def hiDriveNode (block : Bytes) : Bytes :=
  if block.all (· = 0) then zeroNode else (sha1 block).toList

def commitBlock (s : List HiDriveHashLevel × Bytes) (block : Bytes) : List HiDriveHashLevel × Bytes :=
  add sha1 s.1 (hiDriveNode sha1 block)

structure HiDriveHasher where
  block : Bytes := []
  levels : List HiDriveHashLevel := []
  last : Bytes := zeroNode

def padded (block : Bytes) : Bytes :=
  block ++ List.replicate (hiDriveHashBlockSize - block.length) 0

/-- The loop of `Sum` from some level on. At most one level is added while it runs. -/
def finish : ℕ → List HiDriveHashLevel → Bytes → Bytes
  | 0, _, _ | _ + 1, [], _ => zeroNode
  | _ + 1, [l], last => if 1 < l.count then l.sum else last
  | fuel + 1, l :: levels, last =>
    if 0 < l.count then
      let (levels, last) := add sha1 levels l.sum
      finish fuel levels last
    else finish fuel levels last

namespace HiDriveHasher

def write (p : Bytes) (h : HiDriveHasher) : HiDriveHasher :=
  let (block, levels, last) := fill hiDriveHashBlockSize (commitBlock sha1) p.length p
    (h.block, h.levels, h.last)
  { block, levels, last }

def sum (h : HiDriveHasher) : Bytes × HiDriveHasher :=
  let (levels, last) :=
    if 0 < h.block.length then commitBlock sha1 (h.levels, h.last) (padded h.block)
    else (h.levels, h.last)
  (finish sha1 (levels.length + 1) levels last, h)

end HiDriveHasher

def hiDriveHasher : Hasher := ⟨HiDriveHasher, {}, HiDriveHasher.write sha1, HiDriveHasher.sum sha1⟩

/-- What a node at an index adds to its group. -/
def share (x : Bytes × ℕ) : ℕ :=
  if x.1 = zeroNode then 0 else readBE (sha1 (x.1 ++ [UInt8.ofNat x.2])).toList

/-- The node of a group: the sum, modulo `2 ^ 160`, of the SHA-1 of each node that is not zero,
followed by its index. -/
def combine (group : List Bytes) : Bytes := be 20 (group.zipIdx.map (share sha1)).sum

def parents (nodes : List Bytes) : List Bytes := (chunks 256 nodes).map (combine sha1)

theorem length_parents_lt {nodes : List Bytes} (h : 1 < nodes.length) :
    (parents sha1 nodes).length < nodes.length := by
  have hne : nodes ≠ [] := List.ne_nil_of_length_pos (Nat.zero_lt_of_lt h)
  have hrest := length_chunks_le 256 (nodes.drop 256)
  rw [parents, List.length_map, chunks_cons (by decide) hne, List.length_cons]
  rw [List.length_drop] at hrest
  omega

/-- The single node of the first level that has only one. -/
def top (nodes : List Bytes) : Bytes :=
  if 1 < nodes.length then top (parents sha1 nodes) else nodes.headD zeroNode
termination_by nodes.length
decreasing_by exact length_parents_lt sha1 ‹_›

def hiDriveHash (data : Bytes) : Bytes :=
  top sha1 ((chunks hiDriveHashBlockSize data).map fun block => hiDriveNode sha1 (padded block))

end HiDrive

end Clumoove.Hashing
