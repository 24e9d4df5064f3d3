import Mathlib.Algebra.Order.Ring.Int
import Clumoove.Lib.GoMap
import Clumoove.Lib.Lru

/-! `boundedDirCache` of `bounded_cache.go`. Every method runs under the cache's lock; `none` stands for a
slice index out of range. -/

namespace Clumoove.Storage

open List

structure BoundedDirCache where
  m : GoMap String Bool := []
  order : List String := []
  index : GoMap String ℕ := []
  maxCap : ℤ

def newBoundedDirCache (maxCap : ℤ) : BoundedDirCache := { maxCap := if maxCap ≤ 0 then 5000 else maxCap }

/-- `for i := position; i < len(order); i++ { index[order[i]] = i }`, given the entries from `position` on. -/
def renumber (index : GoMap String ℕ) (position : ℕ) : List String → GoMap String ℕ
  | [] => index
  | entry :: rest => renumber (index.set entry position) (position + 1) rest

/-- `copy(order[position:], order[position+1:])`: the last entry is then there twice. -/
def copyDown (order : List String) (position : ℕ) : Option (List String) :=
  if position + 1 ≤ order.length then
    some (order.take position ++ order.drop (position + 1) ++ order.drop (order.length - 1))
  else none

namespace BoundedDirCache

def touch (c : BoundedDirCache) (key : String) : Option BoundedDirCache :=
  let position := (c.index.get key).getD 0
  if position + 1 = c.order.length then some c
  else (copyDown c.order position).map fun copied =>
    let order := copied.set (c.order.length - 1) key
    { c with order, index := renumber c.index position (order.drop position) }

def Contains (c : BoundedDirCache) (key : String) : Option (Bool × BoundedDirCache) :=
  if (c.m.get key).getD false then (c.touch key).map (true, ·) else some (false, c)

/-- The part of `Add` that makes room. -/
def evict (c : BoundedDirCache) : Option BoundedDirCache :=
  c.order.head?.map fun oldest =>
    { c with
      m := c.m.erase oldest
      order := c.order.drop 1
      index := renumber (c.index.erase oldest) 0 (c.order.drop 1) }

def Add (c : BoundedDirCache) (key : String) : Option BoundedDirCache :=
  if (c.m.get key).getD false then c.touch key
  else (if c.maxCap ≤ c.m.length then c.evict else some c).map fun c =>
    { c with
      m := c.m.set key true
      index := c.index.set key c.order.length
      order := c.order ++ [key] }

def Remove (c : BoundedDirCache) (key : String) : Option BoundedDirCache :=
  match c.index.get key with
  | none => some c
  | some position => (copyDown c.order position).map fun copied =>
    let order := copied.take (c.order.length - 1)
    { c with
      m := c.m.erase key
      order
      index := renumber (c.index.erase key) position (order.drop position) }

def call (c : BoundedDirCache) : Lru.Op String → Option (Option Bool × BoundedDirCache)
  | .add key => (c.Add key).map (none, ·)
  | .find key => (c.Contains key).map fun r => (some r.1, r.2)
  | .remove key => (c.Remove key).map (none, ·)

def run (c : BoundedDirCache) (ops : List (Lru.Op String)) : Option (List (Option Bool) × BoundedDirCache) :=
  ops.foldlM (fun s op => (s.2.call op).map fun r => (s.1 ++ [r.1], r.2)) ([], c)

end BoundedDirCache

end Clumoove.Storage
