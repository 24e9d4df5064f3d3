import Mathlib.Data.List.TakeWhile

/-! Slash-separated paths as Go's package `path` handles them: `Clean`, `Join`, `Split`, `Base`,
`Dir` and `Ext`, and what a path denotes from the root once its dot segments are resolved. -/

namespace GoPath

open List

variable {s parts l t : List (List Char)} {p part n q : List Char} {f : List Char → List Char}

instance lawfulText : LawfulBEq (List Char) := inferInstance

/-- One step of `Clean`: the kept elements are a stack with the last one on top. -/
def push (rooted : Bool) (stack : List (List Char)) (part : List Char) : List (List Char) :=
  if part = [] ∨ part = ['.'] then stack
  else if part = ['.', '.'] then
    match stack with
    | [] => if rooted then [] else [part]
    | top :: rest => if top = ['.', '.'] then part :: top :: rest else rest
  else part :: stack

def rooted (p : List Char) : Bool := p.head? = some '/'

/-- The elements that remain of a path, last one first. -/
def stack (p : List Char) : List (List Char) := (p.splitOn '/').foldl (push (rooted p)) []

/-- The text of a stack of elements. -/
def render (rooted : Bool) (stack : List (List Char)) : List Char :=
  let body := List.intercalate ['/'] stack.reverse
  if rooted then '/' :: body else if body = [] then ['.'] else body

def clean (p : List Char) : List Char :=
  if p = [] then ['.'] else render (rooted p) (stack p)

def join (parts : List (List Char)) : List Char :=
  let parts := parts.filter (· ≠ [])
  if parts = [] then [] else clean (List.intercalate ['/'] parts)

/-- The code points `strings.TrimSpace` removes. -/
def isSpace (c : Char) : Bool :=
  c.toNat ∈ [9, 10, 11, 12, 13, 32, 0x85, 0xA0, 0x1680, 0x2028, 0x2029, 0x202F, 0x205F, 0x3000] ∨
    (0x2000 ≤ c.toNat ∧ c.toNat ≤ 0x200A)

/-- An element that `Clean` keeps as it is. -/
structure Plain (name : List Char) : Prop where
  noSlash : '/' ∉ name
  notEmpty : name ≠ []
  notDot : name ≠ ['.']
  notDotDot : name ≠ ['.', '.']

theorem splitOn_plain (h : Plain name) : name.splitOn '/' = [name] :=
  splitOn_eq_singleton h.noSlash

theorem push_plain (h : Plain name) (rooted : Bool) (s : List (List Char)) :
    push rooted s name = name :: s := by
  simp [push, h.notEmpty, h.notDot, h.notDotDot]

theorem rooted_append (hp : p ≠ []) (q : List Char) : rooted (p ++ q) = rooted p := by
  cases p with
  | nil => exact absurd rfl hp
  | cons c p => rfl

theorem intercalate_append {a b : List (List Char)} (ha : a ≠ []) (hb : b ≠ []) :
    List.intercalate ['/'] (a ++ b)
      = List.intercalate ['/'] a ++ '/' :: List.intercalate ['/'] b := by
  induction a with
  | nil => exact absurd rfl ha
  | cons x a ih =>
    cases a with
    | nil =>
      cases b with
      | nil => exact absurd rfl hb
      | cons y b => simp [intercalate_cons_cons]
    | cons y a =>
      rw [cons_append, cons_append, intercalate_cons_cons, ← cons_append,
        ih (cons_ne_nil _ _), intercalate_cons_cons]
      simp

/-- The text in front of the last element: nothing, or something that ends in a slash. -/
def IsDir (dir : List Char) : Prop := dir = [] ∨ ∃ d, dir = d ++ ['/']

theorem slash_not_mem_of_mem_splitOn (h : part ∈ p.splitOn '/') : '/' ∉ part := by
  induction hn : p.length using Nat.strongRecOn generalizing p with
  | _ n ih =>
    by_cases hs : '/' ∈ p
    · obtain ⟨u, v, rfl, hu⟩ := eq_append_cons_of_mem hs
      rw [splitOn_append_cons_self, splitOn_eq_singleton hu] at h
      rcases mem_append.1 h with h | h
      · rw [mem_singleton.1 h]
        exact hu
      · refine ih v.length ?_ h rfl
        rw [← hn, length_append, length_cons]
        omega
    · rw [splitOn_eq_singleton hs, mem_singleton] at h
      exact h ▸ hs

/-! Dot segments. -/

/-- The elements a path names from the root, last one first. -/
def resolve (p : List Char) : List (List Char) := (p.splitOn '/').foldl (push true) []

/-- The elements by which a path leads on from where it starts, last one first; `..` is among them
if it leads out of there. -/
def descent (p : List Char) : List (List Char) := (p.splitOn '/').foldl (push false) []

/-- The names of a stack are plain, and the steps up lie at its bottom. -/
inductive Normal : List (List Char) → Prop
  | ups (n : ℕ) : Normal (List.replicate n ['.', '.'])
  | name {n : List Char} {s : List (List Char)} : Plain n → Normal s → Normal (n :: s)

theorem Normal.nil : Normal [] := .ups 0

theorem push_dot (h : part = [] ∨ part = ['.']) (r : Bool)
    (s : List (List Char)) : push r s part = s := if_pos h

theorem push_up_name (h : Plain n) (r : Bool) (s : List (List Char)) :
    push r (n :: s) ['.', '.'] = s := by
  simp [push, h.notDotDot]

theorem push_up_ups (r : Bool) (n : ℕ) :
    ∃ m, push r (List.replicate n ['.', '.']) ['.', '.'] = List.replicate m ['.', '.'] := by
  cases n with
  | zero =>
    cases r with
    | false => exact ⟨1, rfl⟩
    | true => exact ⟨0, rfl⟩
  | succ n => exact ⟨n + 2, rfl⟩

/-- What a path is made of: nothing or a dot, a step up, or a name. -/
theorem part_cases (h : '/' ∉ part) :
    (part = [] ∨ part = ['.']) ∨ part = ['.', '.'] ∨ Plain part := by
  by_cases hdot : part = [] ∨ part = ['.']
  · exact .inl hdot
  · by_cases hup : part = ['.', '.']
    · exact .inr (.inl hup)
    · exact .inr (.inr ⟨h, fun h => hdot (.inl h), fun h => hdot (.inr h), hup⟩)

theorem Normal.push (h : Normal s) (hp : '/' ∉ part) (r : Bool) : Normal (push r s part) := by
  rcases part_cases hp with hdot | rfl | hname
  · rwa [push_dot hdot]
  · cases h with
    | ups n =>
      obtain ⟨m, hm⟩ := push_up_ups r n
      rw [hm]
      exact .ups m
    | name hn hs => rwa [push_up_name hn]
  · rw [push_plain hname]
    exact .name hname h

theorem Normal.foldl (hparts : ∀ part ∈ parts, '/' ∉ part)
    (h : Normal s) : Normal (parts.foldl (GoPath.push r) s) := by
  induction parts generalizing s with
  | nil => exact h
  | cons part parts ih =>
    refine ih (fun q hq => hparts q (mem_cons_of_mem _ hq)) ?_
    exact h.push (hparts part mem_cons_self) r

theorem normal_stack (r : Bool) (p : List Char) : Normal ((p.splitOn '/').foldl (push r) []) :=
  .foldl (fun _ h => slash_not_mem_of_mem_splitOn h) .nil

theorem Normal.noSlash (h : Normal s) : ∀ part ∈ s, '/' ∉ part := by
  induction h with
  | ups n =>
    intro part hpart
    rw [eq_of_mem_replicate hpart]
    decide
  | name hn _ ih =>
    intro part hpart
    rcases mem_cons.1 hpart with rfl | hpart
    · exact hn.noSlash
    · exact ih part hpart

/-- From the root the steps up lead nowhere. -/
def names (s : List (List Char)) : List (List Char) := s.filter (· ≠ ['.', '.'])

@[simp] theorem names_ups (n : ℕ) : names (List.replicate n ['.', '.']) = [] := by simp [names]

theorem names_cons (h : Plain n) (s : List (List Char)) : names (n :: s) = n :: names s := by
  simp [names, h.notDotDot]

theorem names_push (h : Normal s) (hp : '/' ∉ part)
    (r : Bool) : names (push r s part) = push true (names s) part := by
  rcases part_cases hp with hdot | rfl | hname
  · rw [push_dot hdot, push_dot hdot]
  · cases h with
    | ups n =>
      obtain ⟨m, hm⟩ := push_up_ups r n
      rw [hm, names_ups, names_ups]
      rfl
    | name hn hs => rw [push_up_name hn, names_cons hn, push_up_name hn]
  · rw [push_plain hname, push_plain hname, names_cons hname]

theorem names_foldl (hparts : ∀ part ∈ parts, '/' ∉ part)
    (h : Normal s) : names (parts.foldl (push r) s) = parts.foldl (push true) (names s) := by
  induction parts generalizing s with
  | nil => rfl
  | cons part parts ih =>
    have hp : '/' ∉ part := hparts part mem_cons_self
    rw [foldl_cons, ih (fun q hq => hparts q (mem_cons_of_mem _ hq)) (h.push hp r), names_push h hp]
    rfl

theorem names_stack (r : Bool) (p : List Char) :
    names ((p.splitOn '/').foldl (push r) []) = resolve p :=
  names_foldl (fun _ h => slash_not_mem_of_mem_splitOn h) .nil

theorem up_not_mem_resolve (p : List Char) : ['.', '.'] ∉ resolve p := by
  rw [← names_stack true p, names]
  simp

theorem Normal.notEmpty (h : Normal s) : [] ∉ s := by
  induction h with
  | ups n =>
    intro hn
    have := eq_of_mem_replicate hn
    cases this
  | name hn _ ih =>
    intro hmem
    rcases mem_cons.1 hmem with h | h
    · exact hn.notEmpty h.symm
    · exact ih h

theorem intercalate_ne_nil (hl : l ≠ []) (h : [] ∉ l) : List.intercalate ['/'] l ≠ [] := by
  cases l with
  | nil => exact absurd rfl hl
  | cons a l =>
    have ha : a ≠ [] := fun ha => h (ha ▸ mem_cons_self)
    cases l with
    | nil => simpa using ha
    | cons b l => simp [intercalate_cons_cons, ha]

theorem render_ne_nil (r : Bool) (s : List (List Char)) : render r s ≠ [] := by
  unfold render
  simp only
  split_ifs with hr hb
  · simp
  · simp
  · exact hb

theorem splitOn_render (hs : Normal s) (hne : s ≠ []) (r : Bool) :
    (render r s).splitOn '/' = (if r then [[]] else []) ++ s.reverse := by
  have hrev : s.reverse ≠ [] := by simpa using hne
  have hbody : List.intercalate ['/'] s.reverse ≠ [] :=
    intercalate_ne_nil hrev fun h => hs.notEmpty (mem_reverse.1 h)
  have hsplit : (List.intercalate ['/'] s.reverse).splitOn '/' = s.reverse :=
    splitOn_intercalate '/' (fun l hl => hs.noSlash l (mem_reverse.1 hl)) hrev
  cases r with
  | false => simp [render, hbody, hsplit]
  | true =>
    have := splitOn_append_cons_self (a := '/') [] (List.intercalate ['/'] s.reverse)
    rw [nil_append, hsplit] at this
    simpa [render] using this

/-- Taking a rendered stack apart again gives its elements, next to parts that mean nothing. -/
theorem foldl_render (hs : Normal s) (r r' : Bool) (t : List (List Char)) :
    ((render r s).splitOn '/').foldl (push r') t = s.reverse.foldl (push r') t := by
  by_cases hnil : s = []
  · subst hnil
    cases r <;> rfl
  · rw [splitOn_render hs hnil]
    cases r <;> rfl

theorem rooted_render (hs : Normal s) (r : Bool) : rooted (render r s) = r := by
  cases r with
  | true => rfl
  | false =>
    cases hrev : s.reverse with
    | nil => simp [render, hrev, rooted]
    | cons a l =>
      have ha : a ∈ s := mem_reverse.1 (hrev ▸ mem_cons_self)
      cases a with
      | nil => exact absurd ha hs.notEmpty
      | cons c a =>
        have hc : c ≠ '/' := fun hc => hs.noSlash _ ha (hc ▸ mem_cons_self)
        cases l <;> simp [render, hrev, rooted, hc, intercalate_cons_cons]

theorem foldl_reverse (hs : Normal s) : s.reverse.foldl (push true) [] = names s := by
  induction hs with
  | ups n =>
    rw [reverse_replicate, names_ups]
    induction n with
    | zero => rfl
    | succ n ih => exact ih
  | name hn _ ih =>
    rw [reverse_cons, foldl_append, ih, names_cons hn]
    exact push_plain hn _ _

theorem clean_ne_nil (p : List Char) : clean p ≠ [] := by
  unfold clean
  split_ifs
  · simp
  · exact render_ne_nil _ _

@[simp] theorem resolve_clean (p : List Char) : resolve (clean p) = resolve p := by
  unfold clean
  split_ifs with hp
  · subst hp
    rfl
  · have hs : Normal (stack p) := normal_stack (rooted p) p
    rw [resolve, foldl_render hs, foldl_reverse hs]
    exact names_stack _ p

theorem resolve_append (p q : List Char) :
    resolve (p ++ '/' :: q) = (q.splitOn '/').foldl (push true) (resolve p) := by
  unfold resolve
  rw [splitOn_append_cons_self, foldl_append]

/-- Paths that are joined are followed one after the other. -/
theorem foldl_intercalate (r : Bool) (hl : l ≠ []) (t : List (List Char)) :
    ((List.intercalate ['/'] l).splitOn '/').foldl (push r) t =
      l.foldl (fun t p => (p.splitOn '/').foldl (push r) t) t := by
  induction l generalizing t with
  | nil => exact absurd rfl hl
  | cons p l ih =>
    cases l with
    | nil => simp
    | cons q l =>
      have happend : List.intercalate ['/'] (p :: q :: l) =
          p ++ '/' :: List.intercalate ['/'] (q :: l) := by simp [intercalate_cons_cons]
      rw [happend, splitOn_append_cons_self, foldl_append, ih (cons_ne_nil _ _)]
      rfl

theorem resolve_join_all (l : List (List Char)) :
    resolve (join l) = l.foldl (fun t p => (p.splitOn '/').foldl (push true) t) [] := by
  have hfilter (t : List (List Char)) :
      (l.filter (· ≠ [])).foldl (fun t p => (p.splitOn '/').foldl (push true) t) t =
        l.foldl (fun t p => (p.splitOn '/').foldl (push true) t) t := by
    induction l generalizing t with
    | nil => rfl
    | cons p l ih =>
      by_cases hp : p = []
      · subst hp
        exact ih t
      · rw [filter_cons_of_pos (by simpa using hp)]
        exact ih _
  unfold join
  simp only
  split_ifs with hl
  · rw [← hfilter, hl]
    rfl
  · rw [resolve_clean, resolve, foldl_intercalate true hl, hfilter]

theorem resolve_join (d q : List Char) :
    resolve (join [d, q]) = (q.splitOn '/').foldl (push true) (resolve d) := resolve_join_all [d, q]

theorem up_mem_push (h : Normal s) (hup : ['.', '.'] ∈ s) (hp : '/' ∉ part) : ['.', '.'] ∈ push false s part := by
  rcases part_cases hp with hdot | rfl | hname
  · rwa [push_dot hdot]
  · cases h with
    | ups n =>
      cases n with
      | zero => exact absurd hup (not_mem_nil)
      | succ n => exact mem_cons_self
    | name hn hs =>
      rw [push_up_name hn]
      rcases mem_cons.1 hup with h | h
      · exact absurd h.symm hn.notDotDot
      · exact h
  · rw [push_plain hname]
    exact mem_cons_of_mem _ hup

theorem up_mem_foldl (hparts : ∀ part ∈ parts, '/' ∉ part)
    (h : Normal s) (hup : ['.', '.'] ∈ s) : ['.', '.'] ∈ parts.foldl (push false) s := by
  induction parts generalizing s with
  | nil => exact hup
  | cons part parts ih =>
    have hp : '/' ∉ part := hparts part mem_cons_self
    exact ih (fun q hq => hparts q (mem_cons_of_mem _ hq)) (h.push hp _) (up_mem_push h hup hp)

/-- Parts that never lead out of where they start keep what lies below them. -/
theorem foldl_push_append (hparts : ∀ part ∈ parts, '/' ∉ part) (ht : Normal t)
    (h : ['.', '.'] ∉ parts.foldl (push false) t) :
    parts.foldl (push r) (t ++ s) = parts.foldl (push false) t ++ s := by
  induction parts generalizing t with
  | nil => rfl
  | cons part parts ih =>
    have hp : '/' ∉ part := hparts part mem_cons_self
    have htail : ∀ q ∈ parts, '/' ∉ q := fun q hq => hparts q (mem_cons_of_mem _ hq)
    have hup : ['.', '.'] ∉ t := fun hup => h (up_mem_foldl hparts ht hup)
    have hpush : push r (t ++ s) part = push false t part ++ s := by
      rcases part_cases hp with hdot | rfl | hname
      · rw [push_dot hdot, push_dot hdot]
      · cases ht with
        | ups n =>
          cases n with
          | zero => exact absurd (up_mem_foldl htail (.ups 1) mem_cons_self) h
          | succ n => exact absurd mem_cons_self hup
        | name hn _ => rw [cons_append, push_up_name hn, push_up_name hn]
      · rw [push_plain hname, push_plain hname, cons_append]
    rw [foldl_cons, hpush, ih htail (ht.push hp _) h]
    rfl

theorem foldl_descent (h : ['.', '.'] ∉ descent q) (r : Bool)
    (s : List (List Char)) : (q.splitOn '/').foldl (push r) s = descent q ++ s :=
  foldl_push_append (t := []) (fun _ hp => slash_not_mem_of_mem_splitOn hp) .nil h

theorem foldl_parts (r : Bool) (parts s : List (List Char)) :
    parts.foldl (fun t p => (p.splitOn '/').foldl (push r) t) s =
      ((List.intercalate ['/'] parts).splitOn '/').foldl (push r) s := by
  cases parts with
  | nil => rfl
  | cons part parts => exact (foldl_intercalate r (cons_ne_nil _ _) s).symm

theorem foldl_reverse_append (hs : Normal s) (hup : ['.', '.'] ∉ s) (r : Bool)
    (t : List (List Char)) : s.reverse.foldl (push r) t = s ++ t := by
  induction hs with
  | ups n =>
    cases n with
    | zero => rfl
    | succ n => exact absurd mem_cons_self hup
  | name hn _ ih =>
    rw [reverse_cons, foldl_append, ih fun h => hup (mem_cons_of_mem _ h)]
    exact push_plain hn _ _

theorem resolve_slash (p : List Char) : resolve ('/' :: p) = resolve p :=
  resolve_append [] p

/-- A path from the root is cleaned to the names it leads through. -/
theorem clean_slash (p : List Char) : clean ('/' :: p) = render true (resolve p) := by
  rfl

/-- A clean path from the root leads on from anywhere by its names. -/
theorem foldl_clean_rooted (p : List Char) (t : List (List Char)) :
    ((clean ('/' :: p)).splitOn '/').foldl (push true) t = resolve p ++ t := by
  have hs : Normal (resolve p) := normal_stack _ _
  rw [clean_slash, foldl_render hs, foldl_reverse_append hs (up_not_mem_resolve p)]

theorem resolve_render (hs : Normal s) (hup : ['.', '.'] ∉ s) : resolve (render true s) = s := by
  rw [resolve, foldl_render hs, foldl_reverse_append hs hup, append_nil]

/-! The last element of a path. -/

/-- `Split`: the text up to the last slash. -/
def folder (p : List Char) : List Char := (p.reverse.dropWhile (· ≠ '/')).reverse

/-- `Split`: the text after the last slash. -/
def file (p : List Char) : List Char := (p.reverse.takeWhile (· ≠ '/')).reverse

def dir (p : List Char) : List Char := clean (folder p)

def base (p : List Char) : List Char :=
  if p = [] then ['.']
  else
    let q := (p.reverse.dropWhile (· = '/')).reverse
    if q = [] then ['/'] else file q

/-- The text in front of the last occurrence of a character, and the text from there on; the
second is empty if there is none. -/
def splitLast (c : Char) (p : List Char) : List Char × List Char :=
  if c ∈ p then
    (((p.reverse.dropWhile (· ≠ c)).tail).reverse, c :: (p.reverse.takeWhile (· ≠ c)).reverse)
  else (p, [])

def ext (p : List Char) : List Char := (splitLast '.' (file p)).2

theorem folder_append_file (p : List Char) : folder p ++ file p = p := by
  rw [folder, file, ← reverse_append, takeWhile_append_dropWhile, reverse_reverse]

theorem slash_not_mem_file (p : List Char) : '/' ∉ file p := by
  intro h
  have := mem_takeWhile_imp (mem_reverse.1 h)
  simp at this

theorem isDir_folder (p : List Char) : IsDir (folder p) := by
  unfold folder
  cases h : p.reverse.dropWhile (· ≠ '/') with
  | nil => exact .inl rfl
  | cons c l =>
    have hc : c = '/' := by
      have := List.head?_dropWhile_not (p := fun c : Char => decide (c ≠ '/')) (l := p.reverse)
      rw [h] at this
      simpa using this
    exact .inr ⟨l.reverse, by rw [reverse_cons, hc]⟩

theorem resolve_folder (p : List Char) : resolve p = push true (resolve (folder p)) (file p) := by
  have hfile : (file p).splitOn '/' = [file p] := splitOn_eq_singleton (slash_not_mem_file p)
  have hsplit : p = folder p ++ file p := (folder_append_file p).symm
  rcases isDir_folder p with h | ⟨d, h⟩
  · rw [h, nil_append] at hsplit
    calc resolve p = ((file p).splitOn '/').foldl (push true) [] := by rw [← hsplit]; rfl
      _ = push true (resolve (folder p)) (file p) := by rw [hfile, h]; rfl
  · rw [h, append_assoc, singleton_append] at hsplit
    calc resolve p = ((file p).splitOn '/').foldl (push true) (resolve d) := by
          rw [← resolve_append, ← hsplit]
      _ = push true (resolve (folder p)) (file p) := by
          rw [hfile, h, resolve_append]
          rfl

/-- Steps up are at the bottom of a stack, and `Clean` keeps them for a path that does not begin at
the root. -/
theorem foldl_reverse_self (hs : Normal s)
    (h : r = true → ['.', '.'] ∉ s) : s.reverse.foldl (push r) [] = s := by
  induction hs with
  | ups n =>
    rw [reverse_replicate]
    cases r with
    | true =>
      cases n with
      | zero => rfl
      | succ n => exact absurd mem_cons_self (h rfl)
    | false =>
      induction n with
      | zero => rfl
      | succ n ih =>
        rw [replicate_succ', foldl_append, ih (by simp), ← replicate_succ']
        cases n <;> rfl
  | name hn _ ih =>
    rw [reverse_cons, foldl_append, ih fun hr hup => h hr (mem_cons_of_mem _ hup)]
    exact push_plain hn _ _

theorem rooted_clean (p : List Char) : rooted (clean p) = rooted p := by
  unfold clean
  split_ifs with hp
  · rw [hp]
    rfl
  · exact rooted_render (normal_stack _ p) _

theorem stack_eq_resolve (hp : rooted p = true) : stack p = resolve p := by
  rw [stack, hp, resolve]

theorem stack_clean (hp : p ≠ []) : stack (clean p) = stack p := by
  have hs : Normal (stack p) := normal_stack _ p
  rw [stack, rooted_clean, clean, if_neg hp, foldl_render hs]
  refine foldl_reverse_self hs fun hr => ?_
  rw [stack_eq_resolve hr]
  exact up_not_mem_resolve p

theorem clean_clean (p : List Char) : clean (clean p) = clean p := by
  by_cases hp : p = []
  · rw [hp]
    decide
  · rw [clean, if_neg (clean_ne_nil p), rooted_clean, stack_clean hp, clean, if_neg hp]

theorem mem_intercalate : c ∈ List.intercalate ['/'] l → c = '/' ∨ ∃ part ∈ l, c ∈ part := by
  induction l with
  | nil => simp
  | cons a l ih =>
    cases l with
    | nil => exact fun h => .inr ⟨a, mem_cons_self, by simpa using h⟩
    | cons b l =>
      rw [intercalate_cons_cons]
      intro h
      rcases mem_append.1 h with h | h
      · rcases mem_append.1 h with h | h
        · exact .inr ⟨a, mem_cons_self, h⟩
        · exact .inl (mem_singleton.1 h)
      · rcases ih h with h | ⟨part, hpart, h⟩
        · exact .inl h
        · exact .inr ⟨part, mem_cons_of_mem _ hpart, h⟩

theorem mem_intercalate_of_mem (h : part ∈ l) (hc : c ∈ part) : c ∈ List.intercalate ['/'] l := by
  induction l with
  | nil => cases h
  | cons a l ih =>
    cases l with
    | nil => simpa [mem_singleton.1 h] using hc
    | cons b l =>
      rcases mem_cons.1 h with rfl | h
      · simp [hc]
      · simp [ih h]

theorem mem_of_mem_splitOn (h : part ∈ p.splitOn '/') (hc : c ∈ part) : c ∈ p := by
  rw [← @intercalate_splitOn _ p _ _ '/']
  exact mem_intercalate_of_mem h hc

theorem mem_push (h : q ∈ push r s part) : q = part ∨ q ∈ s := by
  unfold push at h
  split at h
  · exact .inr h
  split at h
  · split at h
    · split at h
      · cases h
      · exact .inl (mem_singleton.1 h)
    · split at h
      · exact mem_cons.1 h
      · exact .inr (mem_cons_of_mem _ h)
  · exact mem_cons.1 h

theorem mem_foldl_push (h : q ∈ parts.foldl (push r) s) : q ∈ parts ∨ q ∈ s := by
  induction parts generalizing s with
  | nil => exact .inr h
  | cons part parts ih =>
    rcases ih h with h | h
    · exact .inl (mem_cons_of_mem _ h)
    · rcases mem_push h with rfl | h
      · exact .inl mem_cons_self
      · exact .inr h

/-- Parts that lead out of where they start leave the name behind from which they start. -/
theorem not_mem_foldl_push (hn : Plain n) (hparts : ∀ part ∈ parts, '/' ∉ part ∧ part ≠ n) (ht : Normal t)
    (hup : ['.', '.'] ∉ t) (hnt : n ∉ t) (h : ['.', '.'] ∈ parts.foldl (push false) t) :
    n ∉ parts.foldl (push true) (t ++ [n]) := by
  induction parts generalizing t with
  | nil => exact absurd h hup
  | cons part parts ih =>
    obtain ⟨hp, hne⟩ := hparts part mem_cons_self
    have htail := fun q hq => hparts q (mem_cons_of_mem _ hq)
    rw [foldl_cons] at h ⊢
    rcases part_cases hp with hdot | rfl | hname
    · rw [push_dot hdot] at h ⊢
      exact ih htail ht hup hnt h
    · cases ht with
      | ups k =>
        cases k with
        | zero =>
          rw [List.replicate_zero, nil_append, push_up_name hn]
          intro hmem
          rcases mem_foldl_push hmem with hmem | hmem
          · exact (htail n hmem).2 rfl
          · cases hmem
        | succ k => exact absurd mem_cons_self hup
      | name hm hs =>
        rw [push_up_name hm] at h
        rw [cons_append, push_up_name hm]
        exact ih htail hs (fun hmem => hup (mem_cons_of_mem _ hmem))
          (fun hmem => hnt (mem_cons_of_mem _ hmem)) h
    · rw [push_plain hname] at h ⊢
      refine ih htail (.name hname ht) ?_ ?_ h
      · intro hmem
        rcases mem_cons.1 hmem with heq | hmem
        · exact hname.notDotDot heq.symm
        · exact hup hmem
      · intro hmem
        rcases mem_cons.1 hmem with heq | hmem
        · exact hne heq.symm
        · exact hnt hmem

/-- Cleaning brings in no characters but slashes and the dot of an empty path. -/
theorem mem_clean (h : c ∈ clean p) : c = '/' ∨ c = '.' ∨ c ∈ p := by
  have hbody (h : c ∈ List.intercalate ['/'] (stack p).reverse) : c = '/' ∨ c = '.' ∨ c ∈ p := by
    rcases mem_intercalate h with h | ⟨part, hpart, hc⟩
    · exact .inl h
    · rcases mem_foldl_push (mem_reverse.1 hpart) with hpart | hpart
      · exact .inr (.inr (mem_of_mem_splitOn hpart hc))
      · cases hpart
  unfold clean render at h
  simp only at h
  split_ifs at h
  · exact .inr (.inl (mem_singleton.1 h))
  · rcases mem_cons.1 h with h | h
    · exact .inl h
    · exact hbody h
  · exact .inr (.inl (mem_singleton.1 h))
  · exact hbody h

/-- A text that begins with a rendered stack and a slash is one with this stack at its bottom. -/
theorem suffix_of_render (hs : Normal s) (ht : Normal t) (hne : s ≠ []) {rest : List Char}
    (h : render r t = render r s ++ '/' :: rest) : s <:+ t := by
  have htop : t ≠ [] := by
    rintro rfl
    have hone : (render r []).length = 1 := by cases r <;> rfl
    have hpos := length_pos_iff.2 (render_ne_nil r s)
    rw [h, length_append, length_cons] at hone
    omega
  have hsplit := congrArg (List.splitOn '/') h
  rw [splitOn_append_cons_self, splitOn_render ht htop, splitOn_render hs hne,
    append_assoc] at hsplit
  have hrev := append_cancel_left hsplit
  refine ⟨(rest.splitOn '/').reverse, ?_⟩
  have := congrArg List.reverse hrev
  simpa using this.symm

theorem render_append (hs : s ≠ []) (ht : t ≠ []) :
    render true t ++ render true s = render true (s ++ t) := by
  have hinter := intercalate_append (reverse_ne_nil_iff.2 ht) (reverse_ne_nil_iff.2 hs)
  simp only [render, reverse_append, hinter]
  simp

/-! Paths below a directory. -/

/-- A path lies strictly below a directory once dot segments are resolved. -/
def Below (d p : List Char) : Prop := ∃ top, top ≠ [] ∧ resolve p = top ++ resolve d

theorem folder_append {p s : List Char} (hs : '/' ∉ s) : folder (p ++ s) = folder p := by
  unfold folder
  rw [reverse_append, dropWhile_append_of_pos]
  intro c hc
  refine decide_eq_true fun h => hs ?_
  rw [← h]
  exact mem_reverse.1 hc

theorem file_append_text {p s : List Char} (hs : '/' ∉ s) : file (p ++ s) = file p ++ s := by
  have h := folder_append_file (p ++ s)
  rw [folder_append hs] at h
  have hp := congrArg (· ++ s) (folder_append_file p)
  simp only [append_assoc] at hp
  exact append_cancel_left (h.trans hp.symm)

theorem Normal.plain (h : Normal s) (hup : ['.', '.'] ∉ s) (hn : n ∈ s) : Plain n := by
  induction h with
  | ups k => exact absurd (eq_of_mem_replicate hn ▸ hn) hup
  | name hm _ ih =>
    rcases mem_cons.1 hn with rfl | hn
    · exact hm
    · exact ih (fun h => hup (mem_cons_of_mem _ h)) hn

theorem getLast_render (hs : Normal s) (hup : ['.', '.'] ∉ s) (hne : s ≠ []) :
    (render true s).getLast? ≠ some '/' := by
  obtain ⟨n, s, rfl⟩ := exists_cons_of_ne_nil hne
  have hn := hs.plain hup mem_cons_self
  have hlast : ∃ pre, render true (n :: s) = pre ++ n := by
    by_cases hnil : s = []
    · exact ⟨['/'], by simp [hnil, render]⟩
    · refine ⟨render true s ++ ['/'], ?_⟩
      rw [← singleton_append, ← render_append (cons_ne_nil n []) hnil]
      simp [render]
  obtain ⟨pre, hpre⟩ := hlast
  rw [hpre, getLast?_append, Option.or_of_isSome (by simpa using hn.notEmpty)]
  exact fun h => hn.noSlash (mem_of_getLast? h)

/-- A text with a character that is neither a slash nor a dot is a name if it has no slash. -/
theorem Plain.of_mem (hn : '/' ∉ n) (hc : c ∈ n) (hdot : c ≠ '.') : Plain n := by
  refine ⟨hn, ?_, ?_, ?_⟩
  · rintro rfl
    exact absurd hc not_mem_nil
  · rintro rfl
    simp_all
  · rintro rfl
    simp_all

theorem Normal.of_plain (h : ∀ n ∈ s, Plain n) : Normal s := by
  induction s with
  | nil => exact .nil
  | cons n s ih => exact .name (h n mem_cons_self) (ih fun m hm => h m (mem_cons_of_mem _ hm))

/-- The upper part of what a path names is what its own rendering names. -/
theorem resolve_render_top (h : resolve p = t ++ s) : resolve (render true t) = t := by
  have hplain : ∀ n ∈ t, Plain n := by
    intro n hn
    have hmem : n ∈ resolve p := h ▸ mem_append_left s hn
    exact (normal_stack true p).plain (up_not_mem_resolve p) hmem
  exact resolve_render (.of_plain hplain) fun hup => (hplain _ hup).notDotDot rfl

end GoPath
