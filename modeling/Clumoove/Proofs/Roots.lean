import Clumoove.Lib.Guard
import Clumoove.Spec.Locations
import Mathlib.Algebra.Order.BigOperators.Group.List

/-! Where the paths of the repository and of a restore lead. A path that is checked before it is
cleaned, or against its root, stays inside; the check of a path that has been joined to its root
comes too late for the steps up in its parts. -/

namespace Clumoove

open GoPath List

/-- At or below a root, once dot segments are resolved. -/
def Beneath (root p : Path) : Prop := resolve root <:+ resolve p

instance (root p : Path) : Decidable (Beneath root p) := inferInstanceAs (Decidable (_ <:+ _))

/-- Names of a stack that does not lead out of where it starts. -/
structure Named (name : Path) (s : List Path) : Prop where
  normal : Normal s
  notEmpty : s ≠ []
  stays : ['.', '.'] ∉ s
  text : name = render false s

theorem first_of_up (hs : Normal s) (hup : ['.', '.'] ∈ s) : ∃ l, s.reverse = ['.', '.'] :: l := by
  induction hs with
  | ups n =>
    cases n with
    | zero => cases hup
    | succ n => exact ⟨List.replicate n ['.', '.'], by rw [reverse_replicate]; rfl⟩
  | name hn _ ih =>
    rcases mem_cons.1 hup with heq | hup
    · exact absurd heq.symm hn.notDotDot
    · obtain ⟨l, hl⟩ := ih hup
      exact ⟨l ++ [_], by rw [reverse_cons, hl]; rfl⟩

theorem named_of_normalize (h : normalizeRelativePath value = .ok name) :
    Named name (descent value) ∧ value ≠ [] ∧ '\\' ∉ value := by
  unfold normalizeRelativePath at h
  simp only at h
  split_ifs at h with hempty hout
  cases h
  simp only [not_or] at hempty hout
  obtain ⟨hvalue, hback⟩ := hempty
  obtain ⟨hdot, hslash, hup, hups⟩ := hout
  have hs : Normal (descent value) := normal_stack _ value
  have hroot : rooted value = false := by
    rw [← rooted_clean]
    simpa [rooted] using hslash
  have htext : clean value = render false (descent value) := by
    rw [clean, if_neg hvalue, stack, hroot]
    rfl
  refine ⟨⟨hs, ?_, ?_, htext⟩, hvalue, by simpa using hback⟩
  · intro hnil
    rw [htext, hnil] at hdot
    exact hdot rfl
  · intro hmem
    obtain ⟨l, hl⟩ := first_of_up hs hmem
    rw [htext] at hup hups
    cases l with
    | nil => exact hup (by simp [render, hl])
    | cons a l => exact hups (by simp [render, hl, intercalate_cons_cons])

namespace Named

variable {name name' : Path} {s s' : List Path}

theorem foldl (h : Named name s) (r : Bool) (t : List Path) :
    (name.splitOn '/').foldl (push r) t = s ++ t := by
  rw [h.text, foldl_render h.normal, foldl_reverse_append h.normal h.stays]

theorem within (h : Named name s) (root : Path) : Beneath root (root ++ '/' :: name) :=
  ⟨s, by rw [resolve_append, h.foldl]⟩

theorem unique (h : Named name s) (h' : Named name' s') (hs : s = s') : name = name' := by
  rw [h.text, h'.text, hs]

end Named

theorem within_of_safeRemotePath (h : safeRemotePath value = .ok ()) :
    Beneath root (root ++ '/' :: value) := by
  unfold safeRemotePath at h
  split_ifs at h with hblank hup
  have hstays : ['.', '.'] ∉ descent value := by
    intro hmem
    rcases mem_foldl_push hmem with hmem | hmem
    · exact hup hmem
    · cases hmem
  exact ⟨descent value, by rw [resolve_append, foldl_descent hstays]⟩

/-! `resolveWithinRoot`. -/

def rootOf (root : Path) : Path :=
  if clean root = ['.'] ∨ clean root = [] then ['/'] else clean root

theorem rootOf_cases (root : Path) : (rootOf root = ['/'] ∧ resolve root = []) ∨
    (rootOf root ≠ ['/'] ∧ stack root ≠ [] ∧ root ≠ [] ∧ rootOf root = clean root) := by
  unfold rootOf
  by_cases hdot : clean root = ['.'] ∨ clean root = []
  · rw [if_pos hdot, ← resolve_clean root]
    rcases hdot with hdot | hdot
    · rw [hdot]
      exact .inl ⟨rfl, rfl⟩
    · exact absurd hdot (clean_ne_nil root)
  · rw [if_neg hdot]
    by_cases hslash : clean root = ['/']
    · refine .inl ⟨hslash, ?_⟩
      rw [← resolve_clean root, hslash]
      rfl
    · have hroot : root ≠ [] := by
        rintro rfl
        exact hdot (.inl rfl)
      refine .inr ⟨hslash, ?_, hroot, rfl⟩
      intro hnil
      rw [clean, if_neg hroot, hnil] at hdot hslash
      cases hr : rooted root with
      | true => exact hslash (by rw [hr]; rfl)
      | false => exact hdot (.inl (by rw [hr]; rfl))

theorem resolve_rootOf (root : Path) : resolve (rootOf root) = resolve root := by
  rcases rootOf_cases root with ⟨heq, hnil⟩ | ⟨-, -, -, heq⟩
  · rw [heq, hnil]
    rfl
  · rw [heq, resolve_clean]

theorem rootOf_ne_nil (root : Path) : rootOf root ≠ [] := by
  rcases rootOf_cases root with ⟨heq, -⟩ | ⟨-, -, -, heq⟩
  · rw [heq]
    exact cons_ne_nil _ _
  · rw [heq]
    exact clean_ne_nil root

def slashes (relative : Path) : Path := relative.map fun c => if c = '\\' then '/' else c

abbrev joined (root relative : Path) : Path := rootOf root ++ '/' :: slashes relative

theorem resolveWithinRoot_eq (hne : relative ≠ []) : resolveWithinRoot root relative =
      if rootOf root = ['/'] ∨ clean (joined root relative) = rootOf root ∨
          (rootOf root ++ ['/']) <+: clean (joined root relative) then
        .ok (clean (joined root relative))
      else .error "path escapes storage root" := by
  have hrel : slashes relative ≠ [] := by simpa [slashes] using hne
  have hjoin : clean (join [rootOf root, slashes relative]) =
      clean (joined root relative) := by
    have : join [rootOf root, slashes relative] =
        clean (joined root relative) := by
      simp [join, rootOf_ne_nil, hrel, intercalate_cons_cons]
    rw [this, clean_clean]
  unfold resolveWithinRoot
  simp only [if_neg hne]
  rw [show (if clean root = ['.'] ∨ clean root = [] then ['/'] else clean root) = rootOf root from
      rfl, show relative.map (fun c => if c = '\\' then '/' else c) = slashes relative from rfl, hjoin]
  by_cases hroot : rootOf root = ['/']
  · have hhead : (clean (joined root relative)).head? = some '/' := by
      have hr := rooted_clean (joined root relative)
      rw [rooted_append (rootOf_ne_nil root), hroot] at hr
      simpa [rooted] using hr
    rw [if_pos hroot, if_pos hhead, if_pos (.inl hroot)]
  · rw [if_neg hroot]
    by_cases hout : clean (joined root relative) = rootOf root ∨
        (rootOf root ++ ['/']) <+: clean (joined root relative)
    · rw [if_neg (by tauto), if_pos (.inr hout)]
    · rw [if_pos (by tauto), if_neg (by tauto)]

theorem within_of_resolveWithinRoot
    (h : resolveWithinRoot root relative = .ok p) : Beneath root p := by
  by_cases hne : relative = []
  · subst hne
    cases h
    show resolve root <:+ resolve (rootOf root)
    rw [resolve_rootOf]
  rw [resolveWithinRoot_eq hne] at h
  split_ifs at h with hin
  cases h
  rcases rootOf_cases root with ⟨-, hnil⟩ | ⟨hslash, hstack, hroot, heq⟩
  · rw [Beneath, hnil]
    exact nil_suffix
  · rcases hin with hin | hin | ⟨rest, hrest⟩
    · exact absurd hin hslash
    · rw [Beneath, hin, resolve_rootOf]
    · have hs : Normal (stack root) := normal_stack _ root
      have ht : Normal (stack (joined root relative)) := normal_stack _ _
      have hr : rooted (joined root relative) = rooted root := by
        rw [rooted_append (rootOf_ne_nil root), heq, rooted_clean]
      have hrender : render (rooted root) (stack (joined root relative)) =
          render (rooted root) (stack root) ++ '/' :: rest := by
        rw [clean, if_neg (by simp), hr, heq, clean, if_neg hroot] at hrest
        simpa [heq, clean, hroot] using hrest.symm
      have hsuffix := suffix_of_render hs ht hstack hrender
      rw [stack, stack, hr] at hsuffix
      rw [Beneath, resolve_clean, ← names_stack (rooted root) root, ← names_stack (rooted root)]
      exact hsuffix.filter _

/-- The path to which names lead from a root. -/
def placed (root : Path) (s : List Path) : Path :=
  render (rooted (rootOf root)) (s ++ stack (rootOf root))

theorem clean_append_descent (hup : ['.', '.'] ∉ descent value) :
    clean (rootOf root ++ '/' :: value) = placed root (descent value) := by
  have hstack : stack (rootOf root ++ '/' :: value) = descent value ++ stack (rootOf root) := by
    rw [stack, splitOn_append_cons_self, foldl_append, rooted_append (rootOf_ne_nil root)]
    exact foldl_descent hup _ _
  rw [clean, if_neg (by simp), rooted_append (rootOf_ne_nil root), hstack, placed]

theorem resolve_placed (hup : ['.', '.'] ∉ descent value) :
    resolve (placed root (descent value)) = descent value ++ resolve root := by
  rw [← clean_append_descent hup, resolve_clean, resolve_append, foldl_descent hup, resolve_rootOf]

theorem resolveWithinRoot_of_normalize (h : normalizeRelativePath value = .ok name) :
    resolveWithinRoot root value = .ok (placed root (descent value)) := by
  obtain ⟨hnamed, hvalue, hback⟩ := named_of_normalize h
  have hslashes : slashes value = value := by
    refine (map_congr_left ?_).trans (List.map_id value)
    intro c hc
    refine if_neg ?_
    rintro rfl
    exact hback hc
  rw [resolveWithinRoot_eq hvalue, joined, hslashes, clean_append_descent hnamed.stays]
  refine if_pos ?_
  rcases rootOf_cases root with ⟨heq, -⟩ | ⟨-, hstack, hroot, heq⟩
  · exact .inl heq
  · refine .inr (.inr ⟨render false (descent value), ?_⟩)
    have htext := intercalate_append (a := (stack root).reverse) (b := (descent value).reverse)
      (by simpa using hstack) (by simpa using hnamed.notEmpty)
    have hrest : List.intercalate ['/'] (descent value).reverse ≠ [] :=
      intercalate_ne_nil (by simpa using hnamed.notEmpty) fun hmem =>
        hnamed.normal.notEmpty (mem_reverse.1 hmem)
    have hbody : List.intercalate ['/'] (stack root).reverse ≠ [] :=
      intercalate_ne_nil (by simpa using hstack) fun hmem =>
        (normal_stack (rooted root) root).notEmpty (mem_reverse.1 hmem)
    rw [placed, heq, rooted_clean, stack_clean hroot, clean, if_neg hroot]
    cases rooted root <;> simp [render, reverse_append, htext, hrest, hbody]

theorem resolve_plannedTarget (h : Named name s) (root : Path) :
    resolve (plannedTarget root name) = s ++ resolve root := by
  rw [plannedTarget]
  split_ifs with hroot
  · rw [hroot, show '/' :: name = [] ++ '/' :: name from rfl, resolve_append, h.foldl]
    rfl
  · rw [resolve_append, h.foldl]

/-- Two names lead to one path exactly if they are spellings of one name. -/
theorem placed_inj (h : normalizeRelativePath value = .ok name)
    (h' : normalizeRelativePath value' = .ok name') :
    placed root (descent value') = placed root (descent value) ↔ name' = name := by
  obtain ⟨hnamed, -⟩ := named_of_normalize h
  obtain ⟨hnamed', -⟩ := named_of_normalize h'
  constructor
  · intro heq
    have hsame := congrArg resolve heq
    rw [resolve_placed hnamed.stays, resolve_placed hnamed'.stays] at hsame
    exact hnamed'.unique hnamed (append_cancel_right hsame)
  · rintro rfl
    have hsame := hnamed.foldl false []
    rw [hnamed'.foldl, append_nil, append_nil] at hsame
    rw [hsame]

/-! `repositoryPath`. -/

/-- The names to which parts lead one after the other, after the steps up that lead out of where they
start. -/
def descents (parts : List Path) : List Path := descent (List.intercalate ['/'] parts)

theorem repositoryPath_eq_ok : repositoryPath root parts = .ok p ↔
    safeRemotePath root = .ok () ∧ safeRemotePath (join (root :: parts)) = .ok () ∧ join (root :: parts) = p := by
  simp only [repositoryPath, Guard.bind_eq_ok, Guard.pure_eq_ok]
  constructor
  · rintro ⟨⟨⟩, hroot, ⟨⟩, hjoin, heq⟩
    exact ⟨hroot, hjoin, heq⟩
  · rintro ⟨hroot, hjoin, heq⟩
    exact ⟨(), hroot, (), hjoin, heq⟩

theorem resolve_join_parts (hup : ['.', '.'] ∉ descents parts) :
    resolve (join (root :: parts)) = descents parts ++ resolve root := by
  rw [resolve_join_all, foldl_cons, foldl_parts, foldl_descent hup]
  rfl

/-- A name that is longer than all of a list. -/
def strange (l : List Path) : Path := List.replicate ((l.map List.length).sum + 1) 'a'

theorem ne_strange {l : List Path} (h : n ∈ l) : n ≠ strange l := by
  have hlen := List.le_sum_of_mem (mem_map_of_mem (f := List.length) h)
  intro heq
  rw [heq, strange, length_replicate] at hlen
  omega

theorem plain_strange (l : List Path) : Plain (strange l) :=
  .of_mem (c := 'a') (by simp [strange]) (by simp [strange]) (by decide)

theorem safeRemotePath_clean (hr : rooted p = true) (hback : '\\' ∉ p) : safeRemotePath (clean p) = .ok () := by
  have hp : p ≠ [] := by
    rintro rfl
    cases hr
  have htext : clean p = render true (resolve p) := by
    rw [clean, if_neg hp, hr, stack_eq_resolve hr]
  have hblank : ¬ ((clean p).all isSpace = true ∨ (clean p).contains '\\' = true) := by
    rintro (hall | hmem)
    · rw [htext] at hall
      simp [render, isSpace] at hall
    · rcases mem_clean (by simpa using hmem) with heq | heq | hmem
      · cases heq
      · cases heq
      · exact hback hmem
  have hup : ['.', '.'] ∉ (clean p).splitOn '/' := by
    by_cases hnil : resolve p = []
    · rw [htext, hnil]
      decide
    · have hs : Normal (resolve p) := normal_stack true p
      rw [htext, splitOn_render hs hnil]
      simpa using up_not_mem_resolve p
  rw [safeRemotePath, if_neg hblank, if_neg hup]

theorem repositoryPath_rooted (hr : rooted root = true) (hroot : '\\' ∉ root) (hclean : clean root = root)
    (hback : ∀ q ∈ parts, '\\' ∉ q) : repositoryPath root parts = .ok (join (root :: parts)) := by
  have hne : root ≠ [] := by
    rintro rfl
    cases hr
  refine repositoryPath_eq_ok.2 ⟨hclean ▸ safeRemotePath_clean hr hroot, ?_, rfl⟩
  have hjoin : join (root :: parts) = clean (List.intercalate ['/'] (root :: parts.filter (· ≠ []))) := by
    simp [join, hne]
  rw [hjoin]
  apply safeRemotePath_clean
  · cases hparts : parts.filter (· ≠ []) with
    | nil => simpa using hr
    | cons q l => rwa [intercalate_cons_cons, append_assoc, rooted_append hne]
  · intro hmem
    rcases mem_intercalate hmem with heq | ⟨part, hpart, hc⟩
    · cases heq
    · rcases mem_cons.1 hpart with rfl | hpart
      · exact hroot hc
      · exact hback part (mem_filter.1 hpart).1 hc

/-- With parts that lead out, a root of one name that they do not have is left behind. -/
theorem exists_outside_root (hback : ∀ q ∈ parts, '\\' ∉ q) (hup : ['.', '.'] ∈ descents parts) :
    ∃ root p, repositoryPath root parts = .ok p ∧ ¬ Beneath root p := by
  set components := (List.intercalate ['/'] parts).splitOn '/' with hcomponents
  have hn := plain_strange components
  have hroot : resolve ('/' :: strange components) = [strange components] := by
    rw [resolve_slash, resolve, splitOn_plain hn]
    exact push_plain hn true []
  have hclean : clean ('/' :: strange components) = '/' :: strange components := by
    rw [clean_slash, ← resolve_slash, hroot]
    simp [render]
  have hchars : '\\' ∉ '/' :: strange components := by simp [strange]
  refine ⟨_, _, repositoryPath_rooted rfl hchars hclean hback, ?_⟩
  rw [Beneath, resolve_join_all, foldl_cons, foldl_parts]
  change ¬ resolve ('/' :: strange components) <:+ components.foldl (push true) (resolve ('/' :: strange components))
  rw [hroot]
  intro hsuffix
  refine not_mem_foldl_push hn (fun part hpart => ⟨?_, ne_strange hpart⟩) .nil not_mem_nil not_mem_nil hup
    (hsuffix.subset mem_cons_self)
  exact slash_not_mem_of_mem_splitOn hpart

/-! All of them. -/

/-- A check that is made before the path is joined, or against the root, lets nothing out of the root.
The parts of a repository's path stay inside every root if they do not lead out of where they start, and
otherwise leave some root, if they hold no backslash; of those that stay inside, only parts that lead through
the same names have one path. Two names that a backup accepts have one path exactly if they are stored as one
name. -/
theorem paths_stay_inside (value : Path) (parts : List Path) :
    (∀ root p, resolveWithinRoot root value = .ok p → Beneath root p) ∧
      (∀ root p, normalizeRelativePath value = .ok p → Beneath root (root ++ '/' :: p)) ∧
      (∀ root, safeRemotePath value = .ok () → Beneath root (root ++ '/' :: value)) ∧
      (['.', '.'] ∉ descents parts → ∀ root p, repositoryPath root parts = .ok p → Beneath root p) ∧
      ((∀ q ∈ parts, '\\' ∉ q) → ['.', '.'] ∈ descents parts →
        ∃ root p, repositoryPath root parts = .ok p ∧ ¬ Beneath root p) ∧
      (∀ parts', ['.', '.'] ∉ descents parts → ['.', '.'] ∉ descents parts' → ∀ root p,
        repositoryPath root parts = .ok p → repositoryPath root parts' = .ok p →
          descents parts = descents parts') ∧
      ∀ root name, normalizeRelativePath value = .ok name →
        ∃ p, resolveWithinRoot root value = .ok p ∧ resolve (plannedTarget root name) = resolve p ∧
          ∀ value' name', normalizeRelativePath value' = .ok name' →
            (resolveWithinRoot root value' = .ok p ↔ name' = name) := by
  refine ⟨fun _ _ => within_of_resolveWithinRoot,
    fun root _ h => (named_of_normalize h).1.within root, fun _ => within_of_safeRemotePath, ?_,
    exists_outside_root, ?_, ?_⟩
  · intro hup root p hp
    obtain ⟨-, -, rfl⟩ := repositoryPath_eq_ok.1 hp
    exact ⟨descents parts, (resolve_join_parts hup).symm⟩
  · intro parts' hup hup' root p hp hp'
    obtain ⟨-, -, rfl⟩ := repositoryPath_eq_ok.1 hp
    obtain ⟨-, -, heq⟩ := repositoryPath_eq_ok.1 hp'
    have hsame := congrArg resolve heq
    rw [resolve_join_parts hup, resolve_join_parts hup'] at hsame
    exact (append_cancel_right hsame).symm
  · intro root name h
    obtain ⟨hnamed, -⟩ := named_of_normalize h
    refine ⟨_, resolveWithinRoot_of_normalize h, ?_, ?_⟩
    · rw [resolve_plannedTarget hnamed, resolve_placed hnamed.stays]
    · intro value' name' h'
      rw [resolveWithinRoot_of_normalize h', Except.ok.injEq, placed_inj h h']

/-- A part with steps up leads out of the repository: they are gone when the joined path is checked.
And two spellings of a name have one path. -/
theorem joined_parts_lead_out : repositoryPath "/b".toList ["../x".toList] = .ok "/x".toList ∧
      ¬ Beneath "/b".toList "/x".toList ∧
      resolveWithinRoot "/b".toList "./x".toList = resolveWithinRoot "/b".toList "x".toList := by
  decide +kernel

end Clumoove
