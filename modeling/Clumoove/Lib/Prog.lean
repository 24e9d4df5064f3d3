import Mathlib.Tactic.Common

/-! Programs as trees of operations, and a logic for a program that runs while other parties
change the world between any two of its operations. -/

/-- A program that performs operations and returns a value. -/
inductive Prog (Op : Type) (Res : Op → Type) (α : Type) : Type
  | ret (a : α)
  | call (op : Op) (k : Res op → Prog Op Res α)

namespace Prog

variable {Op : Type} {Res : Op → Type} {W α β : Type}

def bind : Prog Op Res α → (α → Prog Op Res β) → Prog Op Res β
  | .ret a, f => f a
  | .call op k, f => .call op fun r => (k r).bind f

instance : Monad (Prog Op Res) where
  pure := .ret
  bind := bind

theorem bind_bind {γ : Type} (p : Prog Op Res α) (f : α → Prog Op Res β) (g : β → Prog Op Res γ) :
    (p >>= f) >>= g = p >>= fun a => f a >>= g := by
  induction p with
  | ret a => rfl
  | call op k ih => exact congrArg (Prog.call op) (funext fun r => ih r)

/-- What a program's logic is relative to: an invariant of all states, the changes other
parties may make, those the program itself may make, and the outcomes of an operation. -/
structure Logic (Op : Type) (Res : Op → Type) (W : Type) where
  inv : W → Prop
  rely : W → W → Prop
  guar : W → W → Prop
  exec : (op : Op) → W → Res op → W → Prop
  rely_refl : ∀ w, rely w w
  rely_trans : ∀ {a b c}, rely a b → rely b c → rely a c

variable (L : Logic Op Res W)

/-- An assertion that other parties do not break. -/
def Logic.Stable (P : W → Prop) : Prop := ∀ {w w'}, P w → L.rely w w' → L.inv w' → P w'

/-- From this state every run of the program keeps the invariant and the guarantee and ends
in `Q`. -/
def wp : Prog Op Res α → (α → W → Prop) → W → Prop
  | .ret a, Q, w => Q a w
  | .call op k, Q, w => ∀ w₁, L.rely w w₁ → L.inv w₁ → ∀ r w₂, L.exec op w₁ r w₂ →
      L.guar w₁ w₂ ∧ L.inv w₂ ∧ (k r).wp Q w₂

variable {L}

theorem wp_mono {Q Q' : α → W → Prop} (hQ : ∀ a w, Q a w → Q' a w) {p : Prog Op Res α}
    (h : p.wp L Q w) : p.wp L Q' w := by
  induction p generalizing w with
  | ret a => exact hQ a w h
  | call op k ih =>
    intro w₁ hr hi r w₂ hx
    obtain ⟨hg, hi₂, hk⟩ := h w₁ hr hi r w₂ hx
    exact ⟨hg, hi₂, ih r hk⟩

theorem wp_bind {p : Prog Op Res α} {f : α → Prog Op Res β} {Q : β → W → Prop}
    (h : p.wp L (fun a => (f a).wp L Q) w) : (p >>= f).wp L Q w := by
  induction p generalizing w with
  | ret a => exact h
  | call op k ih =>
    intro w₁ hr hi r w₂ hx
    obtain ⟨hg, hi₂, hk⟩ := h w₁ hr hi r w₂ hx
    exact ⟨hg, hi₂, ih r hk⟩

/-- Waiting for its turn costs a program nothing. -/
theorem wp_rely {Q : α → W → Prop} (hQ : ∀ a, L.Stable (Q a)) {p : Prog Op Res α} {w w' : W}
    (h : p.wp L Q w) (hr : L.rely w w') (hi : L.inv w') : p.wp L Q w' := by
  cases p with
  | ret a => exact hQ a h hr hi
  | call op k =>
    intro w₁ hr₁ hi₁ r w₂ hx
    exact h w₁ (L.rely_trans hr hr₁) hi₁ r w₂ hx

/-- Every operation the program may come to perform satisfies `A`. -/
def Uses (A : Op → Prop) : Prog Op Res α → Prop
  | .ret _ => True
  | .call op k => A op ∧ ∀ r, (k r).Uses A

theorem Uses.bind {p : Prog Op Res α} {f : α → Prog Op Res β} (hp : p.Uses A)
    (hf : ∀ a, (f a).Uses A) : (p >>= f).Uses A := by
  induction p with
  | ret a => exact hf a
  | call op k ih => exact ⟨hp.1, fun r => ih r (hp.2 r)⟩

theorem Uses.mono (h : ∀ op, A op → B op) {p : Prog Op Res α} (hp : p.Uses A) : p.Uses B := by
  induction p with
  | ret a => trivial
  | call op k ih => exact ⟨h op hp.1, fun r => ih r (hp.2 r)⟩

/-- Operations that keep an assertion keep it through a whole program. -/
theorem Uses.wp {P : W → Prop} {p : Prog Op Res α} (hp : p.Uses A)
    (hP : L.Stable P) (h : ∀ op w r w', A op → L.inv w → P w → L.exec op w r w' →
      L.guar w w' ∧ L.inv w' ∧ P w') (hi : L.inv w) (hw : P w) :
    p.wp L (fun _ w => L.inv w ∧ P w) w := by
  induction p generalizing w with
  | ret a => exact ⟨hi, hw⟩
  | call op k ih =>
    intro w₁ hr hi₁ r w₂ hx
    obtain ⟨hg, hi₂, hP₂⟩ := h op w₁ r w₂ hp.1 hi₁ (hP hw hr hi₁) hx
    exact ⟨hg, hi₂, ih r (hp.2 r) hi₂ hP₂⟩

/-! Programs that keep to a protocol. -/

/-- A state that follows the calls of one program, which call may come in which state, and which
answers are possible at all. -/
structure Protocol (Op : Type) (Res : Op → Type) (S : Type) where
  next : S → (op : Op) → Res op → S
  allowed : S → Op → Prop
  answers : (op : Op) → Res op → Prop := fun _ _ => True

section Follows

variable {S : Type} (T : Protocol Op Res S)

/-- Every call of the program is allowed when it comes, and the program returns in `Q`. -/
def Follows (Q : α → S → Prop) : Prog Op Res α → S → Prop
  | .ret a, s => Q a s
  | .call op k, s => T.allowed s op ∧ ∀ r, T.answers op r → (k r).Follows Q (T.next s op r)

variable {T}

theorem Follows.mono {Q Q' : α → S → Prop} (hQ : ∀ a s, Q a s → Q' a s) {p : Prog Op Res α} {s : S}
    (h : p.Follows T Q s) : p.Follows T Q' s := by
  induction p generalizing s with
  | ret a => exact hQ a s h
  | call op k ih => exact ⟨h.1, fun r hr => ih r (h.2 r hr)⟩

theorem follows_bind {Q : β → S → Prop} {p : Prog Op Res α} {f : α → Prog Op Res β} {s : S} :
    (p >>= f).Follows T Q s ↔ p.Follows T (fun a s => (f a).Follows T Q s) s := by
  induction p generalizing s with
  | ret a => exact Iff.rfl
  | call op k ih => exact and_congr_right' (forall_congr' fun r => imp_congr_right fun _ => ih r)

theorem Follows.bind {Q : β → S → Prop} {p : Prog Op Res α} {f : α → Prog Op Res β} {s : S}
    (h : p.Follows T (fun a s => (f a).Follows T Q s) s) : (p >>= f).Follows T Q s :=
  follows_bind.2 h

theorem Follows.of_allowed (h : ∀ s op, T.allowed s op) (p : Prog Op Res α) (s : S) :
    p.Follows T (fun _ _ => True) s := by
  induction p generalizing s with
  | ret a => trivial
  | call op k ih => exact ⟨h s op, fun r _ => ih r _⟩

/-- Operations that are allowed in a state and leave it as it is. -/
theorem Uses.follows {p : Prog Op Res α} (hp : p.Uses A) {s : S}
    (hallowed : ∀ op, A op → T.allowed s op) (hnext : ∀ op r, A op → T.next s op r = s) :
    p.Follows T (fun _ s' => s' = s) s := by
  induction p with
  | ret a => rfl
  | call op k ih =>
    refine ⟨hallowed op hp.1, fun r _ => ?_⟩
    rw [hnext op r hp.1]
    exact ih r (hp.2 r)

/-- Some operations are allowed, in any order. -/
@[simps] def Protocol.only (A : Op → Prop) : Protocol Op Res Unit where
  next _ _ _ := ()
  allowed _ := A

theorem uses_of_follows {p : Prog Op Res α}
    (h : p.Follows (.only A) (fun _ _ => True) ()) : p.Uses A := by
  induction p with
  | ret a => trivial
  | call op k ih => exact ⟨h.1, fun r => ih r (h.2 r trivial)⟩

/-- Operations that are allowed where something holds of the state, and keep that. -/
theorem Uses.follows_of_keeps {I : S → Prop} {p : Prog Op Res α} (hp : p.Uses A)
    (hallowed : ∀ s op, A op → I s → T.allowed s op)
    (hnext : ∀ s op r, A op → I s → T.answers op r → I (T.next s op r)) {s : S} (hs : I s) :
    p.Follows T (fun _ => I) s := by
  induction p generalizing s with
  | ret a => exact hs
  | call op k ih =>
    exact ⟨hallowed s op hp.1 hs, fun r hr => ih r (hp.2 r) (hnext s op r hp.1 hs hr)⟩

end Follows

/-! Programs whose operations may fail. -/

section Fallible

variable {Val : Op → Type} {ε : Type}

/-- A program that stops at the first error it does not handle. -/
abbrev Fallible (Op : Type) (Val : Op → Type) (ε : Type) : Type → Type :=
  ExceptT ε (Prog Op fun op => Except ε (Val op))

variable {x : Fallible Op Val ε α} {f : α → Fallible Op Val ε β} {A B : Op → Prop} {op : Op} {w : W}
  {a : α} {e : ε}

/-- One operation; its error is the program's. -/
def perform (op : Op) : Fallible Op Val ε (Val op) := ExceptT.mk (.call op .ret)

/-- A program's result as a value, error or not. -/
def attempt (x : Fallible Op Val ε α) : Fallible Op Val ε (Except ε α) :=
  ExceptT.mk (x.run >>= fun r => .ret (.ok r))

theorem attempt_bind_run (x : Fallible Op Val ε α) (f : Except ε α → Fallible Op Val ε β) :
    (attempt x >>= f).run = x.run >>= fun r => (f r).run :=
  bind_bind x.run (fun r => Prog.ret (Except.ok r)) (ExceptT.bindCont f)

section FollowsFallible

variable {S : Type} {T : Protocol Op (fun op => Except ε (Val op)) S}

/-! A program is executed step by step by `simp`: what is left are the conditions of its calls. -/

section Execution

variable {s : S} {f : α → Fallible Op Val ε β} {Q : Except ε β → S → Prop}

variable (T) in
/-- `Follows`, for a program whose operations may fail. -/
def Abides (x : Fallible Op Val ε β) (Q : Except ε β → S → Prop) (s : S) : Prop :=
  x.run.Follows T Q s

theorem Abides.follows {x : Fallible Op Val ε β} (h : Abides T x Q s) : x.run.Follows T Q s := h

variable (T f Q) in
/-- What follows on the first part of a program. An error ends it. -/
def After : Except ε α → S → Prop
  | .ok a, s => Abides T (f a) Q s
  | .error e, s => Q (.error e) s

@[simp] theorem after_ok : After T f Q (.ok a) s ↔ Abides T (f a) Q s := Iff.rfl

@[simp] theorem after_error : After T f Q (.error e) s ↔ Q (.error e) s := Iff.rfl

@[simp] theorem abides_bind : Abides T (x >>= f) Q s ↔ Abides T x (After T f Q) s := by
  refine follows_bind.trans ⟨fun h => h.mono ?_, fun h => h.mono ?_⟩
  · intro r s' hr
    cases r <;> exact hr
  · intro r s' hr
    cases r <;> exact hr

@[simp] theorem abides_perform {Q : Except ε (Val op) → S → Prop} :
    Abides T (perform op) Q s ↔ T.allowed s op ∧
      (∀ a, T.answers op (.ok a) → Q (.ok a) (T.next s op (.ok a))) ∧
      ∀ e, T.answers op (.error e) → Q (.error e) (T.next s op (.error e)) := by
  refine and_congr_right' ⟨fun h => ⟨fun a => h (.ok a), fun e => h (.error e)⟩, fun h r => ?_⟩
  cases r with
  | ok a => exact h.1 a
  | error e => exact h.2 e

@[simp] theorem abides_pure {b : β} : Abides T (pure b) Q s ↔ Q (.ok b) s := Iff.rfl

@[simp] theorem abides_throw : Abides T (throw e) Q s ↔ Q (.error e) s := Iff.rfl

@[simp] theorem abides_attempt {Q : Except ε (Except ε α) → S → Prop} :
    Abides T (attempt x) Q s ↔ Abides T x (fun r => Q (.ok r)) s :=
  follows_bind

@[simp] theorem abides_ite {c : Prop} [Decidable c] {x y : Fallible Op Val ε β} :
    Abides T (if c then x else y) Q s ↔ (c → Abides T x Q s) ∧ (¬ c → Abides T y Q s) := by
  split_ifs with h <;> simp [h]

end Execution

end FollowsFallible

variable (L : Logic Op (fun op => Except ε (Val op)) W)

/-- From a state with `P`, the program keeps the invariant, returns in `Q` or fails in `E`. -/
def Triple (P : W → Prop) (x : Fallible Op Val ε α) (Q : α → W → Prop) (E : ε → W → Prop) : Prop :=
  ∀ w, L.inv w → P w → x.run.wp L
    (fun | .ok a => fun w => L.inv w ∧ Q a w | .error e => fun w => L.inv w ∧ E e w) w

variable {L} {P R : W → Prop} {Q S : α → W → Prop} {E F : ε → W → Prop}

theorem Triple.pure (h : ∀ w, L.inv w → P w → Q a w) :
    Triple L P (Pure.pure a : Fallible Op Val ε α) Q E :=
  fun w hi hP => ⟨hi, h w hi hP⟩

theorem Triple.throw (h : ∀ w, L.inv w → P w → E e w) :
    Triple L P (throw e : Fallible Op Val ε α) Q E :=
  fun w hi hP => ⟨hi, h w hi hP⟩

theorem Triple.conseq (h : Triple L R x S F)
    (hP : ∀ w, L.inv w → P w → R w) (hQ : ∀ a w, S a w → Q a w) (hE : ∀ e w, F e w → E e w) :
    Triple L P x Q E := by
  intro w hi hw
  refine wp_mono ?_ (h w hi (hP w hi hw))
  intro r w' hr
  cases r with
  | ok a => exact ⟨hr.1, hQ a w' hr.2⟩
  | error e => exact ⟨hr.1, hE e w' hr.2⟩

theorem Triple.pre (h : Triple L R x Q E) (hP : ∀ w, L.inv w → P w → R w) : Triple L P x Q E :=
  h.conseq hP (fun _ _ hQ => hQ) fun _ _ hE => hE

theorem Triple.drop (h : Triple L P x Q E) : Triple L P x Q (fun _ _ => True) :=
  h.conseq (fun _ _ hP => hP) (fun _ _ hQ => hQ) fun _ _ _ => trivial

/-- The same with nothing said about a program that fails. -/
abbrev Ensures (L : Logic Op (fun op => Except ε (Val op)) W) (P : W → Prop)
    (x : Fallible Op Val ε α) (Q : α → W → Prop) : Prop :=
  Triple L P x Q fun _ _ => True

/-- From a state with `P`, the program keeps the invariant. -/
abbrev Runs (L : Logic Op (fun op => Except ε (Val op)) W) (P : W → Prop)
    (x : Fallible Op Val ε α) : Prop :=
  Triple L P x (fun _ _ => True) (fun _ _ => True)

theorem Triple.runs (h : Triple L P x Q E) : Runs L P x :=
  h.conseq (fun _ _ hP => hP) (fun _ _ _ => trivial) fun _ _ _ => trivial

theorem Triple.bind {R : β → W → Prop}
    (hx : Triple L P x Q E) (hf : ∀ a, Triple L (Q a) (f a) R E) : Triple L P (x >>= f) R E := by
  intro w hi hP
  refine wp_bind (wp_mono ?_ (hx w hi hP))
  intro r w' hr
  cases r with
  | ok a => exact hf a w' hr.1 hr.2
  | error e => exact hr

theorem Triple.perform {Q : Val op → W → Prop} (hP : L.Stable P)
    (h : ∀ w r w', L.inv w → P w → L.exec op w r w' → L.guar w w' ∧ L.inv w' ∧
      match r with | .ok a => Q a w' | .error e => E e w') : Triple L P (Prog.perform op) Q E := by
  intro w hi hw w₁ hr hi₁ r w₂ hx
  obtain ⟨hg, hi₂, hres⟩ := h w₁ r w₂ hi₁ (hP hw hr hi₁) hx
  refine ⟨hg, hi₂, ?_⟩
  cases r with
  | ok | error => exact ⟨hi₂, hres⟩

theorem Triple.attempt {R : Except ε α → W → Prop}
    (h : Triple L P x (fun a => R (.ok a)) (fun e => R (.error e))) :
    Triple L P (Prog.attempt x) R E := by
  intro w hi hP
  refine wp_bind (wp_mono ?_ (h w hi hP))
  intro r w' hr
  cases r with
  | ok a => exact hr
  | error e => exact hr

/-- A part of a program may be proved under a stronger invariant, if the others keep that as
well. -/
theorem Triple.under {L' : Logic Op (fun op => Except ε (Val op)) W}
    (hinv : ∀ w, L'.inv w → L.inv w)
    (hrely : ∀ w w', L'.inv w → L.rely w w' → L.inv w' → L'.rely w w' ∧ L'.inv w')
    (hguar : ∀ w w', L'.guar w w' → L.guar w w')
    (hexec : ∀ op w r w', L.exec op w r w' → L'.exec op w r w') (h : Triple L' P x Q E) :
    Triple L (fun w => L'.inv w ∧ P w) x (fun a w => L'.inv w ∧ Q a w)
      (fun e w => L'.inv w ∧ E e w) := by
  have key : ∀ (p : Prog Op (fun op => Except ε (Val op)) (Except ε α)) (R : Except ε α → W → Prop)
      (w : W), L'.inv w → p.wp L' R w → p.wp L (fun r w => L'.inv w ∧ R r w) w := by
    intro p R
    induction p with
    | ret r => exact fun w hi hR => ⟨hi, hR⟩
    | call op k ih =>
      intro w hi hw w₁ hr hi₁ r w₂ hx
      obtain ⟨hr', hi'⟩ := hrely w w₁ hi hr hi₁
      obtain ⟨hg, hi₂, hk⟩ := hw w₁ hr' hi' r w₂ (hexec op w₁ r w₂ hx)
      exact ⟨hguar w₁ w₂ hg, hinv w₂ hi₂, ih r w₂ hi₂ hk⟩
  intro w _ hP
  refine wp_mono ?_ (key _ _ w hP.1 (h w hP.1 hP.2))
  intro r w' hr
  cases r with
  | ok | error => exact ⟨hinv w' hr.1, hr.1, hr.2.2⟩

/-- Every operation of a program that may fail satisfies `A`. -/
def Within (A : Op → Prop) (x : Fallible Op Val ε α) : Prop := x.run.Uses A

section Within

variable {A : Op → Prop}

theorem Within.pure (a : α) : Within A (Pure.pure a : Fallible Op Val ε α) := trivial

theorem Within.throw (e : ε) : Within A (throw e : Fallible Op Val ε α) := trivial

theorem Within.bind (hx : Within A x) (hf : ∀ a, Within A (f a)) : Within A (x >>= f) := by
  refine Uses.bind hx fun r => ?_
  cases r with
  | ok a => exact hf a
  | error e => trivial

theorem Within.perform (h : A op) : Within A (Prog.perform op : Fallible Op Val ε (Val op)) :=
  ⟨h, fun _ => trivial⟩

theorem Within.attempt (h : Within A x) : Within A (Prog.attempt x) :=
  Uses.bind h fun _ => trivial

theorem Within.mono (h : ∀ op, A op → B op) (hx : Within A x) : Within B x :=
  Uses.mono h hx

/-- Operations of one kind, in any order and with any answers. -/
def kind (A : Op → Prop) : Protocol Op (fun op => Except ε (Val op)) Unit where
  next _ _ _ := ()
  allowed _ op := A op
  answers _ _ := True

@[simp] theorem kind_allowed {u : Unit} :
    (kind A : Protocol Op (fun op => Except ε (Val op)) Unit).allowed u op ↔ A op :=
  Iff.rfl

/-- The rules of `Abides` then execute the program. -/
theorem within_iff : Within A x ↔ Abides (kind A) x (fun _ _ => True) () := by
  unfold Within Abides
  generalize x.run = p
  induction p with
  | ret r => exact Iff.rfl
  | call op k ih =>
    exact and_congr Iff.rfl ⟨fun h r _ => (ih r).1 (h r), fun h r => (ih r).2 (h r trivial)⟩

/-- The operations of a list that is looked up one operation at a time. -/
def Marked (p : Op → Bool) (op : Op) : Prop := p op = true

@[simp] theorem marked_iff {p : Op → Bool} : Marked p op ↔ p op = true := Iff.rfl

/-- Every operation satisfies `A`, and a value the program returns satisfies `Q`. -/
def Gives (A : Op → Prop) (Q : α → Prop) : Prog Op (fun op => Except ε (Val op)) (Except ε α) → Prop
  | .ret r => ∀ a, r = .ok a → Q a
  | .call op k => A op ∧ ∀ r, (k r).Gives A Q

theorem Gives.within {Q : α → Prop} (h : Gives A Q x.run) : Within A x := by
  unfold Within
  generalize x.run = p at h ⊢
  induction p with
  | ret r => trivial
  | call op k ih => exact ⟨h.1, fun r => ih r (h.2 r)⟩

theorem Gives.pure {Q : α → Prop} (h : Q a) :
    Gives A Q (Pure.pure a : Fallible Op Val ε α).run := by
  intro b hb
  cases hb
  exact h

theorem Gives.throw {Q : α → Prop} (e : ε) : Gives A Q (throw e : Fallible Op Val ε α).run :=
  nofun

theorem Gives.bind {Q : α → Prop} {R : β → Prop} (hx : Gives A Q x.run) (hf : ∀ a, Q a → Gives A R (f a).run) :
    Gives A R (x >>= f).run := by
  have key : ∀ p : Prog Op (fun op => Except ε (Val op)) (Except ε α), Gives A Q p →
      Gives A R (p >>= ExceptT.bindCont f) := by
    intro p hp
    induction p with
    | ret r =>
      cases r with
      | ok a => exact hf a (hp a rfl)
      | error e => exact nofun
    | call op k ih => exact ⟨hp.1, fun r => ih r (hp.2 r)⟩
  exact key x.run hx

theorem Gives.mono {Q R : α → Prop} (hAB : ∀ op, A op → B op)
    (h : ∀ a, Q a → R a) (hx : Gives A Q x.run) : Gives B R x.run := by
  generalize x.run = p at hx ⊢
  induction p with
  | ret r => exact fun a ha => h a (hx a ha)
  | call op k ih => exact ⟨hAB op hx.1, fun r => ih r (hx.2 r)⟩

theorem Within.gives (h : Within A x) : Gives A (fun _ => True) x.run := by
  unfold Within at h
  generalize x.run = p at h ⊢
  induction p with
  | ret r => exact fun _ _ => trivial
  | call op k ih => exact ⟨h.1, fun r => ih r (h.2 r)⟩

theorem Within.gives_bind {R : β → Prop} (hx : Within A x) (hf : ∀ a, Gives A R (f a).run) :
    Gives A R (x >>= f).run :=
  hx.gives.bind fun a _ => hf a

/-- A program of operations that keep an assertion keeps it. -/
theorem Within.triple (hx : Within A x) (hP : L.Stable P)
    (h : ∀ op w r w', A op → L.inv w → P w → L.exec op w r w' → L.guar w w' ∧ L.inv w' ∧ P w') :
    Triple L P x (fun _ => P) (fun _ => P) := by
  intro w hi hw
  refine wp_mono ?_ (Uses.wp hx hP h hi hw)
  intro r w' hr
  cases r <;> exact hr

/-- What a program is known to return may be used after it. -/
theorem Triple.and_gives {R : α → Prop} (h : Triple L P x Q E)
    (hx : Gives A R x.run) : Triple L P x (fun a w => Q a w ∧ R a) E := by
  have key : ∀ (p : Prog Op (fun op => Except ε (Val op)) (Except ε α))
      (S : Except ε α → W → Prop) (w : W), Gives A R p → p.wp L S w →
      p.wp L (fun r w => S r w ∧ ∀ a, r = .ok a → R a) w := by
    intro p S
    induction p with
    | ret r => exact fun w hr hS => ⟨hS, hr⟩
    | call op k ih =>
      intro w hg hw w₁ hr hi₁ r w₂ hx
      obtain ⟨hguar, hi₂, hk⟩ := hw w₁ hr hi₁ r w₂ hx
      exact ⟨hguar, hi₂, ih r w₂ (hg.2 r) hk⟩
  intro w hi hP
  refine wp_mono ?_ (key _ _ w hx (h w hi hP))
  intro r w' hr
  cases r with
  | ok a => exact ⟨hr.1.1, hr.1.2, hr.2 a rfl⟩
  | error e => exact hr.1

end Within

end Fallible

end Prog
