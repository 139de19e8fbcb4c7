import Mathlib.Tactic

/-! References into a state. A routine that takes objects by address is a function of
references, so what it does when two of its arguments are the same object is decided by
the order of its reads and writes, as in the source. -/

/-- The address of an object of type `τ` in a state: how to read it and how to write it. -/
structure Ref (σ τ : Type) where
  get : σ → τ
  set : τ → σ → σ
  get_set : ∀ v s, get (set v s) = v
  set_get : ∀ s, set (get s) s = s
  set_set : ∀ v w s, set v (set w s) = set v s

namespace Ref
variable {σ τ υ : Type}

attribute [simp] get_set set_get set_set

/-- The whole state. -/
def whole : Ref σ σ where
  get s := s
  set v _ := v
  get_set _ _ := rfl
  set_get _ := rfl
  set_set _ _ _ := rfl

/-- The first of two objects. -/
def fst : Ref (σ × τ) σ where
  get s := s.1
  set v s := (v, s.2)
  get_set _ _ := rfl
  set_get _ := rfl
  set_set _ _ _ := rfl

/-- The second of two objects. -/
def snd : Ref (σ × τ) τ where
  get s := s.2
  set v s := (s.1, v)
  get_set _ _ := rfl
  set_get _ := rfl
  set_set _ _ _ := rfl

/-- A member of the object at `r`. -/
def comp (r : Ref σ τ) (m : Ref τ υ) : Ref σ υ where
  get s := m.get (r.get s)
  set v s := r.set (m.set v (r.get s)) s
  get_set v s := by simp
  set_get s := by simp
  set_set v w s := by simp

@[simp] theorem whole_get (s : σ) : (whole : Ref σ σ).get s = s := rfl
@[simp] theorem whole_set (v s : σ) : whole.set v s = v := rfl
@[simp] theorem fst_get (s : σ × τ) : fst.get s = s.1 := rfl
@[simp] theorem fst_set (v : σ) (s : σ × τ) : fst.set v s = (v, s.2) := rfl
@[simp] theorem snd_get (s : σ × τ) : snd.get s = s.2 := rfl
@[simp] theorem snd_set (v : τ) (s : σ × τ) : snd.set v s = (s.1, v) := rfl
@[simp] theorem comp_get (r : Ref σ τ) (m : Ref τ υ) (s : σ) :
    (r.comp m).get s = m.get (r.get s) := rfl
@[simp] theorem comp_set (r : Ref σ τ) (m : Ref τ υ) (v : υ) (s : σ) :
    (r.comp m).set v s = r.set (m.set v (r.get s)) s := rfl

/-- Writing at one of the two addresses leaves what is at the other alone. -/
def Apart (r : Ref σ τ) (q : Ref σ υ) : Prop :=
  ∀ v w s, r.set v (q.set w s) = q.set w (r.set v s)

theorem Apart.symm {r : Ref σ τ} {q : Ref σ υ} (h : Apart r q) : Apart q r := by
  intro v w s
  exact (h w v s).symm

theorem Apart.get_set {r : Ref σ τ} {q : Ref σ υ} (h : Apart r q) (w : υ) (s : σ) :
    r.get (q.set w s) = r.get s := by
  calc r.get (q.set w s) = r.get (q.set w (r.set (r.get s) s)) := by rw [r.set_get]
    _ = r.get (r.set (r.get s) (q.set w s)) := by rw [h]
    _ = r.get s := r.get_set _ _

theorem apart_fst_snd : Apart (fst : Ref (σ × τ) σ) snd := by
  intro v w s
  rfl

/-- Objects that are apart have members that are apart. -/
theorem Apart.comp_left {ρ : Type} {r : Ref σ τ} {q : Ref σ υ} (h : Apart r q) (m : Ref τ ρ) :
    Apart (r.comp m) q := by
  intro v w s
  simp only [comp_set, h.get_set, h (m.set v (r.get s)) w s]

theorem Apart.comp_right {ρ : Type} {r : Ref σ τ} {q : Ref σ υ} (h : Apart r q) (m : Ref υ ρ) :
    Apart r (q.comp m) := (h.symm.comp_left m).symm

/-- Members of one object that are apart in it. -/
theorem Apart.inside {ρ : Type} {m : Ref τ υ} {n : Ref τ ρ} (h : Apart m n) (r : Ref σ τ) :
    Apart (r.comp m) (r.comp n) := by
  intro v w s
  simp only [comp_set, r.get_set, r.set_set, h v w]

/-- Two arguments of one type: the same object, or objects that do not overlap. -/
def SameOrApart (r q : Ref σ τ) : Prop := r = q ∨ Apart r q

theorem SameOrApart.refl (r : Ref σ τ) : SameOrApart r r := Or.inl rfl

theorem SameOrApart.comp {r q : Ref σ τ} (h : SameOrApart r q) (m : Ref τ υ) :
    SameOrApart (r.comp m) (q.comp m) := by
  cases h with
  | inl h => exact Or.inl (congrArg (Ref.comp · m) h)
  | inr h => exact Or.inr ((h.comp_left m).comp_right m)

/-- Different members do not overlap, whether or not the objects are the same. -/
theorem SameOrApart.members {ρ : Type} {r q : Ref σ τ} (h : SameOrApart r q) {m : Ref τ υ}
    {n : Ref τ ρ} (hm : Apart m n) : Apart (r.comp m) (q.comp n) := by
  cases h with
  | inl h =>
    subst h
    exact hm.inside r
  | inr h => exact (h.comp_left m).comp_right n

end Ref

/-! Calls on local objects. A local object is no argument of the caller, so it is apart
from every object the caller was given. -/
namespace Call
variable {τ : Type}

/-- A routine with a target. -/
abbrev Op₀ (τ : Type) := ∀ {σ : Type}, Ref σ τ → σ → σ

/-- A routine with one operand and a target. -/
abbrev Op₁ (τ : Type) := ∀ {σ : Type}, Ref σ τ → Ref σ τ → σ → σ

/-- A routine with two operands and a target. -/
abbrev Op₂ (τ : Type) := ∀ {σ : Type}, Ref σ τ → Ref σ τ → Ref σ τ → σ → σ

/-- A call with a local operand `a` and a target of the caller. -/
def from₁ {σ : Type} (f : Op₁ τ) (a : τ) (target : Ref σ τ) (s : σ) : σ :=
  (f Ref.snd (Ref.fst.comp target) (s, a)).1

/-- A call with local operands `a` and `b` and a target of the caller. -/
def from₂ {σ : Type} (f : Op₂ τ) (a b : τ) (target : Ref σ τ) (s : σ) : σ :=
  (f (Ref.snd.comp Ref.fst) (Ref.snd.comp Ref.snd) (Ref.fst.comp target) (s, a, b)).1

/-- A call whose target is the first operand as well; the second operand is local. -/
def update₂ {σ : Type} (f : Op₂ τ) (target : Ref σ τ) (b : τ) (s : σ) : σ :=
  (f (Ref.fst.comp target) Ref.snd (Ref.fst.comp target) (s, b)).1

/-- What a call leaves in a local target. -/
def into₀ [Inhabited τ] (f : Op₀ τ) : τ := f Ref.whole default

/-- What a call with operand `a` leaves in a local target. -/
def into₁ [Inhabited τ] (f : Op₁ τ) (a : τ) : τ := from₁ f a Ref.whole default

/-- What a call with operands `a` and `b` leaves in a local target. -/
def into₂ [Inhabited τ] (f : Op₂ τ) (a b : τ) : τ := from₂ f a b Ref.whole default

/-- What a call leaves in a local operand when that is its target as well. -/
def inPlace₁ (f : Op₁ τ) (a : τ) : τ := f Ref.whole Ref.whole a

/-- What a call leaves in a local first operand when that is its target as well. -/
def inPlace₂ (f : Op₂ τ) (a b : τ) : τ := update₂ f Ref.whole b a

/-- The routine sets its target to `v`. -/
def Computes₀ (f : Op₀ τ) (v : τ) : Prop :=
  ∀ (σ : Type) (t : Ref σ τ) (s : σ), f t s = t.set v s

/-- The routine sets its target to `g` of its operand, also when they are one object. -/
def Computes₁ (f : Op₁ τ) (g : τ → τ) : Prop :=
  ∀ (σ : Type) (n t : Ref σ τ) (s : σ), n.SameOrApart t → f n t s = t.set (g (n.get s)) s

/-- The routine sets its target to `g` of its operand when they are two objects. -/
def ComputesApart₁ (f : Op₁ τ) (g : τ → τ) : Prop :=
  ∀ (σ : Type) (n t : Ref σ τ) (s : σ), n.Apart t → f n t s = t.set (g (n.get s)) s

theorem Computes₁.apart {f : Op₁ τ} {g : τ → τ} (h : Computes₁ f g) : ComputesApart₁ f g :=
  fun σ n t s hn => h σ n t s (Or.inr hn)

/-- The routine sets its target to `g` of its operands, also when the target is one of them. -/
def Computes₂ (f : Op₂ τ) (g : τ → τ → τ) : Prop :=
  ∀ (σ : Type) (n₁ n₂ t : Ref σ τ) (s : σ), n₁.SameOrApart t → n₂.SameOrApart t →
    f n₁ n₂ t s = t.set (g (n₁.get s) (n₂.get s)) s

theorem into₀_eq [Inhabited τ] {f : Op₀ τ} {v : τ} (h : Computes₀ f v) : into₀ f = v :=
  h τ Ref.whole default

theorem from₁_eq {σ : Type} {f : Op₁ τ} {g : τ → τ} (h : ComputesApart₁ f g) (a : τ)
    (target : Ref σ τ) (s : σ) : from₁ f a target s = target.set (g a) s :=
  congrArg Prod.fst (h _ Ref.snd (Ref.fst.comp target) (s, a)
    (Ref.apart_fst_snd.symm.comp_right _))

theorem from₂_eq {σ : Type} {f : Op₂ τ} {g : τ → τ → τ} (h : Computes₂ f g) (a b : τ)
    (target : Ref σ τ) (s : σ) : from₂ f a b target s = target.set (g a b) s := by
  have hlocal (m : Ref (τ × τ) τ) :
      (Ref.snd.comp m : Ref (σ × τ × τ) τ).SameOrApart (Ref.fst.comp target) :=
    Or.inr ((Ref.apart_fst_snd.symm.comp_left m).comp_right target)
  exact congrArg Prod.fst (h _ _ _ _ (s, a, b) (hlocal Ref.fst) (hlocal Ref.snd))

theorem update₂_eq {σ : Type} {f : Op₂ τ} {g : τ → τ → τ} (h : Computes₂ f g)
    (target : Ref σ τ) (b : τ) (s : σ) : update₂ f target b s = target.set (g (target.get s) b) s :=
  congrArg Prod.fst (h _ (Ref.fst.comp target) Ref.snd (Ref.fst.comp target) (s, b)
    (Ref.SameOrApart.refl _) (Or.inr (Ref.apart_fst_snd.symm.comp_right _)))

theorem into₁_eq [Inhabited τ] {f : Op₁ τ} {g : τ → τ} (h : ComputesApart₁ f g) (a : τ) :
    into₁ f a = g a := from₁_eq h a Ref.whole default

theorem into₂_eq [Inhabited τ] {f : Op₂ τ} {g : τ → τ → τ} (h : Computes₂ f g) (a b : τ) :
    into₂ f a b = g a b := from₂_eq h a b Ref.whole default

theorem inPlace₁_eq {f : Op₁ τ} {g : τ → τ} (h : Computes₁ f g) (a : τ) :
    inPlace₁ f a = g a := h τ Ref.whole Ref.whole a (Ref.SameOrApart.refl _)

theorem inPlace₂_eq {f : Op₂ τ} {g : τ → τ → τ} (h : Computes₂ f g) (a b : τ) :
    inPlace₂ f a b = g a b := update₂_eq h Ref.whole b a

end Call
