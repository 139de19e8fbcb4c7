import Mathlib.Tactic

/-! Code that updates memory and may leave by an exception. As with `setjmp` and
`longjmp`, the memory written before a throw stays written, which is the behaviour
of `EStateM`. A two-run judgement relates two executions of the same code. -/
namespace Exec

/-- Why code was left: a thrown code, or an access outside an object. -/
inductive Fault where
  | thrown (code : UInt16)
  | outOfRange
  deriving DecidableEq, Repr

abbrev Checked (α : Type) := Except Fault α

variable {σ τ α β ε : Type}

/-- The value of a range-checked access. -/
def inRange : Option α → Checked α
  | some a => .ok a
  | none => .error .outOfRange

@[simp] theorem inRange_some (a : α) : inRange (some a) = .ok a := rfl
@[simp] theorem inRange_none : inRange (none : Option α) = .error .outOfRange := rfl

theorem inRange_eq_ok {x : Option α} {a : α} (h : inRange x = .ok a) : x = some a := by
  cases x with
  | none => simp at h
  | some b => simpa using h

theorem inRange_eq_error {x : Option α} {e : Fault} (h : inRange x = .error e) :
    e = .outOfRange := by
  cases x with
  | none => simpa using h.symm
  | some a => simp at h

/-- Run code that touches no memory. -/
def ofChecked : Checked α → EStateM Fault σ α
  | .ok a => pure a
  | .error e => throw e

@[simp] theorem run_ofChecked_ok (a : α) (s : σ) :
    (ofChecked (.ok a) : EStateM Fault σ α).run s = .ok a s := rfl

@[simp] theorem run_ofChecked_error (e : Fault) (s : σ) :
    (ofChecked (.error e) : EStateM Fault σ α).run s = .error e s := rfl

/-- `THROW(code)`. -/
def throwCode (code : UInt16) : EStateM Fault σ α := throw (.thrown code)

@[simp] theorem run_throwCode (code : UInt16) (s : σ) :
    (throwCode code : EStateM Fault σ α).run s = .error (.thrown code) s := rfl

/-- Run code on a part of the memory; the rest is left alone. -/
def onPart (get : σ → τ) (put : τ → σ → σ) (x : EStateM ε τ α) : EStateM ε σ α := fun s =>
  match x.run (get s) with
  | .ok a t => .ok a (put t s)
  | .error e t => .error e (put t s)

@[simp] theorem run_onPart (get : σ → τ) (put : τ → σ → σ) (x : EStateM ε τ α) (s : σ) :
    (onPart get put x).run s = match x.run (get s) with
      | .ok a t => .ok a (put t s)
      | .error e t => .error e (put t s) := rfl

@[simp] theorem run_map (f : α → β) (x : EStateM ε σ α) (s : σ) :
    (f <$> x).run s = match x.run s with
      | .ok a t => .ok (f a) t
      | .error e t => .error e t := by
  simp only [EStateM.run, Functor.map, EStateM.map]
  cases x s <;> rfl

/-- Run code whose locals start as `frame` and are gone when it is left. -/
def callFrame (frame : τ) (x : EStateM ε τ α) : EStateM ε σ α := fun s =>
  match x.run frame with
  | .ok a _ => .ok a s
  | .error e _ => .error e s

@[simp] theorem run_callFrame (frame : τ) (x : EStateM ε τ α) (s : σ) :
    (callFrame frame x).run s = match x.run frame with
      | .ok a _ => .ok a s
      | .error e _ => .error e s := rfl

/-! Weakest preconditions, with one postcondition for each way to leave. -/

/-- Code run from `s` ends in `post`, or leaves by an exception in `err`. -/
def Wp (x : EStateM ε σ α) (post : α → σ → Prop) (err : ε → σ → Prop) (s : σ) : Prop :=
  match x.run s with
  | .ok a t => post a t
  | .error e t => err e t

section Wp
variable {post post' : α → σ → Prop} {err err' : ε → σ → Prop} {s : σ}

theorem Wp.mono {x : EStateM ε σ α} (h : Wp x post err s) (hpost : ∀ a t, post a t → post' a t)
    (herr : ∀ e t, err e t → err' e t) : Wp x post' err' s := by
  unfold Wp at h ⊢
  cases hx : x.run s with
  | ok a t => exact hpost a t (by simpa only [hx] using h)
  | error e t => exact herr e t (by simpa only [hx] using h)

/-- A run cannot end in two ways that exclude each other. -/
theorem Wp.not_both {x : EStateM ε σ α} (h : Wp x post err s) (h' : Wp x post' err' s)
    (hpost : ∀ a t, post a t → ¬ post' a t) (herr : ∀ e t, err e t → ¬ err' e t) : False := by
  unfold Wp at h h'
  cases hx : x.run s with
  | ok a t =>
    simp only [hx] at h h'
    exact hpost a t h h'
  | error e t =>
    simp only [hx] at h h'
    exact herr e t h h'

theorem wp_of_run_ok {x : EStateM ε σ α} {a : α} {t : σ} (hx : x.run s = .ok a t) :
    Wp x post err s ↔ post a t := by simp only [Wp, hx]

theorem wp_of_run_error {x : EStateM ε σ α} {e : ε} {t : σ} (hx : x.run s = .error e t) :
    Wp x post err s ↔ err e t := by simp only [Wp, hx]

@[simp] theorem wp_pure (a : α) : Wp (pure a : EStateM ε σ α) post err s ↔ post a s := Iff.rfl

@[simp] theorem wp_throw (e : ε) : Wp (throw e : EStateM ε σ α) post err s ↔ err e s := Iff.rfl

@[simp] theorem wp_throwCode {err : Fault → σ → Prop} (code : UInt16) :
    Wp (throwCode code : EStateM Fault σ α) post err s ↔ err (.thrown code) s := Iff.rfl

@[simp] theorem wp_get {post : σ → σ → Prop} :
    Wp (get : EStateM ε σ σ) post err s ↔ post s s := Iff.rfl

@[simp] theorem wp_set {post : PUnit → σ → Prop} (t : σ) :
    Wp (set t : EStateM ε σ PUnit) post err s ↔ post ⟨⟩ t := Iff.rfl

@[simp] theorem wp_modify {post : PUnit → σ → Prop} (f : σ → σ) :
    Wp (modify f : EStateM ε σ PUnit) post err s ↔ post ⟨⟩ (f s) := Iff.rfl

@[simp] theorem wp_bind {post : β → σ → Prop} (x : EStateM ε σ α) (f : α → EStateM ε σ β) :
    Wp (x >>= f) post err s ↔ Wp x (fun a t => Wp (f a) post err t) err s := by
  unfold Wp
  rw [EStateM.run_bind]
  cases x.run s <;> exact Iff.rfl

@[simp] theorem wp_ite (c : Prop) [Decidable c] (x y : EStateM ε σ α) :
    Wp (if c then x else y) post err s ↔ (c → Wp x post err s) ∧ (¬ c → Wp y post err s) := by
  by_cases h : c <;> simp [h]

theorem wp_ofChecked {err : Fault → σ → Prop} (x : Checked α) :
    Wp (ofChecked x : EStateM Fault σ α) post err s ↔
      (∀ a, x = .ok a → post a s) ∧ (∀ e, x = .error e → err e s) := by
  cases x <;> simp [ofChecked]

@[simp] theorem wp_ofChecked_ok {err : Fault → σ → Prop} (a : α) :
    Wp (ofChecked (.ok a) : EStateM Fault σ α) post err s ↔ post a s := Iff.rfl

@[simp] theorem wp_onPart {err : ε → σ → Prop} (read : σ → τ) (put : τ → σ → σ)
    (x : EStateM ε τ α) :
    Wp (onPart read put x) post err s ↔
      Wp x (fun a t => post a (put t s)) (fun e t => err e (put t s)) (read s) := by
  unfold Wp
  rw [run_onPart]
  cases x.run (read s) <;> exact Iff.rfl

@[simp] theorem wp_callFrame (frame : τ) (x : EStateM ε τ α) :
    Wp (callFrame frame x) post err s ↔
      Wp x (fun a _ => post a s) (fun e _ => err e s) frame := by
  unfold Wp
  rw [run_callFrame]
  cases x.run frame <;> exact Iff.rfl

end Wp

/-! Two runs of the same code from related memories. -/

/-- Runs of `x` from memories related by `pre` end the same way, with related memories. -/
def Agree (pre : σ → σ → Prop) (post : α → σ → σ → Prop) (err : σ → σ → Prop)
    (x : EStateM ε σ α) : Prop :=
  ∀ s t, pre s t →
    (∃ a s' t', x.run s = .ok a s' ∧ x.run t = .ok a t' ∧ post a s' t') ∨
    (∃ e s' t', x.run s = .error e s' ∧ x.run t = .error e t' ∧ err s' t')

variable {pre : σ → σ → Prop} {err : σ → σ → Prop}

theorem Agree.pure {post : α → σ → σ → Prop} {a : α} (h : ∀ s t, pre s t → post a s t) :
    Agree pre post err (Pure.pure a : EStateM ε σ α) := fun s t hst =>
  Or.inl ⟨a, s, t, rfl, rfl, h s t hst⟩

theorem Agree.throw {post : α → σ → σ → Prop} {e : ε} (h : ∀ s t, pre s t → err s t) :
    Agree pre post err (throw e : EStateM ε σ α) := fun s t hst =>
  Or.inr ⟨e, s, t, rfl, rfl, h s t hst⟩

theorem Agree.bind {mid : α → σ → σ → Prop} {post : β → σ → σ → Prop} {x : EStateM ε σ α}
    {f : α → EStateM ε σ β} (hx : Agree pre mid err x)
    (hf : ∀ a, Agree (mid a) post err (f a)) : Agree pre post err (x >>= f) := by
  intro s t hst
  rcases hx s t hst with ⟨a, s', t', hs, ht, hmid⟩ | ⟨e, s', t', hs, ht, he⟩
  · simpa only [EStateM.run_bind, hs, ht] using hf a s' t' hmid
  · exact Or.inr ⟨e, s', t', by rw [EStateM.run_bind, hs], by rw [EStateM.run_bind, ht], he⟩

theorem Agree.throwCode {post : α → σ → σ → Prop} {code : UInt16}
    (h : ∀ s t, pre s t → err s t) : Agree pre post err (throwCode code : EStateM Fault σ α) :=
  Agree.throw h

theorem Agree.modify {post : σ → σ → Prop} {f : σ → σ} (h : ∀ s t, pre s t → post (f s) (f t)) :
    Agree pre (fun _ => post) err (modify f : EStateM ε σ PUnit) := fun s t hst =>
  Or.inl ⟨⟨⟩, f s, f t, rfl, rfl, h s t hst⟩

theorem Agree.ofChecked {x : Checked α} (h : ∀ s t, pre s t → err s t) :
    Agree pre (fun _ => pre) err (ofChecked x : EStateM Fault σ α) := by
  intro s t hst
  cases x with
  | ok a => exact Or.inl ⟨a, s, t, rfl, rfl, hst⟩
  | error e => exact Or.inr ⟨e, s, t, rfl, rfl, h s t hst⟩

theorem Agree.ite {post : α → σ → σ → Prop} {c : Prop} [Decidable c] {x y : EStateM ε σ α}
    (hx : c → Agree pre post err x) (hy : ¬ c → Agree pre post err y) :
    Agree pre post err (if c then x else y) := by
  split_ifs with h
  · exact hx h
  · exact hy h

/-- Code on a part of the memory agrees where the runs agree on this part. -/
theorem Agree.onPart {post : σ → σ → Prop} {read : σ → τ} {put : τ → σ → σ}
    {x : EStateM ε τ α} (hread : ∀ s t, pre s t → read t = read s)
    (hpost : ∀ u s t, pre s t → post (put u s) (put u t))
    (herr : ∀ u s t, pre s t → err (put u s) (put u t)) :
    Agree pre (fun _ => post) err (onPart read put x) := by
  intro s t hst
  rw [run_onPart, run_onPart, hread s t hst]
  cases x.run (read s) with
  | ok a u => exact Or.inl ⟨a, _, _, rfl, rfl, hpost u s t hst⟩
  | error e u => exact Or.inr ⟨e, _, _, rfl, rfl, herr u s t hst⟩

/-- Code that reads what the runs agree on is the same in both. -/
theorem Agree.read {post : α → σ → σ → Prop} {f : σ → EStateM ε σ α}
    (h : ∀ s t, pre s t → f t = f s ∧ Agree pre post err (f s)) :
    Agree pre post err (MonadState.get >>= f) := by
  intro s t hst
  obtain ⟨hf, hagree⟩ := h s t hst
  rw [EStateM.run_bind, EStateM.run_bind, EStateM.run_get, EStateM.run_get]
  simp only [hf]
  exact hagree s t hst

end Exec
