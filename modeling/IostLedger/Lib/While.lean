import Mathlib.Tactic

/-! A loop run with a bound on its number of passes, and the rule that gives it an end. -/
namespace While
variable {σ : Type}

/-- `while (cond) body`, given up when `fuel` passes do not reach the end. -/
def loop (cond : σ → Bool) (body : σ → σ) : (fuel : ℕ) → σ → Option σ
  | 0, _ => none
  | fuel + 1, s => if cond s then loop cond body fuel (body s) else some s

/-- An invariant and a measure that every pass lowers: the loop ends, within the measure, in a
state that has the invariant and fails the test. -/
theorem loop_spec {cond : σ → Bool} {body : σ → σ} {inv : σ → Prop} {measure : σ → ℕ}
    (hbody : ∀ s, inv s → cond s = true → inv (body s) ∧ measure (body s) < measure s)
    {s : σ} (hs : inv s) {fuel : ℕ} (hfuel : measure s < fuel) :
    ∃ t, loop cond body fuel s = some t ∧ inv t ∧ cond t = false := by
  induction fuel generalizing s with
  | zero => omega
  | succ fuel ih =>
    cases hcond : cond s with
    | false => exact ⟨s, by simp [loop, hcond], hs, hcond⟩
    | true =>
      obtain ⟨hinv, hlt⟩ := hbody s hs hcond
      obtain ⟨t, hrun, ht⟩ := ih hinv (by omega)
      exact ⟨t, by simp [loop, hcond, hrun], ht⟩

/-- Two loops whose states correspond pass by pass end together. -/
theorem loop_map {τ : Type} {cond : σ → Bool} {body : σ → σ} {cond' : τ → Bool} {body' : τ → τ}
    {view : σ → τ} (hcond : ∀ s, cond' (view s) = cond s)
    (hbody : ∀ s, view (body s) = body' (view s)) (fuel : ℕ) (s : σ) :
    loop cond' body' fuel (view s) = (loop cond body fuel s).map view := by
  induction fuel generalizing s with
  | zero => rfl
  | succ fuel ih =>
    simp only [loop, hcond, ← hbody, ih]
    split <;> rfl

end While
