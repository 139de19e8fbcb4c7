import IostLedger.Lib.Exec

/-! Frames: code that leaves a part of the memory as it is, however it is left. -/
namespace Exec

variable {σ τ α β ε ρ : Type}

/-- What `read` reads of the memory is the same before and after. -/
def Keeps (read : σ → ρ) (x : EStateM ε σ α) : Prop :=
  ∀ s, Wp x (fun _ t => read t = read s) (fun _ t => read t = read s) s

variable {read : σ → ρ}

theorem Keeps.wp {x : EStateM ε σ α} (h : Keeps read x) {s : σ} {r : ρ} (hs : read s = r) :
    Wp x (fun _ t => read t = r) (fun _ t => read t = r) s := hs ▸ h s

theorem Keeps.bind {x : EStateM ε σ α} {f : α → EStateM ε σ β} (hx : Keeps read x)
    (hf : ∀ a, Keeps read (f a)) : Keeps read (x >>= f) := by
  intro s
  rw [wp_bind]
  exact (hx s).mono (fun a t ht => (hf a).wp ht) fun _ _ ht => ht

/-- Code that first reads the memory may go on with what it has read. -/
theorem Keeps.get_bind {f : σ → EStateM ε σ β}
    (hf : ∀ s, Wp (f s) (fun _ t => read t = read s) (fun _ t => read t = read s) s) :
    Keeps read (get >>= f) := by
  intro s
  rw [wp_bind, wp_get]
  exact hf s

theorem Keeps.throwCode (code : UInt16) :
    Keeps read (throwCode code : EStateM Fault σ α) := fun _ => rfl

theorem Keeps.ofChecked (x : Checked α) : Keeps read (ofChecked x : EStateM Fault σ α) := by
  intro s
  rw [wp_ofChecked]
  exact ⟨fun _ _ => rfl, fun _ _ => rfl⟩

theorem Keeps.ite {c : Prop} [Decidable c] {x y : EStateM ε σ α} (hx : Keeps read x)
    (hy : Keeps read y) : Keeps read (if c then x else y) := by
  split_ifs
  · exact hx
  · exact hy

/-- Code on one part of the memory keeps the others. -/
theorem Keeps.onPart {get : σ → τ} {put : τ → σ → σ} (h : ∀ t s, read (put t s) = read s)
    (x : EStateM ε τ α) : Keeps read (onPart get put x) := by
  intro s
  unfold Wp
  rw [run_onPart]
  cases x.run (get s) <;> exact h _ _

/-- Two runs with the same outcome that keep what they read started from the same. -/
theorem Keeps.eq_of_run {x : EStateM ε σ α} {y : EStateM ε σ α} {s t : σ} {r : ρ}
    (hx : Wp x (fun _ u => read u = r) (fun _ u => read u = r) s) (hy : Keeps read y)
    (h : x.run s = y.run t) : read t = r := by
  have hend := hy t
  unfold Wp at hx hend
  rw [h] at hx
  cases hrun : y.run t with
  | ok a u =>
    simp only [hrun] at hx hend
    exact hend.symm.trans hx
  | error e u =>
    simp only [hrun] at hx hend
    exact hend.symm.trans hx

end Exec
