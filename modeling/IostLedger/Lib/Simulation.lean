import IostLedger.Lib.Machine

/-! Two systems that take the same events: a relation of their states that every event keeps
makes them indistinguishable by what is observed of a state. -/
namespace Machine

variable {σ τ ε ω : Type} {m : System σ ε} {n : System τ ε} {allowed : τ → ε → Prop}
  {R : σ → τ → Prop}

/-- Every event of a run is allowed in the state it meets. -/
def System.Guarded (n : System τ ε) (allowed : τ → ε → Prop) : τ → List ε → Prop
  | _, [] => True
  | t, e :: es => allowed t e ∧ ∀ t', n.step t e = some t' → System.Guarded n allowed t' es

instance decidableGuarded [∀ t e, Decidable (allowed t e)] (t : τ) (es : List ε) :
    Decidable (n.Guarded allowed t es) :=
  match es with
  | [] => isTrue trivial
  | e :: es =>
      match h : n.step t e with
      | none => decidable_of_iff (allowed t e) (by simp [System.Guarded, h])
      | some t' =>
          have := decidableGuarded t' es
          decidable_of_iff (allowed t e ∧ n.Guarded allowed t' es) (by simp [System.Guarded, h])

theorem guarded_of_forall {allowed : ε → Prop} {es : List ε} (h : ∀ e ∈ es, allowed e) (t : τ) :
    n.Guarded (fun _ => allowed) t es := by
  induction es generalizing t with
  | nil => trivial
  | cons e es ih =>
    exact ⟨h e List.mem_cons_self, fun t' _ => ih (fun f hf => h f (List.mem_cons_of_mem e hf)) t'⟩

theorem guarded_append {t : τ} {es fs : List ε} :
    n.Guarded allowed t (es ++ fs) ↔
      n.Guarded allowed t es ∧ ∀ t', n.run t es = some t' → n.Guarded allowed t' fs := by
  induction es generalizing t with
  | nil => simp [System.Guarded]
  | cons e es ih =>
    simp only [List.cons_append, System.Guarded, ih, run_cons_eq_some]
    grind

/-- A run, with what it puts out, whose events are all allowed. -/
structure System.Serves (n : System τ ε) (allowed : τ → ε → Prop) (f : τ → List ω) (t : τ)
    (es : List ε) (out : List ω) (t' : τ) : Prop where
  run : n.run t es = some t'
  guarded : n.Guarded allowed t es
  outputs : n.outputs f t es = out

section Serves
variable {f : τ → List ω} {t u v : τ} {es fs : List ε} {out : List ω}

theorem serves_nil (t : τ) : n.Serves allowed f t [] [] t := ⟨run_nil n t, trivial, rfl⟩

theorem System.Serves.cons {e : ε} (h : n.Serves allowed f u es out v) (hallowed : allowed t e)
    (hstep : n.step t e = some u) : n.Serves allowed f t (e :: es) (f u ++ out) v := by
  refine ⟨by rw [run_cons n hstep, h.run], ⟨hallowed, fun u' hu' => ?_⟩, by
    rw [outputs_cons hstep, h.outputs]⟩
  rw [hstep] at hu'
  cases hu'
  exact h.guarded

theorem serves_singleton {e : ε} (hallowed : allowed t e) (hstep : n.step t e = some u) :
    n.Serves allowed f t [e] (f u) u := by
  have h := (serves_nil u : n.Serves allowed f u [] [] u).cons hallowed hstep
  rwa [List.append_nil] at h

theorem System.Serves.append {out' : List ω} (h : n.Serves allowed f t es out u)
    (h' : n.Serves allowed f u fs out' v) :
    n.Serves allowed f t (es ++ fs) (out ++ out') v := by
  induction es generalizing t out with
  | nil =>
    have ht : t = u := Option.some.inj h.run
    have hout : [] = out := h.outputs
    rw [ht, ← hout]
    exact h'
  | cons e es ih =>
    obtain ⟨w, hstep, hrun⟩ := (run_cons_eq_some n).mp h.run
    have houtputs := h.outputs
    rw [outputs_cons hstep] at houtputs
    rw [← houtputs, List.append_assoc]
    exact (ih ⟨hrun, h.guarded.2 w hstep, rfl⟩).cons h.guarded.1 hstep

end Serves

/-- Both systems take an allowed event from related states to related states, or neither. -/
def LockStep (m : System σ ε) (n : System τ ε) (allowed : τ → ε → Prop) (R : σ → τ → Prop) :
    Prop :=
  ∀ s t e, R s t → allowed t e → Option.Rel R (m.step s e) (n.step t e)

theorem LockStep.cases (h : LockStep m n allowed R) {s : σ} {t : τ} {e : ε} (hst : R s t)
    (he : allowed t e) :
    (m.step s e = none ∧ n.step t e = none) ∨
      ∃ s' t', m.step s e = some s' ∧ n.step t e = some t' ∧ R s' t' := by
  have hrel := h s t e hst he
  generalize m.step s e = x, n.step t e = y at hrel ⊢
  cases hrel with
  | none => exact Or.inl ⟨rfl, rfl⟩
  | some hR => exact Or.inr ⟨_, _, rfl, rfl, hR⟩

/-- Related states have related runs. -/
theorem LockStep.run (h : LockStep m n allowed R) {s : σ} {t : τ} {es : List ε} (hst : R s t)
    (hes : n.Guarded allowed t es) : Option.Rel R (m.run s es) (n.run t es) := by
  induction es generalizing s t with
  | nil => exact .some hst
  | cons e es ih =>
    rcases h.cases hst hes.1 with ⟨hs, ht⟩ | ⟨s', t', hs, ht, hR⟩
    · simp only [System.run, hs, ht, Option.bind_none]
      exact .none
    · rw [run_cons m hs, run_cons n ht]
      exact ih hR (hes.2 t' ht)

/-- What is observed after a run is the same. -/
theorem LockStep.map_run (h : LockStep m n allowed R) {f : σ → ω} {g : τ → ω}
    (hobserve : ∀ s t, R s t → f s = g t) {s : σ} {t : τ} {es : List ε} (hst : R s t)
    (hes : n.Guarded allowed t es) : (m.run s es).map f = (n.run t es).map g := by
  have hrel := h.run hst hes
  generalize m.run s es = x, n.run t es = y at hrel ⊢
  cases hrel with
  | none => rfl
  | some hR => exact congrArg some (hobserve _ _ hR)

/-- What is observed along a run is the same. -/
theorem LockStep.outputs (h : LockStep m n allowed R) {f : σ → List ω} {g : τ → List ω}
    (hobserve : ∀ s t, R s t → f s = g t) {s : σ} {t : τ} {es : List ε} (hst : R s t)
    (hes : n.Guarded allowed t es) : m.outputs f s es = n.outputs g t es := by
  induction es generalizing s t with
  | nil => rfl
  | cons e es ih =>
    rcases h.cases hst hes.1 with ⟨hs, ht⟩ | ⟨s', t', hs, ht, hR⟩
    · simp only [System.outputs, hs, ht]
    · rw [outputs_cons hs, outputs_cons ht, hobserve _ _ hR, ih hR (hes.2 t' ht)]

/-- The last event of a run is a step from the state before it. -/
theorem run_concat {s u : σ} {es : List ε} {e : ε} (h : m.run s (es ++ [e]) = some u) :
    ∃ t, m.run s es = some t ∧ m.step t e = some u := by
  rw [run_append, Option.bind_eq_some_iff] at h
  obtain ⟨t, hrun, hlast⟩ := h
  obtain ⟨v, hstep, hnil⟩ := (run_cons_eq_some m).mp hlast
  obtain rfl := Option.some.inj hnil
  exact ⟨t, hrun, hstep⟩

/-- The output of a run is that of its states, one after the other. -/
theorem outputs_flatMap {f : σ → List ω} {s : σ} {es : List ε} :
    m.outputs f s es = (m.outputs (fun t => [t]) s es).flatMap f := by
  induction es generalizing s with
  | nil => rfl
  | cons e es ih =>
    cases hs : m.step s e with
    | none => simp only [System.outputs, hs, List.flatMap_nil]
    | some t =>
      rw [outputs_cons hs, outputs_cons hs, ih, List.singleton_append, List.flatMap_cons]

/-- What a run puts out, one of its steps has put out. -/
theorem mem_outputs {f : σ → List ω} {s : σ} {es : List ε} {w : ω} (h : w ∈ m.outputs f s es) :
    ∃ first e rest t, es = first ++ e :: rest ∧ m.run s (first ++ [e]) = some t ∧ w ∈ f t := by
  induction es generalizing s with
  | nil => cases h
  | cons e es ih =>
    cases hs : m.step s e with
    | none => simp only [System.outputs, hs, List.not_mem_nil] at h
    | some t =>
      rw [outputs_cons hs, List.mem_append] at h
      rcases h with h | h
      · exact ⟨[], e, es, t, rfl, by rw [List.nil_append, run_cons m hs, run_nil], h⟩
      · obtain ⟨first, e', rest, u, rfl, hrun, hu⟩ := ih h
        exact ⟨e :: first, e', rest, u, rfl, by rw [List.cons_append, run_cons m hs, hrun], hu⟩

end Machine
