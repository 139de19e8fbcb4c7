import Mathlib.Tactic

/-! Systems that take one event after another: their runs, the states they reach, and
what holds in all of them. -/
namespace Machine

/-- Start states, and the state after an event; an event that cannot occur has none. -/
structure System (σ ε : Type) where
  start : σ → Prop
  step : σ → ε → Option σ

variable {σ ε : Type} (m : System σ ε)

/-- The state after a list of events. -/
def System.run : σ → List ε → Option σ
  | s, [] => some s
  | s, e :: es => (m.step s e).bind fun t => run t es

@[simp] theorem run_nil (s : σ) : m.run s [] = some s := rfl

theorem run_cons {s t : σ} {e : ε} (h : m.step s e = some t) (es : List ε) :
    m.run s (e :: es) = m.run t es := by simp [System.run, h]

theorem run_cons_eq_some {s u : σ} {e : ε} {es : List ε} :
    m.run s (e :: es) = some u ↔ ∃ t, m.step s e = some t ∧ m.run t es = some u := by
  simp [System.run, Option.bind_eq_some_iff]

theorem run_append (s : σ) (es fs : List ε) :
    m.run s (es ++ fs) = (m.run s es).bind fun t => m.run t fs := by
  induction es generalizing s with
  | nil => rfl
  | cons e es ih =>
      simp only [List.cons_append, System.run, Option.bind_assoc]
      exact congrArg _ (funext fun t => ih t)

/-- Some start state reaches `s` by events that satisfy `allowed`. -/
def System.ReachableBy (allowed : ε → Prop) (s : σ) : Prop :=
  ∃ s₀ es, m.start s₀ ∧ (∀ e ∈ es, allowed e) ∧ m.run s₀ es = some s

/-- Some start state reaches `s`. -/
def System.Reachable (s : σ) : Prop := m.ReachableBy (fun _ => True) s

variable {m} {allowed : ε → Prop} {inv : σ → Prop}

theorem reachable_of_start {s : σ} (h : m.start s) : m.ReachableBy allowed s :=
  ⟨s, [], h, by simp, rfl⟩

theorem System.ReachableBy.run {s t : σ} {es : List ε} (h : m.ReachableBy allowed s)
    (hes : ∀ e ∈ es, allowed e) (hrun : m.run s es = some t) : m.ReachableBy allowed t := by
  obtain ⟨s₀, fs, h₀, hfs, hrun₀⟩ := h
  refine ⟨s₀, fs ++ es, h₀, fun e he => ?_, by rw [run_append, hrun₀, Option.bind_some, hrun]⟩
  rcases List.mem_append.mp he with he | he
  · exact hfs e he
  · exact hes e he

theorem System.ReachableBy.step {s t : σ} {e : ε} (h : m.ReachableBy allowed s)
    (he : allowed e) (hstep : m.step s e = some t) : m.ReachableBy allowed t :=
  h.run (fun f hf => List.mem_singleton.mp hf ▸ he) (by rw [run_cons m hstep, run_nil])

theorem System.ReachableBy.mono {wider : ε → Prop} {s : σ} (h : m.ReachableBy allowed s)
    (hw : ∀ e, allowed e → wider e) : m.ReachableBy wider s := by
  obtain ⟨s₀, es, h₀, hes, hrun⟩ := h
  exact ⟨s₀, es, h₀, fun e he => hw e (hes e he), hrun⟩

/-- What every allowed step keeps, every run of allowed steps keeps. -/
theorem run_invariant (hstep : ∀ s e t, inv s → allowed e → m.step s e = some t → inv t)
    {s t : σ} {es : List ε} (hs : inv s) (hes : ∀ e ∈ es, allowed e)
    (hrun : m.run s es = some t) : inv t := by
  induction es generalizing s with
  | nil => exact Option.some.inj hrun ▸ hs
  | cons e es ih =>
      obtain ⟨u, hu, hrun⟩ := (run_cons_eq_some m).mp hrun
      exact ih (hstep s e u hs (hes e List.mem_cons_self) hu)
        (fun f hf => hes f (List.mem_cons_of_mem e hf)) hrun

/-- What holds at the start and every allowed step keeps, holds in every state reached. -/
theorem System.ReachableBy.invariant (hstart : ∀ s, m.start s → inv s)
    (hstep : ∀ s e t, inv s → allowed e → m.step s e = some t → inv t) {s : σ}
    (h : m.ReachableBy allowed s) : inv s := by
  obtain ⟨s₀, es, h₀, hes, hrun⟩ := h
  exact run_invariant hstep (hstart s₀ h₀) hes hrun

/-! Runs in which each step has a property. -/

variable (m) in
/-- `R` holds of every step of a run. -/
def System.Along (R : σ → ε → σ → Prop) : σ → List ε → Prop
  | _, [] => True
  | s, e :: es =>
      match m.step s e with
      | none => True
      | some t => R s e t ∧ System.Along R t es

instance decidableAlong (R : σ → ε → σ → Prop) [∀ s e t, Decidable (R s e t)] (s : σ)
    (es : List ε) : Decidable (m.Along R s es) :=
  match es with
  | [] => isTrue trivial
  | e :: es =>
      match h : m.step s e with
      | none => isTrue (by rw [System.Along, h]; trivial)
      | some t =>
          have := decidableAlong R t es
          decidable_of_iff (R s e t ∧ m.Along R t es) (by rw [System.Along, h])

section Along
variable {R : σ → ε → σ → Prop} {s t : σ} {e : ε} {es : List ε}

theorem along_cons (h : m.step s e = some t) :
    m.Along R s (e :: es) ↔ R s e t ∧ m.Along R t es := by rw [System.Along, h]

theorem System.Along.mono {R' : σ → ε → σ → Prop} (h : m.Along R s es)
    (hR : ∀ s e t, R s e t → R' s e t) : m.Along R' s es := by
  induction es generalizing s with
  | nil => trivial
  | cons e es ih =>
    cases hstep : m.step s e with
    | none => rw [System.Along, hstep]; trivial
    | some t =>
      rw [along_cons hstep] at h ⊢
      exact ⟨hR s e t h.1, ih h.2⟩

/-- Where an invariant of the steps with `R` makes two properties the same, they are the same
along whole runs. -/
theorem along_iff {R' : σ → ε → σ → Prop}
    (hstep : ∀ s e t, inv s → m.step s e = some t → inv t)
    (hR : ∀ s e t, inv s → m.step s e = some t → (R s e t ↔ R' s e t)) (hs : inv s) :
    m.Along R s es ↔ m.Along R' s es := by
  induction es generalizing s with
  | nil => exact Iff.rfl
  | cons e es ih =>
    cases h : m.step s e with
    | none => simp only [System.Along, h]
    | some t => rw [along_cons h, along_cons h, hR s e t hs h, ih (hstep s e t hs h)]

/-- Steps that keep an invariant and have a property give runs with this property. -/
theorem along_of_invariant
    (hstep : ∀ s e t, inv s → allowed e → m.step s e = some t → inv t ∧ R s e t)
    (hs : inv s) (hes : ∀ e ∈ es, allowed e) : m.Along R s es := by
  induction es generalizing s with
  | nil => trivial
  | cons e es ih =>
    cases h : m.step s e with
    | none => simp only [System.Along, h]
    | some t =>
      obtain ⟨ht, hR⟩ := hstep s e t hs (hes e List.mem_cons_self) h
      exact (along_cons h).mpr ⟨hR, ih ht fun f hf => hes f (List.mem_cons_of_mem e hf)⟩

/-- In a complete run every event takes its step. -/
theorem System.Along.of_mem (h : m.Along R s es) (hrun : m.run s es = some t) (he : e ∈ es) :
    ∃ s' t', m.step s' e = some t' ∧ R s' e t' := by
  induction es generalizing s with
  | nil => cases he
  | cons f es ih =>
    obtain ⟨u, hstep, hrest⟩ := (run_cons_eq_some m).mp hrun
    obtain ⟨hR, hes⟩ := (along_cons hstep).mp h
    rcases List.mem_cons.mp he with rfl | he
    · exact ⟨s, u, hstep, hR⟩
    · exact ih hes hrest he

end Along

/-! What a system puts out. -/

section Outputs
variable {ω : Type}

variable (m) in
/-- The outputs of all steps of a run, in their order. -/
def System.outputs (out : σ → List ω) : σ → List ε → List ω
  | _, [] => []
  | s, e :: es =>
      match m.step s e with
      | none => []
      | some t => out t ++ System.outputs out t es

variable {out : σ → List ω} {opened : σ → ℕ} {weight : ε → ℕ}

theorem outputs_cons {s t : σ} {e : ε} {es : List ε} (h : m.step s e = some t) :
    m.outputs out s (e :: es) = out t ++ m.outputs out t es := by rw [System.outputs, h]

/-- Where every step puts out what it takes in or closes, a run does so. -/
theorem outputs_balance (hstep : ∀ s e t, inv s → allowed e → m.step s e = some t →
      inv t ∧ (out t).length + opened t = opened s + weight e)
    {s t : σ} {es : List ε} (hs : inv s) (hes : ∀ e ∈ es, allowed e)
    (hrun : m.run s es = some t) :
    (m.outputs out s es).length + opened t = opened s + (es.map weight).sum := by
  induction es generalizing s with
  | nil =>
    obtain rfl := Option.some.inj hrun
    simp [System.outputs]
  | cons e es ih =>
    obtain ⟨u, hu, hrun⟩ := (run_cons_eq_some m).mp hrun
    obtain ⟨hinv, hbalance⟩ := hstep s e u hs (hes e List.mem_cons_self) hu
    have hrest := ih hinv (fun f hf => hes f (List.mem_cons_of_mem e hf)) hrun
    rw [outputs_cons hu, List.length_append, List.map_cons, List.sum_cons]
    omega

end Outputs

end Machine
