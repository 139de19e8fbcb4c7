import IostLedger.Lib.Simulation

/-! A party that drives a system: what it sends next depends on what the system has put out.
Both together are a system of turns, and a simulation of the system is one of the two. -/
namespace Machine

/-- `issue` is a turn of the party: the event it sends, if it sends one, and its state then; a
turn that is not its own now has none. `absorb` is what an output makes of its state. -/
structure Driver (κ ε ω ι : Type) where
  start : κ
  issue : κ → ι → Option (Option ε × κ)
  absorb : κ → ω → κ

variable {σ τ κ ε ω ι : Type}

/-- The system with the party, which absorbs what every event puts out. -/
def System.driven (m : System σ ε) (f : σ → List ω) (driver : Driver κ ε ω ι) :
    System (σ × κ) ι where
  start p := m.start p.1 ∧ p.2 = driver.start
  step p turn :=
    match driver.issue p.2 turn with
    | none => none
    | some (none, k) => some (p.1, k)
    | some (some e, k) => (m.step p.1 e).map fun s => (s, (f s).foldl driver.absorb k)

section Driven
variable {m : System σ ε} {n : System τ ε} {f : σ → List ω} {g : τ → List ω}
  {driver : Driver κ ε ω ι} {allowed : τ → ε → Prop} {R : σ → τ → Prop} {turn : ι} {s : σ}
  {k k' : κ} {e : ε} {p : σ × κ}

theorem driven_silent (h : driver.issue k turn = some (none, k')) :
    (m.driven f driver).step (s, k) turn = some (s, k') := by
  simp only [System.driven, h]

theorem driven_sent (h : driver.issue k turn = some (some e, k')) :
    (m.driven f driver).step (s, k) turn =
      (m.step s e).map fun s' => (s', (f s').foldl driver.absorb k') := by
  simp only [System.driven, h]

/-- A turn is silent, or a step of the system. -/
theorem driven_cases (h : (m.driven f driver).step (s, k) turn = some p) :
    (∃ k', driver.issue k turn = some (none, k') ∧ p = (s, k')) ∨
      ∃ e k' s', driver.issue k turn = some (some e, k') ∧ m.step s e = some s' ∧
        p = (s', (f s').foldl driver.absorb k') := by
  cases hissue : driver.issue k turn with
  | none =>
    simp only [System.driven, hissue] at h
    cases h
  | some next =>
    obtain ⟨_ | e, k'⟩ := next
    · rw [driven_silent hissue] at h
      exact Or.inl ⟨k', rfl, (Option.some.inj h).symm⟩
    · rw [driven_sent hissue, Option.map_eq_some_iff] at h
      obtain ⟨s', hstep, hp⟩ := h
      exact Or.inr ⟨e, k', s', rfl, hstep, hp.symm⟩

/-- The events that a turn can send are allowed. -/
def Driver.Allowed (driver : Driver κ ε ω ι) (allowed : τ → ε → Prop) (q : τ × κ)
    (turn : ι) : Prop :=
  ∀ e k, driver.issue q.2 turn = some (some e, k) → allowed q.1 e

/-- The party cannot tell a system from one that it simulates. -/
theorem LockStep.driven (h : LockStep m n allowed R) (hobserve : ∀ s t, R s t → f s = g t)
    (driver : Driver κ ε ω ι) :
    LockStep (m.driven f driver) (n.driven g driver) (driver.Allowed allowed)
      (fun p q => R p.1 q.1 ∧ p.2 = q.2) := by
  rintro ⟨s, k⟩ ⟨t, _⟩ turn ⟨hR, rfl⟩ hallowed
  cases hissue : driver.issue k turn with
  | none =>
    simp only [System.driven, hissue]
    exact .none
  | some next =>
    obtain ⟨_ | e, k'⟩ := next
    · rw [driven_silent hissue, driven_silent hissue]
      exact .some ⟨hR, rfl⟩
    · rw [driven_sent hissue, driven_sent hissue]
      rcases h.cases hR (hallowed e k' hissue) with ⟨hs, ht⟩ | ⟨s', t', hs, ht, hR'⟩
      · rw [hs, ht]
        exact .none
      · rw [hs, ht, Option.map_some, Option.map_some, hobserve s' t' hR']
        exact .some ⟨hR', rfl⟩

end Driven

section Runs
variable {m : System σ ε} {inv : σ → Prop} {allowed : σ → ε → Prop} {s t : σ} {es : List ε}

/-- Where an invariant allows every event, it allows every run. -/
theorem guarded_of_invariant (hstep : ∀ s e t, inv s → m.step s e = some t → inv t)
    (hallowed : ∀ s e, inv s → allowed s e) (hs : inv s) : m.Guarded allowed s es := by
  induction es generalizing s with
  | nil => trivial
  | cons e es ih => exact ⟨hallowed s e hs, fun t ht => ih (hstep s e t hs ht)⟩

/-- Steps that each pay for themselves are no more than there is to spend. -/
theorem count_add_budget_le [DecidableEq ε] {counted : ε} {budget : σ → ℕ}
    (hstep : ∀ s e t, inv s → m.step s e = some t →
      inv t ∧ (if e = counted then 1 else 0) + budget t ≤ budget s)
    (hs : inv s) (hrun : m.run s es = some t) :
    inv t ∧ es.count counted + budget t ≤ budget s := by
  induction es generalizing s with
  | nil =>
    obtain rfl := Option.some.inj hrun
    exact ⟨hs, by rw [List.count_nil, Nat.zero_add]⟩
  | cons e es ih =>
    obtain ⟨u, hu, hrun⟩ := (run_cons_eq_some m).mp hrun
    obtain ⟨hinv, hspent⟩ := hstep s e u hs hu
    obtain ⟨ht, hrest⟩ := ih hinv hrun
    refine ⟨ht, ?_⟩
    rw [List.count_cons]
    simp only [beq_iff_eq]
    omega

end Runs

end Machine
