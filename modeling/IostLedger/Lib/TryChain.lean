import Mathlib.Tactic

/-! Exceptions by `setjmp` and `longjmp` over a chain of try contexts: the macros of a
`TRY` block as operations on the chain, and what a block does to it on each way out. -/
namespace TryChain

/-- The current context, and the two fields of every context that the macros use. A context
is named by its address, so its fields outlive the block that declares it. -/
structure Chain (α : Type) where
  current : Option α
  previous : α → Option α
  ex : α → UInt16

/-- How a block of code is left: at its end, by a thrown code, or by a jump to a label. -/
inductive Exit (ι : Type) where
  | falls
  | throws (e : UInt16)
  | jumps (label : ι)
  deriving DecidableEq, Repr

/-- The value `setjmp` returns for a thrown code: `longjmp` does not pass 0. -/
def passed (e : UInt16) : UInt16 := if e = 0 then 1 else e

variable {α ι : Type} [DecidableEq α]

namespace Chain

/-- `TRY`, when `setjmp` has returned 0. -/
def enter (c : α) (s : Chain α) : Chain α where
  current := some c
  previous := Function.update s.previous c s.current
  ex := Function.update s.ex c 0

/-- `CLOSE_TRY`. -/
def close (c : α) (s : Chain α) : Chain α := { s with current := s.previous c }

/-- The head of a `CATCH` clause: the code is consumed and the block is closed. -/
def caught (c : α) (s : Chain α) : Chain α :=
  close c { s with ex := Function.update s.ex c 0 }

/-- `FINALLY` without a body, and `END_TRY`. -/
def finish (c : α) (s : Chain α) : Exit ι × Chain α :=
  let s := if s.current = some c then s.close c else s
  if s.ex c = 0 then (.falls, s) else (.throws (s.ex c), s)

/-- A context of the chain: the current one, and the one before a context of the chain. -/
inductive Linked (s : Chain α) : α → Prop where
  | current {c : α} (h : s.current = some c) : Linked s c
  | previous {c c' : α} (h : Linked s c) (hprevious : s.previous c = some c') : Linked s c'

/-- Two chains with the same contexts in the same order. -/
structure Same (s t : Chain α) : Prop where
  current : t.current = s.current
  previous : ∀ c, s.Linked c → t.previous c = s.previous c

end Chain

/-- Code that works on the chain. -/
abbrev Code (α ι : Type) := Chain α → Exit ι × Chain α

/-- `BEGIN_TRY` to `END_TRY` on the context `c`. A throw goes to the context that is current
where it happens; the handler stands for all `CATCH` clauses. A jump out of the block skips
`FINALLY` and `END_TRY`. -/
def tryBlock (c : α) (body : Code α ι) (handler : UInt16 → Code α ι) : Code α ι := fun s =>
  match body (s.enter c) with
  | (.falls, s) => s.finish c
  | (.throws e, s) =>
      if s.current = some c then
        match handler (passed e) (s.caught c) with
        | (.falls, s) => s.finish c
        | left => left
      else (.throws e, s)
  | (.jumps label, s) => (.jumps label, s)

namespace Chain
variable {s t : Chain α} {c : α}

/-- Closing a block just entered gives the chain back, but for the fields of its context. -/
theorem enter_close (hc : ¬ s.Linked c) : s.Same ((s.enter c).close c) := by
  constructor
  · simp [close, enter]
  · intro c' hlinked
    have hne : c' ≠ c := by
      rintro rfl
      exact hc hlinked
    simp [close, enter, hne]

theorem enter_caught (hc : ¬ s.Linked c) : s.Same ((s.enter c).caught c) := by
  obtain ⟨hcurrent, hprevious⟩ := enter_close hc
  exact ⟨hcurrent, hprevious⟩

/-- A block that is still open is closed at its end. -/
theorem finish_enter : ((s.enter c).finish c : Exit ι × Chain α) =
    (.falls, (s.enter c).close c) := by
  simp [finish, enter, close]

/-- A block whose clause has run was closed at the head of the clause. -/
theorem finish_caught (hc : ¬ s.Linked c) :
    (((s.enter c).caught c).finish c : Exit ι × Chain α) = (.falls, (s.enter c).caught c) := by
  have hclosed : ¬ ((s.enter c).caught c).current = some c := by
    intro h
    exact hc (.current (by simpa [caught, close, enter] using h))
  have hconsumed : ((s.enter c).caught c).ex c = 0 := by
    simp [caught, close]
  simp only [finish, if_neg hclosed, if_pos hconsumed]

end Chain

section Block
variable {s : Chain α} {c : α} {handler : UInt16 → Code α ι} {exit : Exit ι}

/-- A body that falls through leaves the chain as it was before the block. -/
theorem tryBlock_falls (hc : ¬ s.Linked c) :
    ∃ t, tryBlock c (fun s => (.falls, s)) handler s = (.falls, t) ∧ s.Same t :=
  ⟨_, Chain.finish_enter, Chain.enter_close hc⟩

/-- A thrown code that the handler consumes leaves the chain as it was before the block. -/
theorem tryBlock_consumed {e : UInt16} (hc : ¬ s.Linked c)
    (hhandler : ∀ t, handler (passed e) t = (.falls, t)) :
    ∃ t, tryBlock c (fun s => (.throws e, s)) handler s = (.falls, t) ∧ s.Same t := by
  refine ⟨(s.enter c).caught c, ?_, Chain.enter_caught hc⟩
  have hopen : (s.enter c).current = some c := rfl
  simp only [tryBlock, if_pos hopen, hhandler, Chain.finish_caught hc]

/-- A code thrown from the handler leaves the chain as it was before the block. -/
theorem tryBlock_rethrown {e e' : UInt16} (hc : ¬ s.Linked c)
    (hhandler : ∀ t, handler (passed e) t = (.throws e', t)) :
    ∃ t, tryBlock c (fun s => (.throws e, s)) handler s = (.throws e', t) ∧ s.Same t := by
  refine ⟨(s.enter c).caught c, ?_, Chain.enter_caught hc⟩
  have hopen : (s.enter c).current = some c := rfl
  simp only [tryBlock, if_pos hopen, hhandler]

/-- A jump out of the block leaves its context in the chain. -/
theorem tryBlock_jumps (label : ι) :
    tryBlock c (fun s => (.jumps label, s)) handler s = (.jumps label, s.enter c) := rfl

end Block

end TryChain
