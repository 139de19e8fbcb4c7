import IostLedger.Invariant
import IostLedger.Lib.TryChain

/-! `main` and `app_main` on the chain of try contexts: the loop of `app_main` over the
outcomes of its iterations, and how `main` goes on when it ends. -/
namespace IostLedger
open Exec Machine TryChain

/-- The two try contexts; a context has the same address in every call of its function. -/
inductive Context where
  | main | appMain
  deriving DecidableEq, Repr

/-- The label `return_to_dashboard`. -/
inductive Label where
  | returnToDashboard
  deriving DecidableEq, Repr

abbrev TryChain := Chain Context

/-- Where control is between two outcomes. -/
inductive Location where
  /-- At the head of the loop of `main`. -/
  | mainLoop
  /-- At the head of the loop of `app_main`, called in the `TRY` block of `main`. -/
  | appLoop
  /-- Behind the loop of `main`, in `app_exit`. -/
  | appExit
  /-- A throw has jumped to a context of neither block. -/
  | wild
  deriving DecidableEq, Repr

structure Control where
  location : Location
  chain : TryChain

/-- How the `TRY` block of `app_main` is left on one APDU. -/
inductive Iteration where
  | returns
  | throws (e : UInt16)
  | returnToDashboard
  deriving DecidableEq, Repr

inductive Outcome where
  /-- The calls in `main` before `app_main`, with the code they throw, if any. -/
  | start (thrown : Option UInt16)
  /-- One iteration of the loop of `app_main`. -/
  | iteration (i : Iteration)
  deriving DecidableEq

/-- The `TRY` block of `app_main`. -/
def Iteration.body : Iteration → Code Context Label
  | .returns, s => (.falls, s)
  | .throws e, s => (.throws e, s)
  | .returnToDashboard, s => (.jumps .returnToDashboard, s)

/-- `CATCH(EXCEPTION_IO_RESET)` and `CATCH_OTHER(e)` of `app_main`. -/
def appMainCatch (e : UInt16) : Code Context Label := fun s =>
  if e = SdkException.ioReset.code then (.throws SdkException.ioReset.code, s) else (.falls, s)

/-- A throw while `main` is in its `TRY` block: `continue` after `EXCEPTION_IO_RESET`, `break`
after any other code. -/
def thrown (e : UInt16) (chain : TryChain) : Control :=
  if chain.current = some .main then
    if passed e = SdkException.ioReset.code then ⟨.mainLoop, chain.caught .main⟩
    else ⟨.appExit, chain.caught .main⟩
  else ⟨.wild, chain⟩

/-- `app_main` has returned: the end of the `TRY` block of `main`, and its next round. -/
def appMainReturned (chain : TryChain) : Control :=
  match (chain.finish .main : Exit Label × TryChain) with
  | (.throws e, chain) => thrown e chain
  | (_, chain) => ⟨.mainLoop, chain⟩

def Control.step (s : Control) : Outcome → Option Control
  | .start code =>
      if s.location = .mainLoop then
        match code with
        | none => some ⟨.appLoop, s.chain.enter .main⟩
        | some e => some (thrown e (s.chain.enter .main))
      else none
  | .iteration i =>
      if s.location = .appLoop then
        match tryBlock .appMain i.body appMainCatch s.chain with
        | (.falls, chain) => some ⟨.appLoop, chain⟩
        | (.throws e, chain) => some (thrown e chain)
        | (.jumps .returnToDashboard, chain) => some (appMainReturned chain)
      else none

/-- `main` over the outcomes of what it calls; `os_boot` has set no context. -/
def control : System Control Outcome where
  start s := s.location = .mainLoop ∧ s.chain.current = none
  step := Control.step

/-- A step that keeps the discipline of the contexts: an iteration gives the chain back, a
finished `app_main` is no part of it, and only `EXCEPTION_IO_RESET` leads back to the
loop of `main`. -/
structure Balanced (s : Control) (outcome : Outcome) (t : Control) : Prop where
  restored : s.location = .appLoop → t.location = .appLoop → s.chain.Same t.chain
  unlinked : s.location = .appLoop → t.location ≠ .appLoop → ¬ t.chain.Linked .appMain
  ending : s.location = .appLoop → t.location ≠ .appLoop → t.location =
    if outcome = .iteration (.throws SdkException.ioReset.code) then .mainLoop else .appExit

/-- What holds of the chain where no jump has left a block open. -/
inductive Control.Inv : Control → Prop where
  | outside {s : Control} (hlocation : s.location = .mainLoop ∨ s.location = .appExit)
      (hcurrent : s.chain.current = none) : Control.Inv s
  | inside {s : Control} (hlocation : s.location = .appLoop)
      (hcurrent : s.chain.current = some .main) (hprevious : s.chain.previous .main = none) :
      Control.Inv s

section Chain
variable {chain : TryChain}

theorem not_linked_of_none (h : chain.current = none) (c : Context) : ¬ chain.Linked c := by
  intro hc
  induction hc with
  | current hcurrent =>
    rw [h] at hcurrent
    cases hcurrent
  | previous _ _ ih => exact ih

/-- In `app_main` the context of `main` is the whole chain. -/
theorem linked_main (hcurrent : chain.current = some .main)
    (hprevious : chain.previous .main = none) {c : Context} (hc : chain.Linked c) : c = .main := by
  induction hc with
  | current h =>
    rw [hcurrent] at h
    exact (Option.some.inj h).symm
  | previous _ h ih =>
    subst ih
    rw [hprevious] at h
    cases h

theorem appMain_not_linked (hcurrent : chain.current = some .main)
    (hprevious : chain.previous .main = none) : ¬ chain.Linked .appMain := by
  intro h
  cases linked_main hcurrent hprevious h

theorem Same.inside {chain' : TryChain} (hsame : chain.Same chain')
    (hcurrent : chain.current = some .main) (hprevious : chain.previous .main = none) :
    chain'.current = some .main ∧ chain'.previous .main = none :=
  ⟨hsame.current.trans hcurrent, (hsame.previous _ (.current hcurrent)).trans hprevious⟩

/-- In `main` a code is caught, and the chain is then empty. -/
theorem thrown_eq {e : UInt16} (hcurrent : chain.current = some .main)
    (hprevious : chain.previous .main = none) :
    ∃ chain', chain'.current = none ∧ thrown e chain =
      ⟨if passed e = SdkException.ioReset.code then .mainLoop else .appExit, chain'⟩ := by
  refine ⟨chain.caught .main, hprevious, ?_⟩
  rw [thrown, if_pos hcurrent]
  split_ifs <;> rfl

end Chain

/-! The steps. -/

section Step
variable {s t : Control}

theorem step_iteration_location {i : Iteration} (h : s.step (.iteration i) = some t) :
    s.location = .appLoop := by
  by_contra hne
  simp [Control.step, hne] at h

/-- An iteration that is not left by the jump gives the chain back, or ends with
`EXCEPTION_IO_RESET` in the loop of `main`. -/
theorem step_iteration {i : Iteration} (hlocation : s.location = .appLoop)
    (hcurrent : s.chain.current = some .main) (hprevious : s.chain.previous .main = none)
    (hi : i ≠ .returnToDashboard) (h : s.step (.iteration i) = some t) :
    (t.location = .appLoop ∧ s.chain.Same t.chain) ∨
      (i = .throws SdkException.ioReset.code ∧ t.location = .mainLoop ∧
        t.chain.current = none) := by
  have hfree : ¬ s.chain.Linked .appMain := appMain_not_linked hcurrent hprevious
  rw [Control.step, if_pos hlocation] at h
  cases i with
  | returns =>
    have hfalls : ∃ chain, tryBlock .appMain Iteration.returns.body appMainCatch s.chain =
        (.falls, chain) ∧ s.chain.Same chain := tryBlock_falls hfree
    obtain ⟨chain, hbody, hsame⟩ := hfalls
    rw [hbody] at h
    obtain rfl := Option.some.inj h
    exact Or.inl ⟨rfl, hsame⟩
  | throws e =>
    by_cases hreset : passed e = SdkException.ioReset.code
    · have hrethrow : ∀ t, appMainCatch (passed e) t = (.throws SdkException.ioReset.code, t) := by
        intro t
        rw [appMainCatch, if_pos hreset]
      obtain ⟨chain, hblock, hsame⟩ := tryBlock_rethrown hfree hrethrow
      have hbody : tryBlock .appMain (Iteration.throws e).body appMainCatch s.chain =
          (.throws SdkException.ioReset.code, chain) := hblock
      obtain ⟨hcurrent', hprevious'⟩ := Same.inside hsame hcurrent hprevious
      obtain ⟨chain', hnone, hthrown⟩ :=
        thrown_eq (e := SdkException.ioReset.code) hcurrent' hprevious'
      have hpassed : passed SdkException.ioReset.code = SdkException.ioReset.code := by decide
      rw [hbody] at h
      simp only [hthrown, if_pos hpassed, Option.some.injEq] at h
      subst h
      refine Or.inr ⟨?_, rfl, hnone⟩
      have hcode : e = SdkException.ioReset.code := by
        unfold passed at hreset
        split_ifs at hreset with hzero
        · exact absurd hreset (by decide)
        · exact hreset
      rw [hcode]
    · have hconsume : ∀ t, appMainCatch (passed e) t = (.falls, t) := by
        intro t
        rw [appMainCatch, if_neg hreset]
      obtain ⟨chain, hblock, hsame⟩ := tryBlock_consumed hfree hconsume
      have hbody : tryBlock .appMain (Iteration.throws e).body appMainCatch s.chain =
          (.falls, chain) := hblock
      rw [hbody] at h
      obtain rfl := Option.some.inj h
      exact Or.inl ⟨rfl, hsame⟩
  | returnToDashboard => exact absurd rfl hi

theorem step_start {code : Option UInt16} (hcurrent : s.chain.current = none)
    (h : s.step (.start code) = some t) : t.Inv := by
  by_cases hlocation : s.location = .mainLoop
  swap
  · simp [Control.step, hlocation] at h
  simp only [Control.step, if_pos hlocation] at h
  have hentered : (s.chain.enter .main).current = some .main := rfl
  have hprevious : (s.chain.enter .main).previous .main = none := by
    simp [Chain.enter, hcurrent]
  cases code with
  | none =>
    obtain rfl := Option.some.inj h
    exact .inside rfl hentered hprevious
  | some e =>
    obtain ⟨chain, hnone, hthrown⟩ := thrown_eq (e := e) hentered hprevious
    simp only [hthrown, Option.some.injEq] at h
    subst h
    apply Control.Inv.outside _ hnone
    simp only []
    split_ifs
    · exact Or.inl rfl
    · exact Or.inr rfl

/-- Without the jump every step keeps the invariant and the discipline. -/
theorem step_balanced {outcome : Outcome} (hs : s.Inv)
    (houtcome : outcome ≠ .iteration .returnToDashboard) (h : s.step outcome = some t) :
    t.Inv ∧ Balanced s outcome t := by
  cases outcome with
  | start code =>
    have hlocation : s.location = .mainLoop := by
      by_contra hne
      simp [Control.step, hne] at h
    have hother : s.location ≠ .appLoop := by simp [hlocation]
    have hcurrent : s.chain.current = none := by
      cases hs with
      | outside _ hcurrent => exact hcurrent
      | inside hinside => exact absurd hinside hother
    refine ⟨step_start hcurrent h, ?_⟩
    exact ⟨fun hl => absurd hl hother, fun hl => absurd hl hother, fun hl => absurd hl hother⟩
  | iteration i =>
    have hlocation := step_iteration_location h
    cases hs with
    | outside houtside _ =>
      rw [hlocation] at houtside
      exact absurd houtside (by decide)
    | inside _ hcurrent hprevious =>
      have hi : i ≠ .returnToDashboard := fun hi => houtcome (by rw [hi])
      rcases step_iteration hlocation hcurrent hprevious hi h with
        ⟨hloop, hsame⟩ | ⟨rfl, hmain, hnone⟩
      · obtain ⟨hcurrent', hprevious'⟩ := Same.inside hsame hcurrent hprevious
        refine ⟨.inside hloop hcurrent' hprevious', ?_⟩
        exact ⟨fun _ _ => hsame, fun _ hl => absurd hloop hl, fun _ hl => absurd hloop hl⟩
      · refine ⟨.outside (Or.inl hmain) hnone, ?_⟩
        constructor
        · intro _ hl
          rw [hmain] at hl
          cases hl
        · intro _ _
          exact not_linked_of_none hnone .appMain
        · intro _ _
          rw [if_pos rfl, hmain]

/-- The jump out of the `TRY` block never leads to `app_exit`. -/
theorem appMainReturned_location {chain : TryChain} (h : chain.current = some .appMain) :
    (appMainReturned chain).location = .mainLoop ∨ (appMainReturned chain).location = .wild := by
  have hopen : ¬ chain.current = some .main := by
    rw [h]
    decide
  by_cases hex : chain.ex .main = 0
  · left
    simp only [appMainReturned, Chain.finish, if_neg hopen, if_pos hex]
  · right
    simp only [appMainReturned, Chain.finish, if_neg hopen, if_neg hex, thrown]

theorem not_balanced_returnToDashboard (h : s.step (.iteration .returnToDashboard) = some t) :
    ¬ Balanced s (.iteration .returnToDashboard) t := by
  intro hbalanced
  have hlocation := step_iteration_location h
  rw [Control.step, if_pos hlocation] at h
  have hjump : tryBlock .appMain Iteration.returnToDashboard.body appMainCatch s.chain =
      (.jumps .returnToDashboard, s.chain.enter .appMain) := tryBlock_jumps _
  rw [hjump] at h
  obtain rfl := Option.some.inj h
  have hwhere := @appMainReturned_location (s.chain.enter .appMain) rfl
  have hending := hbalanced.ending hlocation
  rw [if_neg (by simp)] at hending
  rcases hwhere with hmain | hwild
  · have hexit := hending (by simp [hmain])
    rw [hmain] at hexit
    cases hexit
  · have hexit := hending (by simp [hwild])
    rw [hwild] at hexit
    cases hexit

end Step

/-- In a complete run the contexts are balanced and all endings handled exactly where
`app_main` is never left by the jump of `INS_RETURN_TO_DASHBOARD`. -/
theorem balanced_iff {s t : Control} {outcomes : List Outcome} (hstart : control.start s)
    (hrun : control.run s outcomes = some t) :
    control.Along Balanced s outcomes ↔ .iteration .returnToDashboard ∉ outcomes := by
  constructor
  · intro halong hmem
    obtain ⟨s', t', hstep, hbalanced⟩ := halong.of_mem hrun hmem
    exact not_balanced_returnToDashboard hstep hbalanced
  · intro hnone
    have hs : s.Inv := .outside (Or.inl hstart.1) hstart.2
    have hallowed : ∀ outcome ∈ outcomes, outcome ≠ .iteration .returnToDashboard := by
      intro outcome hmem heq
      exact hnone (heq ▸ hmem)
    exact along_of_invariant (fun _ _ _ hs he hstep => step_balanced hs he hstep) hs hallowed

/-- `main` before its first round, over memory of zeros. -/
def Control.boot : Control := ⟨.mainLoop, ⟨none, fun _ => none, fun _ => 0⟩⟩

theorem balanced_iff_boot : ∃ t,
    control.run .boot [.start none, .iteration (.throws swOk), .iteration .returns] = some t ∧
      (control.Along Balanced .boot [.start none, .iteration (.throws swOk), .iteration .returns] ↔
        Outcome.iteration .returnToDashboard ∉
          [Outcome.start none, .iteration (.throws swOk), .iteration .returns]) :=
  ⟨_, rfl, balanced_iff ⟨rfl, rfl⟩ rfl⟩

/-- The jump to `return_to_dashboard` restarts the loop of `main` with a dead context. -/
theorem balanced_fails : ¬ ∀ (s t : Control) (outcomes : List Outcome), control.start s →
    control.run s outcomes = some t → control.Along Balanced s outcomes := by
  intro h
  have hrun : ∃ t, control.run .boot [.start none, .iteration .returnToDashboard] = some t :=
    ⟨_, rfl⟩
  obtain ⟨t, hrun⟩ := hrun
  have halong := h .boot t _ ⟨rfl, rfl⟩ hrun
  obtain ⟨s', t', hstep, hbalanced⟩ := halong.of_mem (e := .iteration .returnToDashboard) hrun
    (by simp)
  exact not_balanced_returnToDashboard hstep hbalanced

/-! The outcomes of the device. -/

/-- How the `TRY` block of `app_main` is left on the APDU that a device has received. -/
def iterationOf (crypto : Crypto) (rx : ℕ) (d : Device) : Option Iteration :=
  match (processApdu crypto rx).run d with
  | .ok _ d' => some (if d'.phase = .returned then .returnToDashboard else .returns)
  | .error (.thrown e) _ => some (.throws e)
  | .error .outOfRange _ => none

/-- Every APDU of a device is an iteration of the loop: the device has returned to `main`
exactly behind the jump, and starts again behind `EXCEPTION_IO_RESET`. -/
theorem step_iterationOf {crypto : Crypto} {d d' : Device} {bytes : Bytes} (hinv : d.Inv)
    (hstep : step crypto d (.apdu bytes) = some d') :
    ∃ i, iterationOf crypto bytes.length (received bytes d) = some i ∧
      (d'.phase = .returned ↔ i = .returnToDashboard) ∧
      (i = .throws SdkException.ioReset.code → ∃ d₁, d' = restart d₁) := by
  obtain ⟨hphase, ⟨-, hpos, -, -⟩, rfl⟩ := step_apdu hstep
  have hbounded : (received bytes d).Bounded := ⟨hinv.bounded.sign, hinv.bounded.pk⟩
  have htx : (received bytes d).tx = 0 := hinv.tx hphase
  have hwp := processApdu_wp crypto hbounded htx hpos
  unfold Wp at hwp
  unfold iterationOf handleApdu
  cases hrun : (processApdu crypto bytes.length).run (received bytes d) with
  | ok a d₁ =>
    simp only [hrun] at hwp ⊢
    rcases hwp with ⟨owner, hprompted⟩ | ⟨-, -, rfl⟩
    · have hwait : ¬ d₁.phase = .returned := by
        rw [hprompted.phase]
        change ¬ d.phase = .returned
        rw [hphase]
        decide
      have hflags : d₁.flags = ioAsynchReply := by
        rw [hprompted.flags]
        change 0 ||| ioAsynchReply = ioAsynchReply
        decide
      refine ⟨.returns, by rw [if_neg hwait], ?_, by simp⟩
      rw [if_neg hwait, exchangeNext_deferred hflags]
      simpa using hwait
    · have hreturned : (dashboard (received bytes d)).phase = .returned := rfl
      rw [if_pos hreturned]
      exact ⟨_, rfl, by simp [hreturned], by simp⟩
  | error fault d₁ =>
    simp only [hrun] at hwp ⊢
    rcases hwp with hthrown | ⟨rfl, rfl⟩
    · have hphase₁ : d₁.phase = .waiting := hthrown.phase.trans hphase
      have hbusy : d₁.apduState = .busy := hthrown.apduState
      have hflags : d₁.flags = 0 := hthrown.flags
      have hcode : ∃ e, fault = .thrown e ∧ d₁.tx + 2 ≤ ioApduBufferSize := by
        rcases hthrown.verdict with ⟨hrefusal, htx₁⟩ | ⟨rfl, -, htx₁⟩
        · obtain ⟨e, rfl, -, -⟩ := hrefusal.cases
          exact ⟨e, rfl, by rw [htx₁, htx]; decide⟩
        · exact ⟨swOk, rfl, by simp only [ioApduBufferSize]; omega⟩
      obtain ⟨e, rfl, hfit⟩ := hcode
      refine ⟨.throws e, rfl, ?_, ?_⟩
      · by_cases hreset : e = SdkException.ioReset.code
        · rw [hreset, caught_reset]
          simp [restart, clearAllContexts, uiIdle, hphase₁]
        · rw [caught_eq hreset hbusy hflags hfit, replied_phase, clearUnless_phase, hphase₁]
          simp
      · intro hreset
        obtain rfl : e = SdkException.ioReset.code := by simpa using hreset
        exact ⟨d₁, caught_reset⟩
    · have hfit : (received bytes d).tx + 2 ≤ ioApduBufferSize := by
        rw [htx]
        decide
      have hflags : (resetting (received bytes d)).flags = ioResetAfterReplied := by
        change 0 ||| ioResetAfterReplied = ioResetAfterReplied
        decide
      have hexit : caught (.thrown swOk) (resetting (received bytes d)) =
          exited (replied swOk (resetting (received bytes d))) := caught_exit rfl hflags hfit
      refine ⟨.throws swOk, rfl, ?_, ?_⟩
      · rw [hexit]
        simp [exited]
      · intro hreset
        simp [swOk, SdkException.code] at hreset

end IostLedger
