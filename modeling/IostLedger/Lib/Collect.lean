import Mathlib.Tactic

/-! Collecting a list piece by piece under a cap. A piece that is not wanted or does not
fit drops all that has been collected, and collecting starts again. -/
namespace Collect

variable {ι α : Type} (wanted : ι → Prop) [DecidablePred wanted] (content : ι → List α) (cap : ℕ)

/-- One more piece. -/
def push (acc : List α) (piece : ι) : List α :=
  if wanted piece ∧ acc.length + (content piece).length ≤ cap then acc ++ content piece else []

variable {wanted content cap} {acc : List α} {piece : ι} {pieces : List ι}

theorem push_of_fits (hwanted : wanted piece) (hfit : acc.length + (content piece).length ≤ cap) :
    push wanted content cap acc piece = acc ++ content piece := if_pos ⟨hwanted, hfit⟩

/-- What is held is always the end of what has been given. -/
theorem push_suffix : push wanted content cap acc piece <:+ acc ++ content piece := by
  unfold push
  split_ifs
  · exact List.suffix_rfl
  · exact List.nil_suffix

theorem foldl_push_suffix :
    pieces.foldl (push wanted content cap) acc <:+ acc ++ pieces.flatMap content := by
  induction pieces generalizing acc with
  | nil =>
    rw [List.flatMap_nil, List.append_nil]
    exact List.suffix_rfl
  | cons piece pieces ih =>
    rw [List.foldl_cons, List.flatMap_cons, ← List.append_assoc]
    obtain ⟨before, hbefore⟩ : push wanted content cap acc piece <:+ acc ++ content piece :=
      push_suffix
    apply ih.trans
    rw [← hbefore, List.append_assoc]
    exact List.suffix_append _ _

theorem foldl_push_of_fits (hwanted : ∀ piece ∈ pieces, wanted piece)
    (hfit : (acc ++ pieces.flatMap content).length ≤ cap) :
    pieces.foldl (push wanted content cap) acc = acc ++ pieces.flatMap content := by
  induction pieces generalizing acc with
  | nil => simp
  | cons piece pieces ih =>
    rw [List.flatMap_cons, ← List.append_assoc] at hfit ⊢
    have hpiece : acc.length + (content piece).length ≤ cap := by
      rw [List.length_append, List.length_append] at hfit
      omega
    rw [List.foldl_cons, push_of_fits (hwanted piece List.mem_cons_self) hpiece]
    exact ih (fun p hp => hwanted p (List.mem_cons_of_mem piece hp)) hfit

/-- Nothing is lost exactly when every piece is wanted and all of them fit. -/
theorem foldl_push_eq_iff (hacc : acc.length ≤ cap) (hsome : ∀ piece ∈ pieces, content piece ≠ []) :
    pieces.foldl (push wanted content cap) acc = acc ++ pieces.flatMap content ↔
      (∀ piece ∈ pieces, wanted piece) ∧ (acc ++ pieces.flatMap content).length ≤ cap := by
  constructor
  · intro h
    induction pieces generalizing acc with
    | nil => simpa using hacc
    | cons piece pieces ih =>
      rw [List.foldl_cons, List.flatMap_cons, ← List.append_assoc] at h
      by_cases hfits : wanted piece ∧ acc.length + (content piece).length ≤ cap
      · rw [push_of_fits hfits.1 hfits.2] at h
        have hnext := @ih (acc ++ content piece) (by rw [List.length_append]; exact hfits.2)
          (fun p hp => hsome p (List.mem_cons_of_mem piece hp)) h
        constructor
        · exact List.forall_mem_cons.mpr ⟨hfits.1, hnext.1⟩
        · rw [List.flatMap_cons, ← List.append_assoc]
          exact hnext.2
      · -- the pieces behind a dropped one are too short to make up for it
        have hsuffix :
            pieces.foldl (push wanted content cap) (push wanted content cap acc piece) <:+
              push wanted content cap acc piece ++ pieces.flatMap content := foldl_push_suffix
        have hshort := hsuffix.length_le
        have hlen := List.length_pos_of_ne_nil (hsome piece List.mem_cons_self)
        rw [h, push, if_neg hfits] at hshort
        simp only [List.length_append, List.length_nil] at hshort
        omega
  · rintro ⟨hwanted, hfit⟩
    exact foldl_push_of_fits hwanted hfit

end Collect
