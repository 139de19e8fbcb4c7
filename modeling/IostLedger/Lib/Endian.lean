import Mathlib.Tactic

/-! Numbers as a fixed count of bytes, least significant byte first. -/
namespace Endian

/-- The `k` low bytes of `v`. -/
def littleEndian : ℕ → ℕ → List UInt8
  | 0, _ => []
  | k + 1, v => UInt8.ofNat v :: littleEndian k (v / 256)

@[simp] theorem littleEndian_length (k v : ℕ) : (littleEndian k v).length = k := by
  induction k generalizing v with
  | zero => rfl
  | succ k ih => rw [littleEndian, List.length_cons, ih]

theorem littleEndian_getElem? {k v i : ℕ} (h : i < k) :
    (littleEndian k v)[i]? = some (UInt8.ofNat (v / 256 ^ i)) := by
  induction k generalizing v i with
  | zero => omega
  | succ k ih =>
    rw [littleEndian]
    cases i with
    | zero => simp
    | succ i =>
      rw [List.getElem?_cons_succ, ih (by omega), Nat.div_div_eq_div_mul, pow_succ']

theorem littleEndian_inj {k v w : ℕ} (hv : v < 256 ^ k) (hw : w < 256 ^ k)
    (h : littleEndian k v = littleEndian k w) : v = w := by
  induction k generalizing v w with
  | zero => simp only [pow_zero] at hv hw; omega
  | succ k ih =>
    simp only [littleEndian, List.cons.injEq] at h
    have hlow := congrArg UInt8.toNat h.1
    rw [UInt8.toNat_ofNat', UInt8.toNat_ofNat'] at hlow
    rw [pow_succ] at hv hw
    have hhigh := ih (by omega) (by omega) h.2
    omega

end Endian
