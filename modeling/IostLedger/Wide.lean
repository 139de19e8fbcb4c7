import IostLedger.Lib.Halves
import IostLedger.Lib.While
import IostLedger.Lib.Schoolbook

/-! `uint256.c`: 128-bit and 256-bit numbers, their copies, shifts, comparisons, sums and
products. A routine that writes a target takes references, since the file calls some of
them with the target among the operands; one that only reads takes the number. -/
namespace IostLedger
open Call Schoolbook

/-- `uint128_t`. -/
abbrev Uint128 := Halves UInt64

/-- `uint256_t`. -/
abbrev Uint256 := Halves Uint128

variable {σ : Type}

/-- `zero128`. -/
def zero128 (number : Uint128) : Bool := number.lower == 0 && number.upper == 0

/-- `zero256`. -/
def zero256 (number : Uint256) : Bool := zero128 number.lower && zero128 number.upper

/-- `copy128`. -/
def copy128 (target number : Ref σ Uint128) (s : σ) : σ :=
  let s := target.upper.set (number.upper.get s) s
  target.lower.set (number.lower.get s) s

/-- `copy256`. -/
def copy256 (target number : Ref σ Uint256) (s : σ) : σ :=
  let s := copy128 target.upper number.upper s
  copy128 target.lower number.lower s

/-- `clear128`. -/
def clear128 (target : Ref σ Uint128) (s : σ) : σ :=
  let s := target.upper.set 0 s
  target.lower.set 0 s

/-- `clear256`. -/
def clear256 (target : Ref σ Uint256) (s : σ) : σ :=
  let s := clear128 target.upper s
  clear128 target.lower s

/-- `equal128`. -/
def equal128 (number1 number2 : Uint128) : Bool :=
  number1.upper == number2.upper && number1.lower == number2.lower

/-- `equal256`. -/
def equal256 (number1 number2 : Uint256) : Bool :=
  equal128 number1.upper number2.upper && equal128 number1.lower number2.lower

/-- `gt128`. -/
def gt128 (number1 number2 : Uint128) : Bool :=
  if number1.upper == number2.upper then number1.lower > number2.lower
  else number1.upper > number2.upper

/-- `gt256`. -/
def gt256 (number1 number2 : Uint256) : Bool :=
  if equal128 number1.upper number2.upper then gt128 number1.lower number2.lower
  else gt128 number1.upper number2.upper

/-- `gte128`. -/
def gte128 (number1 number2 : Uint128) : Bool := gt128 number1 number2 || equal128 number1 number2

/-- `gte256`. -/
def gte256 (number1 number2 : Uint256) : Bool := gt256 number1 number2 || equal256 number1 number2

/-- `add128`. The carry is read before the lower half of the target is written. -/
def add128 (number1 number2 target : Ref σ Uint128) (s : σ) : σ :=
  let s := target.upper.set (number1.upper.get s + number2.upper.get s +
    (if number1.lower.get s + number2.lower.get s < number1.lower.get s then 1 else 0)) s
  target.lower.set (number1.lower.get s + number2.lower.get s) s

/-- `add256`. -/
def add256 (number1 number2 target : Ref σ Uint256) (s : σ) : σ :=
  let s := add128 number1.upper number2.upper target.upper s
  let tmp := into₂ add128 (number1.lower.get s) (number2.lower.get s)
  let s := if gt128 (number1.lower.get s) tmp then
      update₂ add128 target.upper ⟨0, 1⟩ s
    else s
  add128 number1.lower number2.lower target.lower s

/-- `minus128`. -/
def minus128 (number1 number2 target : Ref σ Uint128) (s : σ) : σ :=
  let s := target.upper.set (number1.upper.get s - number2.upper.get s -
    (if number1.lower.get s - number2.lower.get s > number1.lower.get s then 1 else 0)) s
  target.lower.set (number1.lower.get s - number2.lower.get s) s

/-- `minus256`. -/
def minus256 (number1 number2 target : Ref σ Uint256) (s : σ) : σ :=
  let s := minus128 number1.upper number2.upper target.upper s
  let tmp := into₂ minus128 (number1.lower.get s) (number2.lower.get s)
  let s := if gt128 tmp (number1.lower.get s) then
      update₂ minus128 target.upper ⟨0, 1⟩ s
    else s
  minus128 number1.lower number2.lower target.lower s

/-- `or128`. -/
def or128 (number1 number2 target : Ref σ Uint128) (s : σ) : σ :=
  let s := target.upper.set (number1.upper.get s ||| number2.upper.get s) s
  target.lower.set (number1.lower.get s ||| number2.lower.get s) s

/-- `or256`. -/
def or256 (number1 number2 target : Ref σ Uint256) (s : σ) : σ :=
  let s := or128 number1.upper number2.upper target.upper s
  or128 number1.lower number2.lower target.lower s

/-- `shiftl128`. -/
def shiftl128 (number : Ref σ Uint128) (value : UInt32) (target : Ref σ Uint128) (s : σ) : σ :=
  if value ≥ 128 then clear128 target s
  else if value = 64 then
    let s := target.upper.set (number.lower.get s) s
    target.lower.set 0 s
  else if value = 0 then copy128 target number s
  else if value < 64 then
    let s := target.upper.set ((number.upper.get s <<< value.toUInt64) +
      (number.lower.get s >>> (64 - value).toUInt64)) s
    target.lower.set (number.lower.get s <<< value.toUInt64) s
  else if 128 > value ∧ value > 64 then
    let s := target.upper.set (number.lower.get s <<< (value - 64).toUInt64) s
    target.lower.set 0 s
  else clear128 target s

/-- `shiftr128`. Only the branch below 64 collects its result before it writes the target. -/
def shiftr128 (number : Ref σ Uint128) (value : UInt32) (target : Ref σ Uint128) (s : σ) : σ :=
  if value ≥ 128 then clear128 target s
  else if value = 64 then
    let s := target.upper.set 0 s
    target.lower.set (number.upper.get s) s
  else if value = 0 then copy128 target number s
  else if value < 64 then
    let result : Uint128 := ⟨number.upper.get s >>> value.toUInt64,
      (number.upper.get s <<< (64 - value).toUInt64) + (number.lower.get s >>> value.toUInt64)⟩
    from₁ (fun number target => copy128 target number) result target s
  else if 128 > value ∧ value > 64 then
    let s := target.lower.set (number.upper.get s >>> (value - 64).toUInt64) s
    target.upper.set 0 s
  else clear128 target s

/-- `shiftl256`. -/
def shiftl256 (number : Ref σ Uint256) (value : UInt32) (target : Ref σ Uint256) (s : σ) : σ :=
  if value ≥ 256 then clear256 target s
  else if value = 128 then
    let s := copy128 target.upper number.lower s
    clear128 target.lower s
  else if value = 0 then copy256 target number s
  else if value < 128 then
    let tmp1 := into₁ (fun number target => shiftl128 number value target) (number.upper.get s)
    let tmp2 :=
      into₁ (fun number target => shiftr128 number (128 - value) target) (number.lower.get s)
    let result : Uint256 := ⟨into₂ add128 tmp1 tmp2,
      into₁ (fun number target => shiftl128 number value target) (number.lower.get s)⟩
    from₁ (fun number target => copy256 target number) result target s
  else if 256 > value ∧ value > 128 then
    let s := shiftl128 number.lower (value - 128) target.upper s
    clear128 target.lower s
  else clear256 target s

/-- `shiftr256`. -/
def shiftr256 (number : Ref σ Uint256) (value : UInt32) (target : Ref σ Uint256) (s : σ) : σ :=
  if value ≥ 256 then clear256 target s
  else if value = 128 then
    let s := copy128 target.lower number.upper s
    clear128 target.upper s
  else if value = 0 then copy256 target number s
  else if value < 128 then
    let tmp1 := into₁ (fun number target => shiftr128 number value target) (number.lower.get s)
    let tmp2 :=
      into₁ (fun number target => shiftl128 number (128 - value) target) (number.upper.get s)
    let result : Uint256 := ⟨into₁ (fun number target => shiftr128 number value target)
      (number.upper.get s), into₂ add128 tmp1 tmp2⟩
    from₁ (fun number target => copy256 target number) result target s
  else if 256 > value ∧ value > 128 then
    let s := shiftr128 number.upper (value - 128) target.lower s
    clear128 target.upper s
  else clear256 target s

/-- `bits128`. -/
def bits128 (fuel : ℕ) (number : Uint128) : Option UInt32 :=
  let count := While.loop (fun n : UInt64 × UInt32 => n.1 != 0)
    (fun n => (n.1 >>> 1, n.2 + 1)) fuel
  if number.upper != 0 then (count (number.upper, 64)).map Prod.snd
  else (count (number.lower, 0)).map Prod.snd

/-- `bits256`. -/
def bits256 (fuel : ℕ) (number : Uint256) : Option UInt32 :=
  let count := While.loop (fun n : Uint128 × UInt32 => !zero128 n.1)
    (fun n => (inPlace₁ (fun number target => shiftr128 number 1 target) n.1, n.2 + 1)) fuel
  if !zero128 number.upper then (count (number.upper, 128)).map Prod.snd
  else (count (number.lower, 0)).map Prod.snd

/-- `v & 0xffffffff`. -/
def low32 (v : UInt64) : UInt64 := v &&& 0xffffffff

/-- The initializer of `top` and of `bottom` in `mul128`. -/
def words32 (number : Uint128) : Fin 4 → UInt64 :=
  ![number.upper >>> 32, low32 number.upper, number.lower >>> 32, low32 number.lower]

/-- The first part of `mul128`, `fourth32` to `first32`. The loops fill `products[3 - x][y]`
for every `x` and `y`. -/
def mul128Columns (number1 number2 : Uint128) : Columns UInt64 :=
  let top := words32 number1
  let bottom := words32 number2
  let products : Fin 4 → Fin 4 → UInt64 := fun i y => top i.rev * bottom y
  let fourth32 := low32 (products 0 3)
  let third32 := low32 (products 0 2) + (products 0 3 >>> 32)
  let second32 := low32 (products 0 1) + (products 0 2 >>> 32)
  let first32 := low32 (products 0 0) + (products 0 1 >>> 32)
  let third32 := third32 + low32 (products 1 3)
  let second32 := second32 + (low32 (products 1 2) + (products 1 3 >>> 32))
  let first32 := first32 + (low32 (products 1 1) + (products 1 2 >>> 32))
  let second32 := second32 + low32 (products 2 3)
  let first32 := first32 + (low32 (products 2 2) + (products 2 3 >>> 32))
  let first32 := first32 + low32 (products 3 3)
  ⟨fourth32, third32, second32, first32⟩

/-- `mul128`. -/
def mul128 (number1 number2 target : Ref σ Uint128) (s : σ) : σ :=
  let column := mul128Columns (number1.get s) (number2.get s)
  let s := from₂ add128 ⟨column.first <<< 32, 0⟩ ⟨column.third >>> 32, column.third <<< 32⟩
    target s
  let tmp2 := into₂ add128 ⟨column.second, 0⟩ (target.get s)
  from₂ add128 ⟨0, column.fourth⟩ tmp2 target s

/-- What `mul256` stores in `top` and in `bottom`. -/
def words64 (number : Uint256) : Fin 4 → Uint128 :=
  ![⟨0, number.upper.upper⟩, ⟨0, number.upper.lower⟩, ⟨0, number.lower.upper⟩,
    ⟨0, number.lower.lower⟩]

/-- The first part of `mul256`, `fourth64` to `first64`. -/
def mul256Columns (number1 number2 : Uint256) : Columns Uint128 :=
  let top := words64 number1
  let bottom := words64 number2
  let products : Fin 4 → Fin 4 → Uint128 := fun i y => into₂ mul128 (top i.rev) (bottom y)
  let fourth64 : Uint128 := ⟨0, (products 0 3).lower⟩
  let third64 := into₂ add128 ⟨0, (products 0 2).lower⟩ ⟨0, (products 0 3).upper⟩
  let second64 := into₂ add128 ⟨0, (products 0 1).lower⟩ ⟨0, (products 0 2).upper⟩
  let first64 := into₂ add128 ⟨0, (products 0 0).lower⟩ ⟨0, (products 0 1).upper⟩
  let third64 := into₂ add128 ⟨0, (products 1 3).lower⟩ third64
  let tmp2 := into₂ add128 ⟨0, (products 1 2).lower⟩ second64
  let second64 := into₂ add128 ⟨0, (products 1 3).upper⟩ tmp2
  let tmp2 := into₂ add128 ⟨0, (products 1 1).lower⟩ first64
  let first64 := into₂ add128 ⟨0, (products 1 2).upper⟩ tmp2
  let second64 := into₂ add128 ⟨0, (products 2 3).lower⟩ second64
  let tmp2 := into₂ add128 ⟨0, (products 2 2).lower⟩ first64
  let first64 := into₂ add128 ⟨0, (products 2 3).upper⟩ tmp2
  let first64 := into₂ add128 ⟨0, (products 3 3).lower⟩ first64
  ⟨fourth64, third64, second64, first64⟩

/-- `mul256`. The upper half of `third64` goes to `UPPER(UPPER(target2))`. -/
def mul256 (number1 number2 target : Ref σ Uint256) (s : σ) : σ :=
  let column := mul256Columns (number1.get s) (number2.get s)
  let zero : Uint128 := into₀ clear128
  let target1 : Uint256 :=
    ⟨into₁ (fun number target => shiftl128 number 64 target) column.first, zero⟩
  let target2 : Uint256 := ⟨⟨column.third.upper, zero.lower⟩,
    into₁ (fun number target => shiftl128 number 64 target) column.third⟩
  let s := from₂ add256 target1 target2 target s
  let target1 : Uint256 := ⟨column.second, zero⟩
  let target2 := into₂ add256 target1 (target.get s)
  let target1 : Uint256 := ⟨zero, column.fourth⟩
  from₂ add256 target1 target2 target s

end IostLedger
