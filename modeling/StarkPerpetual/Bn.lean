import Mathlib.Data.List.Basic
import Mathlib.Tactic.NormNum
import Mathlib.Tactic.Ring

/-!
# Values and big numbers

The encoders of `perpetual_messages.js` read every field with `new BN(x, 10)` of bn.js: a decimal
string is parsed in base 10 and a `BN` is returned as it is. A `BN` is an exact integer, so it is
an `ℤ` here, and `ushln`, the unsigned left shift, multiplies by a power of two.

The default hash collaborator reads its arguments with `new BN(x, 16)` instead (`Value.toBn16`):
a `BN` by value, a string in base 16. The two readings of a string agree exactly when its value is
below 10 (`Value.toBn16_eq_toBn_iff`); otherwise base 16 reads more.
-/

namespace StarkPerpetual

/-! ## Decimal strings -/

/-- A decimal string as callers pass a field: an optional minus sign, then decimal digits, most
significant first. -/
structure DecimalString where
  negative : Bool
  digits : List (Fin 10)
  deriving DecidableEq, Repr

/-- The magnitude of the digits read in base `base`, as bn.js's `_parseBase` (and `_parseHex` for
base 16) accumulates them. -/
def DecimalString.magnitude (base : ℕ) (s : DecimalString) : ℕ :=
  s.digits.foldl (fun r d => r * base + d.val) 0

/-- The string read in base `base`; the sign applies to the whole number. A sign with no digits,
`"-"`, gives bn.js a negative `BN` with no words, which compares below every nonnegative bound; it
reads as `-1`, which every range check rejects, as the code does. -/
def DecimalString.read (base : ℕ) (s : DecimalString) : ℤ :=
  if s.negative then (if s.digits = [] then -1 else -(s.magnitude base : ℤ))
  else s.magnitude base

/-! ## Values -/

/-- A value an encoder reads or hands to its hash collaborator: a decimal string or a `BN`. -/
inductive Value
  | str (s : DecimalString)
  | bn (v : ℤ)
  deriving DecidableEq, Repr

/-- `new BN(x, 10)`: a string is parsed in base 10; a `BN` is returned as it is. -/
def Value.toBn : Value → ℤ
  | .str s => s.read 10
  | .bn v => v

/-- `new BN(x, 16)`: a string is parsed in base 16; a `BN` is returned as it is. -/
def Value.toBn16 : Value → ℤ
  | .str s => s.read 16
  | .bn v => v

@[simp] theorem Value.toBn_bn (v : ℤ) : (Value.bn v).toBn = v := rfl

@[simp] theorem Value.toBn16_bn (v : ℤ) : (Value.bn v).toBn16 = v := rfl

/-! ## The two readings of a string -/

@[simp] theorem DecimalString.magnitude_nil (base : ℕ) (negative : Bool) :
    DecimalString.magnitude base ⟨negative, []⟩ = 0 := rfl

@[simp] theorem DecimalString.magnitude_append (base : ℕ) (negative : Bool) (ds : List (Fin 10))
    (d : Fin 10) : DecimalString.magnitude base ⟨negative, ds ++ [d]⟩ =
      DecimalString.magnitude base ⟨negative, ds⟩ * base + d.val := by
  simp [DecimalString.magnitude]

/-- Read in base 16 the digits give at least their decimal value, and the same value exactly when
that value is below 10. -/
theorem DecimalString.magnitude_ten_le_sixteen (s : DecimalString) :
    s.magnitude 10 ≤ s.magnitude 16 ∧ (s.magnitude 16 = s.magnitude 10 ↔ s.magnitude 10 < 10) := by
  obtain ⟨negative, ds⟩ := s
  induction ds using List.reverseRecOn with
  | nil => simp
  | append_singleton ds d ih =>
    have := d.isLt
    simp only [magnitude_append]
    omega

/-- The collaborator reads a value as the encoders do exactly when it is a `BN` or a string of
absolute value below 10. -/
theorem Value.toBn16_eq_toBn_iff (a : Value) :
    a.toBn16 = a.toBn ↔ (∃ v, a = .bn v) ∨ a.toBn.natAbs < 10 := by
  cases a with
  | bn v => simp
  | str s =>
    have := s.magnitude_ten_le_sixteen.2
    cases hs : s.negative <;> by_cases hd : s.digits = [] <;>
      simp [toBn16, toBn, DecimalString.read, hs, hd, this]

/-- A value the encoders read as nonnegative the collaborator reads as nonnegative: a negative
string reads as `0` in base 10 only if its digits are all zero. -/
theorem Value.toBn16_nonneg {a : Value} (h : 0 ≤ a.toBn) : 0 ≤ a.toBn16 := by
  cases a with
  | bn v => exact h
  | str s =>
    have := s.magnitude_ten_le_sixteen
    cases hs : s.negative <;> by_cases hd : s.digits = [] <;>
      simp only [toBn16, toBn, DecimalString.read, hs, hd, Bool.false_eq_true, ↓reduceIte]
        at h ⊢ <;>
      omega

/-! ## Shifts and constants -/

/-- `x.ushln(bits)`: the left shift of a `BN` by `bits`, exact on its magnitude. -/
def ushln (x : ℤ) (bits : ℕ) : ℤ := x * ((2 ^ bits : ℕ) : ℤ)

@[simp] theorem ushln_eq (x : ℤ) (bits : ℕ) : ushln x bits = x * 2 ^ bits := by
  simp [ushln]

/-- `Bn64 = new BN('10000000000000000', 16)`. -/
def Bn64 : ℤ := 0x10000000000000000

/-- `Bn32 = new BN('100000000', 16)`. -/
def Bn32 : ℤ := 0x100000000

/-- `Bn128 = new BN('100000000000000000000000000000000', 16)`. -/
def Bn128 : ℤ := 0x100000000000000000000000000000000

/-- `Bn250 = new BN('400000000000000000000000000000000000000000000000000000000000000', 16)`. -/
def Bn250 : ℤ := 0x400000000000000000000000000000000000000000000000000000000000000

/-- `Bn251 = new BN('800000000000000000000000000000000000000000000000000000000000000', 16)`. -/
def Bn251 : ℤ := 0x800000000000000000000000000000000000000000000000000000000000000

/-- `zeroBn = new BN('0', 16)`. -/
def zeroBn : ℤ := 0

@[simp] theorem Bn64_eq : Bn64 = 2 ^ 64 := by norm_num [Bn64]

@[simp] theorem Bn32_eq : Bn32 = 2 ^ 32 := by norm_num [Bn32]

@[simp] theorem Bn128_eq : Bn128 = 2 ^ 128 := by norm_num [Bn128]

@[simp] theorem Bn250_eq : Bn250 = 2 ^ 250 := by norm_num [Bn250]

@[simp] theorem Bn251_eq : Bn251 = 2 ^ 251 := by norm_num [Bn251]

@[simp] theorem zeroBn_eq : zeroBn = 0 := rfl

/-- Modelled from the spec: the prime `P` of the STARK field, over which the hash collaborator works
and the signed messages are field elements. -/
def fieldPrime : ℤ := ((2 ^ 251 + 17 * 2 ^ 192 + 1 : ℕ) : ℤ)

/-! ## Operation discriminants

`new BN(c, 10)` of the string constants `LimitOrderWithFees = '3'`, `Transfer = '4'`,
`ConditionalTransfer = '5'` and `Withdrawal = '6'`. -/

def LimitOrderWithFees : ℤ := 3

def Transfer : ℤ := 4

def ConditionalTransfer : ℤ := 5

def Withdrawal : ℤ := 6

end StarkPerpetual
