import StarkPerpetual.Bn

/-!
# The range validator

Every encoder validates each field with `assertInRange` of `starkware_crypto` before it packs or
hashes anything. That function is not in the repository; it is modelled from the spec (§4.2, §7):
a call fails with a range violation naming the field, its value and the bounds, when the value is
below the lower bound or not below the upper one.

An encoder's checks are a block of consecutive calls (`assertAllInRange`). The block passes exactly
when every check holds, and otherwise fails with the violation of the first check that does not
(`assertAllInRange_eq`).
-/

namespace StarkPerpetual

/-- The encoders' only error (§7): a range violation, with the field's name, its value and the
bounds `[lowerBound, upperBound)` it was checked against. -/
inductive EncodeError
  | rangeViolation (inputName : String) (input lowerBound upperBound : ℤ)
  deriving DecidableEq, Repr

/-- Modelled from the spec: `assertInRange(input, lowerBound, upperBound, inputName)` of
`starkware_crypto` fails with a range violation when `input < lowerBound` or
`input >= upperBound` (§4.2). -/
def assertInRange (input lowerBound upperBound : ℤ) (inputName : String) :
    Except EncodeError Unit :=
  if lowerBound ≤ input ∧ input < upperBound then .ok ()
  else .error (.rangeViolation inputName input lowerBound upperBound)

/-- The arguments of one `assertInRange` call. -/
structure RangeCheck where
  input : ℤ
  lowerBound : ℤ
  upperBound : ℤ
  inputName : String
  deriving DecidableEq, Repr

/-- The call passes. -/
def RangeCheck.Holds (c : RangeCheck) : Prop := c.lowerBound ≤ c.input ∧ c.input < c.upperBound

instance : DecidablePred RangeCheck.Holds := fun _ => inferInstanceAs (Decidable (_ ∧ _))

/-- The error the call raises when it fails. -/
def RangeCheck.violation (c : RangeCheck) : EncodeError :=
  .rangeViolation c.inputName c.input c.lowerBound c.upperBound

/-- A block of `assertInRange` calls, made in order; the first that fails ends the block. -/
def assertAllInRange : List RangeCheck → Except EncodeError Unit
  | [] => .ok ()
  | c :: cs => do
    assertInRange c.input c.lowerBound c.upperBound c.inputName
    assertAllInRange cs

theorem assertInRange_eq (c : RangeCheck) :
    assertInRange c.input c.lowerBound c.upperBound c.inputName =
      if c.Holds then .ok () else .error c.violation := rfl

/-- The block fails with the first check that does not hold, and passes if there is none. -/
theorem assertAllInRange_eq (cs : List RangeCheck) :
    assertAllInRange cs = match cs.find? (fun c => !decide c.Holds) with
      | none => .ok ()
      | some c => .error c.violation := by
  induction cs with
  | nil => rfl
  | cons c cs ih =>
    by_cases h : c.Holds
    · simp only [assertAllInRange, assertInRange_eq, if_pos h, List.find?_cons, h]
      exact ih
    · simp only [assertAllInRange, assertInRange_eq, if_neg h, List.find?_cons, h]
      rfl

theorem assertAllInRange_eq_ok {cs : List RangeCheck} :
    assertAllInRange cs = .ok () ↔ ∀ c ∈ cs, c.Holds := by
  rw [assertAllInRange_eq]
  split
  · rename_i h
    simpa using List.find?_eq_none.1 h
  · rename_i c h
    have hc : ¬ c.Holds := by simpa using List.find?_some h
    exact ⟨nofun, fun h' => absurd (h' c (List.mem_of_find?_eq_some h)) hc⟩

/-- A failing block raises the violation of one of its checks. -/
theorem exists_violation_of_not_holds {cs : List RangeCheck} (h : ¬ ∀ c ∈ cs, c.Holds) :
    ∃ c ∈ cs, ¬ c.Holds ∧ assertAllInRange cs = .error c.violation := by
  rw [assertAllInRange_eq]
  split
  · rename_i hn
    exact absurd (by simpa using List.find?_eq_none.1 hn) h
  · rename_i c hc
    exact ⟨c, List.mem_of_find?_eq_some hc, by simpa using List.find?_some hc, rfl⟩

end StarkPerpetual
