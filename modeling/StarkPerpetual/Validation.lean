import StarkPerpetual.Messages

/-!
# Range validation is exact and fails fast

The spec declares a width for every field of every message kind (§4.2, §4.5);
`PerpetualMessage.declaredFields` lists them. The `assertInRange` calls of each encoder check
exactly those fields against `[0, 2 ^ w)`, the limit order's two amounts through the remapped
`amountSell` and `amountBuy` whichever way it trades (`rangeChecks_hold_iff`).

So the block passes exactly when every declared field is in range, and a failing block ends the
run with its range violation before the first call of the collaborator, whatever the collaborator
does (`getMessage_range_validation`).
-/

namespace StarkPerpetual

namespace PerpetualMessage

/-- Each field the spec declares for the call, with its value and width, in the order the encoder
checks them. -/
def declaredFields : PerpetualMessage → List (ℤ × ℕ)
  | withdrawal a p n e am =>
    [(a.toBn, 250), (n.toBn, 32), (p.toBn, 64), (e.toBn, 32), (am.toBn, 64)]
  | transfer a f k s r src n am fee e =>
    [(a.toBn, 250), (f.toBn, 250), (k.toBn, 251), (s.toBn, 64), (r.toBn, 64), (src.toBn, 64),
      (n.toBn, 32), (am.toBn, 64), (fee.toBn, 64), (e.toBn, 32)]
  | conditionalTransfer a f k c s r src n am fee e =>
    [(a.toBn, 250), (f.toBn, 250), (k.toBn, 251), (s.toBn, 64), (r.toBn, 64), (src.toBn, 64),
      (n.toBn, 32), (am.toBn, 64), (fee.toBn, 64), (e.toBn, 32), (c.toBn, 251)]
  | limitOrder syn col _ f asyn acol fee n pos e =>
    [(syn.toBn, 128), (col.toBn, 250), (f.toBn, 250), (asyn.toBn, 64), (acol.toBn, 64),
      (fee.toBn, 64), (n.toBn, 32), (pos.toBn, 64), (e.toBn, 32)]

/-- Every declared field lies in `[0, 2 ^ width)`. -/
def FieldsInRange (p : PerpetualMessage) : Prop :=
  ∀ f ∈ p.declaredFields, 0 ≤ f.1 ∧ f.1 < 2 ^ f.2

instance : DecidablePred FieldsInRange := fun p =>
  inferInstanceAs (Decidable (∀ f ∈ p.declaredFields, 0 ≤ f.1 ∧ f.1 < 2 ^ f.2))

/-! The declared ranges of each kind of call, one conjunct per field in the order of the checks -/

@[simp] theorem fieldsInRange_withdrawal {a p n e am : Value} :
    (withdrawal a p n e am).FieldsInRange ↔
      (0 ≤ a.toBn ∧ a.toBn < 2 ^ 250) ∧ (0 ≤ n.toBn ∧ n.toBn < 2 ^ 32) ∧
        (0 ≤ p.toBn ∧ p.toBn < 2 ^ 64) ∧ (0 ≤ e.toBn ∧ e.toBn < 2 ^ 32) ∧
        (0 ≤ am.toBn ∧ am.toBn < 2 ^ 64) := by
  simp only [FieldsInRange, declaredFields, List.forall_mem_cons, List.mem_nil_iff, false_implies,
    implies_true, and_true]

@[simp] theorem fieldsInRange_transfer {a f k s r src n am fee e : Value} :
    (transfer a f k s r src n am fee e).FieldsInRange ↔
      (0 ≤ a.toBn ∧ a.toBn < 2 ^ 250) ∧ (0 ≤ f.toBn ∧ f.toBn < 2 ^ 250) ∧
        (0 ≤ k.toBn ∧ k.toBn < 2 ^ 251) ∧ (0 ≤ s.toBn ∧ s.toBn < 2 ^ 64) ∧
        (0 ≤ r.toBn ∧ r.toBn < 2 ^ 64) ∧ (0 ≤ src.toBn ∧ src.toBn < 2 ^ 64) ∧
        (0 ≤ n.toBn ∧ n.toBn < 2 ^ 32) ∧ (0 ≤ am.toBn ∧ am.toBn < 2 ^ 64) ∧
        (0 ≤ fee.toBn ∧ fee.toBn < 2 ^ 64) ∧ (0 ≤ e.toBn ∧ e.toBn < 2 ^ 32) := by
  simp only [FieldsInRange, declaredFields, List.forall_mem_cons, List.mem_nil_iff, false_implies,
    implies_true, and_true]

@[simp] theorem fieldsInRange_conditionalTransfer {a f k c s r src n am fee e : Value} :
    (conditionalTransfer a f k c s r src n am fee e).FieldsInRange ↔
      (0 ≤ a.toBn ∧ a.toBn < 2 ^ 250) ∧ (0 ≤ f.toBn ∧ f.toBn < 2 ^ 250) ∧
        (0 ≤ k.toBn ∧ k.toBn < 2 ^ 251) ∧ (0 ≤ s.toBn ∧ s.toBn < 2 ^ 64) ∧
        (0 ≤ r.toBn ∧ r.toBn < 2 ^ 64) ∧ (0 ≤ src.toBn ∧ src.toBn < 2 ^ 64) ∧
        (0 ≤ n.toBn ∧ n.toBn < 2 ^ 32) ∧ (0 ≤ am.toBn ∧ am.toBn < 2 ^ 64) ∧
        (0 ≤ fee.toBn ∧ fee.toBn < 2 ^ 64) ∧ (0 ≤ e.toBn ∧ e.toBn < 2 ^ 32) ∧
        (0 ≤ c.toBn ∧ c.toBn < 2 ^ 251) := by
  simp only [FieldsInRange, declaredFields, List.forall_mem_cons, List.mem_nil_iff, false_implies,
    implies_true, and_true]

@[simp] theorem fieldsInRange_limitOrder {syn col f asyn acol fee n pos e : Value} {b : Bool} :
    (limitOrder syn col b f asyn acol fee n pos e).FieldsInRange ↔
      (0 ≤ syn.toBn ∧ syn.toBn < 2 ^ 128) ∧ (0 ≤ col.toBn ∧ col.toBn < 2 ^ 250) ∧
        (0 ≤ f.toBn ∧ f.toBn < 2 ^ 250) ∧ (0 ≤ asyn.toBn ∧ asyn.toBn < 2 ^ 64) ∧
        (0 ≤ acol.toBn ∧ acol.toBn < 2 ^ 64) ∧ (0 ≤ fee.toBn ∧ fee.toBn < 2 ^ 64) ∧
        (0 ≤ n.toBn ∧ n.toBn < 2 ^ 32) ∧ (0 ≤ pos.toBn ∧ pos.toBn < 2 ^ 64) ∧
        (0 ≤ e.toBn ∧ e.toBn < 2 ^ 32) := by
  simp only [FieldsInRange, declaredFields, List.forall_mem_cons, List.mem_nil_iff, false_implies,
    implies_true, and_true]

/-- The checks all hold exactly when every declared field is in range: each check is of a
declared field against `[0, 2 ^ width)`, but the plain transfer's check of its default condition
`0`, which holds. -/
theorem rangeChecks_hold_iff (p : PerpetualMessage) :
    (∀ c ∈ p.rangeChecks, c.Holds) ↔ p.FieldsInRange := by
  have h251 : (0 : ℤ) < 2 ^ 251 := by positivity
  cases p with
  | limitOrder syn col b =>
    cases b <;> simp only [rangeChecks, limitOrderRangeChecks, limitOrderSides,
      fieldsInRange_limitOrder, RangeCheck.Holds, List.forall_mem_cons, List.mem_nil_iff,
      false_implies, implies_true, and_true, zeroBn_eq, Bn64_eq, Bn32_eq, Bn128_eq, Bn250_eq,
      Bool.false_eq_true, ↓reduceIte]
    -- a buyer of the synthetic asset has its two amounts checked in the other order
    exact and_congr_right' (and_congr_right' (and_congr_right' and_left_comm))
  | _ =>
    simp only [rangeChecks, withdrawalRangeChecks, perpetualTransfersRangeChecks,
      fieldsInRange_withdrawal, fieldsInRange_transfer, fieldsInRange_conditionalTransfer,
      RangeCheck.Holds, List.forall_mem_cons, List.mem_nil_iff, false_implies, implies_true,
      and_true, zeroBn_eq, Bn64_eq, Bn32_eq, Bn250_eq, Bn251_eq, le_refl, h251]

theorem assertAllInRange_rangeChecks (p : PerpetualMessage) :
    assertAllInRange p.rangeChecks = .ok () ↔ p.FieldsInRange :=
  assertAllInRange_eq_ok.trans p.rangeChecks_hold_iff

end PerpetualMessage

open PerpetualMessage

variable {m : Type → Type} [Monad m] [LawfulMonad m]

/-- Range validation is exact and fails fast. A call with a field out of its declared range fails
with the range violation of one of its checks, a check that does not hold; the run is the same for
every collaborator and `pure` in `m`, so no call of the collaborator happens. A call with every
field in range raises no range violation: its run is the collaborator's hash chain with `.ok`
around its result. -/
theorem getMessage_range_validation (p : PerpetualMessage) :
    (¬ p.FieldsInRange → ∃ c ∈ p.rangeChecks, ¬ c.Holds ∧
        ∀ hash : Value → Value → m ℤ, (p.getMessage hash).run = pure (.error c.violation)) ∧
    (p.FieldsInRange → ∀ hash : Value → Value → m ℤ,
        (p.getMessage hash).run =
          Except.ok <$> hashChainM hash p.hashArgs.1 p.hashArgs.2.1 p.hashArgs.2.2) := by
  constructor
  · intro hp
    obtain ⟨c, hc, hfail, herr⟩ :=
      exists_violation_of_not_holds (mt p.rangeChecks_hold_iff.1 hp)
    exact ⟨c, hc, hfail, fun hash => by rw [getMessage_run, herr]⟩
  · intro hp hash
    rw [getMessage_run, p.assertAllInRange_rangeChecks.2 hp]

/-- A withdrawal whose amount is `2 ^ 64`, one past its range, with a collaborator that may
itself fail. -/
theorem getMessage_range_validation_amount :
    let p := withdrawal (.bn 1) (.bn 1) (.bn 0) (.bn 0) (.bn 18446744073709551616)
    (¬ p.FieldsInRange → ∃ c ∈ p.rangeChecks, ¬ c.Holds ∧
        ∀ hash : Value → Value → Except String ℤ,
          (p.getMessage hash).run = pure (.error c.violation)) ∧
      (p.FieldsInRange → ∀ hash : Value → Value → Except String ℤ,
        (p.getMessage hash).run =
          Except.ok <$> hashChainM hash p.hashArgs.1 p.hashArgs.2.1 p.hashArgs.2.2) :=
  getMessage_range_validation _

/-- The error is that of the first failing check in the order of the source, whatever the
collaborator. -/
theorem getMessage_first_violation (p : PerpetualMessage) (c : RangeCheck)
    (hc : p.rangeChecks.find? (fun c => !decide c.Holds) = some c)
    (hash : Value → Value → m ℤ) : (p.getMessage hash).run = pure (.error c.violation) := by
  rw [getMessage_run, assertAllInRange_eq, hc]

/-- A withdrawal whose position id and nonce are both out of range fails on the nonce, checked
first, even with a collaborator that always fails. -/
theorem getMessage_first_violation_nonce :
    ((withdrawal (.bn 0) (.bn 18446744073709551616) (.bn 4294967296) (.bn 0) (.bn 0)).getMessage
      (fun _ _ => (.error "unreachable" : Except String ℤ))).run =
      .ok (.error (.rangeViolation "nonce" 4294967296 0 4294967296)) :=
  getMessage_first_violation
    (withdrawal (.bn 0) (.bn 18446744073709551616) (.bn 4294967296) (.bn 0) (.bn 0))
    ⟨4294967296, 0, 4294967296, "nonce"⟩ rfl _

end StarkPerpetual
