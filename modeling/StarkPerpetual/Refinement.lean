import StarkPerpetual.Validation
import StarkPerpetual.Operation
import Mathlib.Data.Nat.Pairing

/-!
# The encoders compute the canonical hash

The encoders are the faithful model; `Operation.hash` says what they are for. This module connects
the two. Run with `pairHash H`, a collaborator that reads its arguments as the default one does and
hashes them with a two-to-one `H`, every call whose fields are in range returns the canonical hash
of the operation it describes (`getMessage_refines`), provided the collaborator reads each element
as the value the call range-checked (`ReadsAsParsed`: only the withdrawal's asset id, handed over
as the caller passed it, can fail this).

1. the driver computes the hash chain of what the collaborator reads (`hashChainM_pairHash`);
2. what it reads of the call's elements is the operation's message (`hashArgs_toBn16`,
   `read_hashArgs`);
3. so for `H` injective on pairs two accepted calls have one result exactly when they describe one
   operation (`run_eq_iff`, from `Operation.hash_injOn`).
-/

namespace StarkPerpetual

/-! ## A collaborator that hashes field elements -/

/-- The collaborator `([a, b]) => H(a, b)` for a two-to-one `H` on field elements. It reads each
argument as the default collaborator does, a `BN` by value and a string in base 16. -/
def pairHash (H : ℕ → ℕ → ℕ) (a b : Value) : Id ℤ := (H a.toBn16.toNat b.toBn16.toNat : ℤ)

theorem foldlM_pairHash (H : ℕ → ℕ → ℕ) (rest : List Value) (n : ℕ) :
    rest.foldlM (fun msg a => pairHash H (.bn msg) a) (n : ℤ) =
      (((rest.map fun a => a.toBn16.toNat).foldl H n : ℕ) : ℤ) := by
  induction rest generalizing n with
  | nil => rfl
  | cons a rest ih => exact ih _

/-- With `pairHash H` the driver computes the hash chain of what the collaborator reads. -/
theorem hashChainM_pairHash (H : ℕ → ℕ → ℕ) (a₁ a₂ : Value) (rest : List Value) :
    hashChainM (pairHash H) a₁ a₂ rest =
      ((hashChain H ((a₁ :: a₂ :: rest).map fun a => a.toBn16.toNat) : ℕ) : ℤ) :=
  foldlM_pairHash H rest _

/-- The Cantor pairing is injective on pairs: a two-to-one hash to run the encoders with. -/
theorem injectivePairs_pair : InjectivePairs Nat.pair := fun a b c d h => by
  simpa using congrArg Nat.unpair h

namespace PerpetualMessage

/-! ## The operation a call describes -/

/-- The operation the call describes: its parsed fields, a limit order's sides after the
remap. -/
def operation : PerpetualMessage → Operation
  | withdrawal a p n e am =>
    .withdrawal a.toBn.toNat p.toBn.toNat n.toBn.toNat am.toBn.toNat e.toBn.toNat
  | transfer a f k s r src n am fee e =>
    .transfer a.toBn.toNat f.toBn.toNat k.toBn.toNat s.toBn.toNat r.toBn.toNat src.toBn.toNat
      n.toBn.toNat am.toBn.toNat fee.toBn.toNat e.toBn.toNat
  | conditionalTransfer a f k c s r src n am fee e =>
    .conditionalTransfer a.toBn.toNat f.toBn.toNat k.toBn.toNat c.toBn.toNat s.toBn.toNat
      r.toBn.toNat src.toBn.toNat n.toBn.toNat am.toBn.toNat fee.toBn.toNat e.toBn.toNat
  | limitOrder syn col b f asyn acol fee n pos e =>
    let sides := limitOrderSides b syn col asyn acol
    .limitOrder sides.assetIdSell.toNat sides.assetIdBuy.toNat f.toBn.toNat
      sides.amountSell.toNat sides.amountBuy.toNat fee.toBn.toNat n.toBn.toNat pos.toBn.toNat
      e.toBn.toNat

theorem toNat_lt_two_pow {x : ℤ} {w : ℕ} (h : 0 ≤ x ∧ x < 2 ^ w) : x.toNat < 2 ^ w := by
  zify [h.1]
  simpa [Int.toNat_of_nonneg h.1] using h.2

/-- A call whose fields are in range describes a valid operation. -/
theorem operation_valid {p : PerpetualMessage} (h : p.FieldsInRange) : p.operation.Valid := by
  cases p with
  | limitOrder syn col b =>
    simp only [fieldsInRange_limitOrder] at h
    cases b <;> simp only [operation, limitOrderSides, Operation.Valid, Operation.fields, Fits,
      List.forall_mem_cons, List.mem_nil_iff, false_implies, implies_true, and_true, true_and,
      ite_true, ite_false, Bool.false_eq_true, toNat_lt_two_pow, h] <;>
    -- the synthetic asset id, checked below `2 ^ 128`, fills a side of `250` bits
    exact toNat_lt_two_pow ⟨h.1.1, h.1.2.trans (by norm_num)⟩
  | _ =>
    simp only [fieldsInRange_withdrawal, fieldsInRange_transfer,
      fieldsInRange_conditionalTransfer] at h
    simp only [operation, Operation.Valid, Operation.fields, Fits, List.forall_mem_cons,
      List.mem_nil_iff, false_implies, implies_true, and_true, toNat_lt_two_pow, h]

/-- The collaborator reads each element it is handed as the value the call range-checked: true of
the parsed elements, and of the withdrawal's asset id, handed over as the caller passed it, exactly
when its base-16 reading is its decimal one. -/
def ReadsAsParsed : PerpetualMessage → Prop
  | withdrawal a .. => a.toBn16 = a.toBn
  | _ => True

/-- What the collaborator reads of the call's elements, as integers, is the message of its
operation. -/
theorem hashArgs_toBn16 {p : PerpetualMessage} (h : p.FieldsInRange) (hr : p.ReadsAsParsed) :
    (p.hashArgs.1 :: p.hashArgs.2.1 :: p.hashArgs.2.2).map Value.toBn16 =
      p.operation.message.map Nat.cast := by
  cases p with
  | withdrawal a =>
    simp only [fieldsInRange_withdrawal] at h
    simp only [ReadsAsParsed] at hr
    simp only [hashArgs, operation, Operation.message, Operation.firstElements,
      Operation.lastWord, withdrawalPackedMsg, Withdrawal, List.map_cons, List.map_nil,
      Value.toBn16_bn, List.cons_append, List.nil_append, packFields_cons, packFields_nil,
      ushln_eq, hr]
    push_cast
    simp only [Int.toNat_of_nonneg, h]
  | limitOrder syn col b =>
    simp only [fieldsInRange_limitOrder] at h
    cases b <;> simp only [hashArgs, operation, limitOrderSides, Operation.message,
      Operation.firstElements, Operation.lastWord, limitOrderPackedMsg0, limitOrderPackedMsg1,
      LimitOrderWithFees, List.map_cons, List.map_nil, Value.toBn16_bn, List.cons_append,
      List.nil_append, packFields_cons, packFields_nil, ushln_eq, ite_true, ite_false,
      Bool.false_eq_true] <;> push_cast <;> simp only [Int.toNat_of_nonneg, h]
  | _ =>
    simp only [fieldsInRange_transfer, fieldsInRange_conditionalTransfer] at h
    simp only [hashArgs, operation, Operation.message, Operation.firstElements,
      Operation.lastWord, transferPackedMsg0, transferPackedMsg1, Transfer, ConditionalTransfer,
      List.map_cons, List.map_nil, Value.toBn16_bn, List.cons_append, List.nil_append,
      packFields_cons, packFields_nil, ushln_eq]
    push_cast
    simp only [Int.toNat_of_nonneg, h]

/-- What `pairHash H` reads of the call's elements is the message of its operation. -/
theorem read_hashArgs {p : PerpetualMessage} (h : p.FieldsInRange) (hr : p.ReadsAsParsed) :
    (p.hashArgs.1 :: p.hashArgs.2.1 :: p.hashArgs.2.2).map (fun a => a.toBn16.toNat) =
      p.operation.message := by
  simpa [Function.comp_def] using congrArg (List.map Int.toNat) (hashArgs_toBn16 h hr)

/-! ## Refinement -/

/-- The encoders compute the canonical hash. Run with `pairHash H`, a call whose fields are in
range and whose elements the collaborator reads as their parsed values returns the canonical hash
of the operation it describes. -/
theorem getMessage_refines (H : ℕ → ℕ → ℕ) (p : PerpetualMessage) (h : p.FieldsInRange)
    (hr : p.ReadsAsParsed) : (p.getMessage (pairHash H)).run = .ok (p.operation.hash H : ℤ) := by
  rw [getMessage_run, p.assertAllInRange_rangeChecks.2 h]
  show Except.ok (hashChainM (pairHash H) _ _ _) = _
  rw [hashChainM_pairHash, read_hashArgs h hr, Operation.hash]

/-- A call that returns `.ok x` passed its range checks, and `x` is the canonical hash of its
operation. -/
theorem eq_hash_of_run_eq_ok {H : ℕ → ℕ → ℕ} (p : PerpetualMessage) {x : ℤ}
    (hr : p.ReadsAsParsed) (hx : (p.getMessage (pairHash H)).run = .ok x) :
    p.FieldsInRange ∧ x = p.operation.hash H := by
  by_cases h : p.FieldsInRange
  · rw [getMessage_refines H p h hr, Except.ok.injEq] at hx
    exact ⟨h, hx.symm⟩
  · rw [getMessage_run] at hx
    cases hc : assertAllInRange p.rangeChecks with
    | ok _ => exact absurd (p.assertAllInRange_rangeChecks.1 hc) h
    | error e => rw [hc] at hx; cases hx

/-- Two accepted calls have one result exactly when they describe one operation. -/
theorem run_eq_iff {H : ℕ → ℕ → ℕ} (hH : InjectivePairs H) (p p' : PerpetualMessage)
    {x x' : ℤ} (hr : p.ReadsAsParsed) (hr' : p'.ReadsAsParsed)
    (hx : (p.getMessage (pairHash H)).run = .ok x)
    (hx' : (p'.getMessage (pairHash H)).run = .ok x') : x = x' ↔ p.operation = p'.operation := by
  obtain ⟨h, rfl⟩ := eq_hash_of_run_eq_ok p hr hx
  obtain ⟨h', rfl⟩ := eq_hash_of_run_eq_ok p' hr' hx'
  exact Nat.cast_inj.trans
    ⟨Operation.hash_injOn hH (operation_valid h) (operation_valid h'), congrArg _⟩

/-- For `H` injective on pairs, two accepted calls with one result describe one operation, of one
kind. -/
theorem getMessage_binding {H : ℕ → ℕ → ℕ} (hH : InjectivePairs H) {p p' : PerpetualMessage}
    {x : ℤ} (hr : p.ReadsAsParsed) (hr' : p'.ReadsAsParsed)
    (hx : (p.getMessage (pairHash H)).run = .ok x)
    (hx' : (p'.getMessage (pairHash H)).run = .ok x) : p.operation = p'.operation :=
  (run_eq_iff hH p p' hr hr' hx hx').1 rfl

/-- A withdrawal with `BN` fields and one with decimal-string fields, asset id `1`. -/
theorem getMessage_binding_bn_str :
    (withdrawal (.bn 1) (.bn 0) (.bn 0) (.bn 0) (.bn 0)).operation =
      (withdrawal (.str ⟨false, [1]⟩) (.str ⟨false, [0]⟩) (.str ⟨false, [0]⟩)
        (.str ⟨false, [0]⟩) (.str ⟨false, [0]⟩)).operation :=
  getMessage_binding injectivePairs_pair rfl rfl
    (getMessage_refines Nat.pair _ ((assertAllInRange_rangeChecks _).1 rfl) rfl)
    (getMessage_refines Nat.pair _ ((assertAllInRange_rangeChecks _).1 rfl) rfl)

end PerpetualMessage

end StarkPerpetual
