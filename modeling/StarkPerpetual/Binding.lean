import StarkPerpetual.Refinement

/-!
# Each encoder binds the fields it signs

For `H` injective on pairs, the transfer, conditional transfer and limit order encoders are
injective on accepted inputs: two accepted calls of one of them give one result exactly when they
agree on every signed field, a limit order's sides taken after the direction remap. Each is
`run_eq_iff` read through `PerpetualMessage.operation`. A sale of one synthetic asset and the
matching purchase of the other have one side, so both accepted they return one result, whatever
the collaborator (`getPerpetualLimitOrderMessage_mirror`).

The withdrawal is not: it hands the collaborator its asset id as the caller passed it, and the
default collaborator reads a string in base 16. So the `BN` `16` and the decimal string `"10"`,
range-checked as `16` and `10`, collide for every `H` (`getPerpetualWithdrawalMessage_collision`),
and the hash is taken of an asset id other than the checked one, possibly past the field prime
(`getPerpetualWithdrawalMessage_hashes_raw_assetId`).
-/

namespace StarkPerpetual

open PerpetualMessage

theorem toNat_eq_toNat_iff {a b : ℤ} (ha : 0 ≤ a) (hb : 0 ≤ b) : a.toNat = b.toNat ↔ a = b := by
  omega

variable {H : ℕ → ℕ → ℕ}

/-! ## Transfers -/

/-- `getPerpetualTransferMessage` is injective on accepted inputs. -/
theorem getPerpetualTransferMessage_eq_iff (hH : InjectivePairs H)
    {a f k s r src n am fee e a' f' k' s' r' src' n' am' fee' e' : Value} {x x' : ℤ}
    (hx : (getPerpetualTransferMessage a f k s r src n am fee e (pairHash H)).run = .ok x)
    (hx' : (getPerpetualTransferMessage a' f' k' s' r' src' n' am' fee' e' (pairHash H)).run =
      .ok x') :
    x = x' ↔ a.toBn = a'.toBn ∧ f.toBn = f'.toBn ∧ k.toBn = k'.toBn ∧ s.toBn = s'.toBn ∧
      r.toBn = r'.toBn ∧ src.toBn = src'.toBn ∧ n.toBn = n'.toBn ∧ am.toBn = am'.toBn ∧
      fee.toBn = fee'.toBn ∧ e.toBn = e'.toBn := by
  have h := (eq_hash_of_run_eq_ok (transfer a f k s r src n am fee e) trivial hx).1
  have h' := (eq_hash_of_run_eq_ok (transfer a' f' k' s' r' src' n' am' fee' e') trivial hx').1
  simp only [fieldsInRange_transfer] at h h'
  rw [run_eq_iff hH (transfer ..) (transfer ..) trivial trivial hx hx']
  simp only [operation, Operation.transfer.injEq, toNat_eq_toNat_iff, h, h']

/-- A zero transfer with `BN` fields and one with decimal-string fields. -/
theorem getPerpetualTransferMessage_eq_iff_zero :
    let zb := Value.bn 0
    let zs := Value.str ⟨false, [0]⟩
    let x := ((transfer zb zb zb zb zb zb zb zb zb zb).operation.hash Nat.pair : ℤ)
    let x' := ((transfer zs zs zs zs zs zs zs zs zs zs).operation.hash Nat.pair : ℤ)
    x = x' ↔ zb.toBn = zs.toBn ∧ zb.toBn = zs.toBn ∧ zb.toBn = zs.toBn ∧ zb.toBn = zs.toBn ∧
      zb.toBn = zs.toBn ∧ zb.toBn = zs.toBn ∧ zb.toBn = zs.toBn ∧ zb.toBn = zs.toBn ∧
      zb.toBn = zs.toBn ∧ zb.toBn = zs.toBn := by
  intro zb zs x x'
  exact getPerpetualTransferMessage_eq_iff injectivePairs_pair
    (getMessage_refines Nat.pair (transfer zb zb zb zb zb zb zb zb zb zb)
      ((assertAllInRange_rangeChecks _).1 rfl) trivial)
    (getMessage_refines Nat.pair (transfer zs zs zs zs zs zs zs zs zs zs)
      ((assertAllInRange_rangeChecks _).1 rfl) trivial)

/-- `getPerpetualConditionalTransferMessage` is injective on accepted inputs, the condition
included. -/
theorem getPerpetualConditionalTransferMessage_eq_iff (hH : InjectivePairs H)
    {a f k c s r src n am fee e a' f' k' c' s' r' src' n' am' fee' e' : Value} {x x' : ℤ}
    (hx : (getPerpetualConditionalTransferMessage a f k c s r src n am fee e (pairHash H)).run =
      .ok x)
    (hx' : (getPerpetualConditionalTransferMessage a' f' k' c' s' r' src' n' am' fee' e'
      (pairHash H)).run = .ok x') :
    x = x' ↔ a.toBn = a'.toBn ∧ f.toBn = f'.toBn ∧ k.toBn = k'.toBn ∧ c.toBn = c'.toBn ∧
      s.toBn = s'.toBn ∧ r.toBn = r'.toBn ∧ src.toBn = src'.toBn ∧ n.toBn = n'.toBn ∧
      am.toBn = am'.toBn ∧ fee.toBn = fee'.toBn ∧ e.toBn = e'.toBn := by
  have h := (eq_hash_of_run_eq_ok (conditionalTransfer a f k c s r src n am fee e) trivial hx).1
  have h' :=
    (eq_hash_of_run_eq_ok (conditionalTransfer a' f' k' c' s' r' src' n' am' fee' e') trivial hx').1
  simp only [fieldsInRange_conditionalTransfer] at h h'
  rw [run_eq_iff hH (conditionalTransfer ..) (conditionalTransfer ..) trivial trivial hx hx']
  simp only [operation, Operation.conditionalTransfer.injEq, toNat_eq_toNat_iff, h, h']

/-- Two zero conditional transfers, with `BN` and with decimal-string fields. -/
theorem getPerpetualConditionalTransferMessage_eq_iff_zero :
    let zb := Value.bn 0
    let zs := Value.str ⟨false, [0]⟩
    let x := ((conditionalTransfer zb zb zb zb zb zb zb zb zb zb zb).operation.hash Nat.pair : ℤ)
    let x' := ((conditionalTransfer zs zs zs zs zs zs zs zs zs zs zs).operation.hash Nat.pair : ℤ)
    x = x' ↔ zb.toBn = zs.toBn ∧ zb.toBn = zs.toBn ∧ zb.toBn = zs.toBn ∧ zb.toBn = zs.toBn ∧
      zb.toBn = zs.toBn ∧ zb.toBn = zs.toBn ∧ zb.toBn = zs.toBn ∧ zb.toBn = zs.toBn ∧
      zb.toBn = zs.toBn ∧ zb.toBn = zs.toBn ∧ zb.toBn = zs.toBn := by
  intro zb zs x x'
  exact getPerpetualConditionalTransferMessage_eq_iff injectivePairs_pair
    (getMessage_refines Nat.pair (conditionalTransfer zb zb zb zb zb zb zb zb zb zb zb)
      ((assertAllInRange_rangeChecks _).1 rfl) trivial)
    (getMessage_refines Nat.pair (conditionalTransfer zs zs zs zs zs zs zs zs zs zs zs)
      ((assertAllInRange_rangeChecks _).1 rfl) trivial)

/-! ## Limit orders -/

theorem limitOrderSides_nonneg {syn col f asyn acol fee n pos e : Value} {b : Bool}
    (h : (limitOrder syn col b f asyn acol fee n pos e).FieldsInRange) :
    let sides := limitOrderSides b syn col asyn acol
    0 ≤ sides.assetIdSell ∧ 0 ≤ sides.assetIdBuy ∧ 0 ≤ sides.amountSell ∧ 0 ≤ sides.amountBuy := by
  simp only [fieldsInRange_limitOrder] at h
  cases b <;> simp only [limitOrderSides, h, ite_true, ite_false, Bool.false_eq_true, and_self]

/-- `getPerpetualLimitOrderMessage` is injective on accepted inputs up to the direction remap:
two of them give one result exactly when they agree on the sides after the remap and on every
other signed field. -/
theorem getPerpetualLimitOrderMessage_eq_iff (hH : InjectivePairs H)
    {syn col f asyn acol fee n pos e syn' col' f' asyn' acol' fee' n' pos' e' : Value}
    {b b' : Bool} {x x' : ℤ}
    (hx : (getPerpetualLimitOrderMessage syn col b f asyn acol fee n pos e (pairHash H)).run =
      .ok x)
    (hx' : (getPerpetualLimitOrderMessage syn' col' b' f' asyn' acol' fee' n' pos' e'
      (pairHash H)).run = .ok x') :
    x = x' ↔ limitOrderSides b syn col asyn acol = limitOrderSides b' syn' col' asyn' acol' ∧
      f.toBn = f'.toBn ∧ fee.toBn = fee'.toBn ∧ n.toBn = n'.toBn ∧ pos.toBn = pos'.toBn ∧
      e.toBn = e'.toBn := by
  have h := (eq_hash_of_run_eq_ok (limitOrder syn col b f asyn acol fee n pos e) trivial hx).1
  have h' :=
    (eq_hash_of_run_eq_ok (limitOrder syn' col' b' f' asyn' acol' fee' n' pos' e') trivial hx').1
  have hs := limitOrderSides_nonneg h
  have hs' := limitOrderSides_nonneg h'
  simp only [fieldsInRange_limitOrder] at h h'
  rw [run_eq_iff hH (limitOrder ..) (limitOrder ..) trivial trivial hx hx']
  simp only [operation, Operation.limitOrder.injEq]
  generalize limitOrderSides b syn col asyn acol = sd at hs ⊢
  generalize limitOrderSides b' syn' col' asyn' acol' = sd' at hs' ⊢
  obtain ⟨sell, buy, asell, abuy⟩ := sd
  obtain ⟨sell', buy', asell', abuy'⟩ := sd'
  simp only [toNat_eq_toNat_iff, h, h', hs, hs', LimitOrderSides.mk.injEq, and_assoc]
  -- the operation lists the fee's asset id between the sides' asset ids and amounts
  exact and_congr_right' (and_congr_right' (and_left_comm.trans (and_congr_right' and_left_comm)))

/-- A sale of the synthetic asset `syn` for `col` and the purchase of the synthetic asset `col`
with `syn`, the amounts swapped to match: once both pass their range checks, they hand any
collaborator the same elements and return one result. -/
theorem getPerpetualLimitOrderMessage_mirror {m : Type → Type} [Monad m] [LawfulMonad m]
    (hash : Value → Value → m ℤ) {syn col f asyn acol fee n pos e : Value}
    (h : (limitOrder syn col false f asyn acol fee n pos e).FieldsInRange)
    (h' : (limitOrder col syn true f acol asyn fee n pos e).FieldsInRange) :
    (getPerpetualLimitOrderMessage syn col false f asyn acol fee n pos e hash).run =
      (getPerpetualLimitOrderMessage col syn true f acol asyn fee n pos e hash).run := by
  show ((limitOrder syn col false f asyn acol fee n pos e).getMessage hash).run =
    ((limitOrder col syn true f acol asyn fee n pos e).getMessage hash).run
  rw [getMessage_run, getMessage_run, (assertAllInRange_rangeChecks _).2 h,
    (assertAllInRange_rangeChecks _).2 h']
  rfl

/-- Selling 3 of asset 1 for 4 of asset 2, once as a sale of the synthetic asset 1 and once as a
purchase of the synthetic asset 2: the sides agree after the remap, so the two calls return one
hash. -/
theorem getPerpetualLimitOrderMessage_eq_iff_sides :
    (getPerpetualLimitOrderMessage (.bn 1) (.bn 2) false (.bn 0) (.bn 3) (.bn 4) (.bn 0) (.bn 0)
        (.bn 0) (.bn 0) (pairHash Nat.pair)).run =
      (getPerpetualLimitOrderMessage (.bn 2) (.bn 1) true (.bn 0) (.bn 4) (.bn 3) (.bn 0) (.bn 0)
        (.bn 0) (.bn 0) (pairHash Nat.pair)).run := by
  have hx := getMessage_refines Nat.pair
    (limitOrder (.bn 1) (.bn 2) false (.bn 0) (.bn 3) (.bn 4) (.bn 0) (.bn 0) (.bn 0) (.bn 0))
    ((assertAllInRange_rangeChecks _).1 rfl) trivial
  have hx' := getMessage_refines Nat.pair
    (limitOrder (.bn 2) (.bn 1) true (.bn 0) (.bn 4) (.bn 3) (.bn 0) (.bn 0) (.bn 0) (.bn 0))
    ((assertAllInRange_rangeChecks _).1 rfl) trivial
  exact hx.trans <| (congrArg Except.ok <| (getPerpetualLimitOrderMessage_eq_iff injectivePairs_pair
    hx hx').2 ⟨rfl, rfl, rfl, rfl, rfl, rfl⟩).trans hx'.symm

/-! ## The withdrawal's asset id -/

/-- The withdrawal collides for every `H`: the `BN` `16` and the decimal string `"10"` both pass
the asset id's range check, as `16` and as `10`, and the collaborator reads both as `16`. -/
theorem getPerpetualWithdrawalMessage_collision (H : ℕ → ℕ → ℕ) :
    assertAllInRange (withdrawal (.bn 16) (.bn 0) (.bn 0) (.bn 0) (.bn 0)).rangeChecks = .ok () ∧
      assertAllInRange
        (withdrawal (.str ⟨false, [1, 0]⟩) (.bn 0) (.bn 0) (.bn 0) (.bn 0)).rangeChecks = .ok () ∧
      (Value.bn 16).toBn ≠ (Value.str ⟨false, [1, 0]⟩).toBn ∧
      (getPerpetualWithdrawalMessage (.bn 16) (.bn 0) (.bn 0) (.bn 0) (.bn 0) (pairHash H)).run =
        (getPerpetualWithdrawalMessage (.str ⟨false, [1, 0]⟩) (.bn 0) (.bn 0) (.bn 0) (.bn 0)
          (pairHash H)).run :=
  ⟨rfl, rfl, by decide, rfl⟩

/-- The withdrawal hashes an asset id other than the one it range-checked. The decimal string
`"10"` passes as `10`, and the call returns `H 16 w` where the canonical hash of its operation is
`H 10 w`. The decimal string `10 ^ 63` passes, below `2 ^ 250`, and is read as
`16 ^ 63 = 2 ^ 252`, past the field prime. -/
theorem getPerpetualWithdrawalMessage_hashes_raw_assetId (H : ℕ → ℕ → ℕ) :
    assertAllInRange
        (withdrawal (.str ⟨false, [1, 0]⟩) (.bn 0) (.bn 0) (.bn 0) (.bn 0)).rangeChecks = .ok () ∧
      (Value.str ⟨false, [1, 0]⟩).toBn = 10 ∧
      (getPerpetualWithdrawalMessage (.str ⟨false, [1, 0]⟩) (.bn 0) (.bn 0) (.bn 0) (.bn 0)
        (pairHash H)).run = .ok (H 16 (6 * 2 ^ 241) : ℤ) ∧
      (withdrawal (.str ⟨false, [1, 0]⟩) (.bn 0) (.bn 0) (.bn 0) (.bn 0)).operation.hash H =
        H 10 (6 * 2 ^ 241) ∧
      assertAllInRange (withdrawal (.str ⟨false, 1 :: List.replicate 63 0⟩) (.bn 0) (.bn 0) (.bn 0)
        (.bn 0)).rangeChecks = .ok () ∧
      (Value.str ⟨false, 1 :: List.replicate 63 0⟩).toBn = ((10 ^ 63 : ℕ) : ℤ) ∧
      (Value.str ⟨false, 1 :: List.replicate 63 0⟩).toBn16 = ((2 ^ 252 : ℕ) : ℤ) ∧
      fieldPrime < ((2 ^ 252 : ℕ) : ℤ) :=
  ⟨rfl, rfl, rfl, rfl, rfl, by decide, by decide, by decide⟩

end StarkPerpetual
