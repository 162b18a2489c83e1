import StarkPerpetual.RangeCheck
import StarkPerpetual.Pack

/-!
# The four message encoders

`getPerpetualWithdrawalMessage`, `getPerpetualTransferMessage`,
`getPerpetualConditionalTransferMessage` and `getPerpetualLimitOrderMessage` of
`perpetual_messages.js`. Each parses its fields with `new BN(x, 10)`, range-checks them with a
block of `assertInRange` calls, packs them into words and folds everything with the hash
collaborator `hash`, the encoder's last argument.

The collaborator is any function of two values into a monad `m`: it may fail, record its calls or
keep any state. An encoder runs in `ExceptT EncodeError m`. Its checks are pure, so a failing block
makes the run `pure (.error e)` in `m`, with no call of `hash`; after a passing block the run is the
collaborator's hash chain with `.ok` around its result (`run_checks_bind_lift`).
-/

namespace StarkPerpetual

variable {m : Type → Type} [Monad m]

/-! ## The hash chain driver -/

/-- The hash chain of an encoder (§4.4): `msg = hash([a₁, a₂])`, then `msg = hash([msg, a])` for
each further element `a`, in order. -/
def hashChainM (hash : Value → Value → m ℤ) (a₁ a₂ : Value) (rest : List Value) : m ℤ := do
  let msg ← hash a₁ a₂
  rest.foldlM (fun msg a => hash (.bn msg) a) msg

/-! ## Packed words -/

/-- `packedMsg` of `getPerpetualWithdrawalMessage`. -/
def withdrawalPackedMsg (positionIdBn nonceBn amountBn expirationTimestampBn : ℤ) : ℤ :=
  ushln (packFields Withdrawal
    [(positionIdBn, 64), (nonceBn, 32), (amountBn, 64), (expirationTimestampBn, 32)]) 49

/-- `packedMsg0` of the two transfer encoders; `new BN(senderPositionIdBn, 10)` returns
`senderPositionIdBn` itself. -/
def transferPackedMsg0 (senderPositionIdBn receiverPositionIdBn srcFeePositionIdBn nonceBn : ℤ) :
    ℤ :=
  packFields senderPositionIdBn
    [(receiverPositionIdBn, 64), (srcFeePositionIdBn, 64), (nonceBn, 32)]

/-- `packedMsg1` of the two transfer encoders, from their discriminant (`Transfer` or
`ConditionalTransfer`), with 81 bits of padding. -/
def transferPackedMsg1 (discriminant amountBn maxAmountFeeBn expirationTimestampBn : ℤ) : ℤ :=
  ushln (packFields discriminant
    [(amountBn, 64), (maxAmountFeeBn, 64), (expirationTimestampBn, 32)]) 81

/-- `packedMsg0` of `getPerpetualLimitOrderMessage`. -/
def limitOrderPackedMsg0 (amountSell amountBuy maxAmountFeeBn nonceBn : ℤ) : ℤ :=
  packFields amountSell [(amountBuy, 64), (maxAmountFeeBn, 64), (nonceBn, 32)]

/-- `packedMsg1` of `getPerpetualLimitOrderMessage`: the position id goes in three times. -/
def limitOrderPackedMsg1 (positionIdBn expirationTimestampBn : ℤ) : ℤ :=
  ushln (packFields LimitOrderWithFees
    [(positionIdBn, 64), (positionIdBn, 64), (positionIdBn, 64), (expirationTimestampBn, 32)]) 17

/-! ## Range-check blocks -/

/-- The `assertInRange` calls of `getPerpetualWithdrawalMessage`, in order. -/
def withdrawalRangeChecks (assetIdCollateralBn positionIdBn nonceBn amountBn
    expirationTimestampBn : ℤ) : List RangeCheck := [
    ⟨assetIdCollateralBn, zeroBn, Bn250, "assetIdCollateral"⟩,
    ⟨nonceBn, zeroBn, Bn32, "nonce"⟩,
    ⟨positionIdBn, zeroBn, Bn64, "positionId"⟩,
    ⟨expirationTimestampBn, zeroBn, Bn32, "expirationTimestamp"⟩,
    ⟨amountBn, zeroBn, Bn64, "amount"⟩]

/-- The `assertInRange` calls `perpetualTransfersRangeChecks` makes, in order; the plain transfer
passes `conditionBn = new BN(0, 10)`, the default. -/
def perpetualTransfersRangeChecks (assetIdBn assetIdFeeBn receiverPublicKeyBn senderPositionIdBn
    receiverPositionIdBn srcFeePositionIdBn nonceBn amountBn maxAmountFeeBn expirationTimestampBn
    conditionBn : ℤ) : List RangeCheck := [
    ⟨assetIdBn, zeroBn, Bn250, "assetId"⟩,
    ⟨assetIdFeeBn, zeroBn, Bn250, "assetIdFee"⟩,
    ⟨receiverPublicKeyBn, zeroBn, Bn251, "receiverPublicKey"⟩,
    ⟨senderPositionIdBn, zeroBn, Bn64, "senderPositionId"⟩,
    ⟨receiverPositionIdBn, zeroBn, Bn64, "receiverPositionId"⟩,
    ⟨srcFeePositionIdBn, zeroBn, Bn64, "srcFeePositionId"⟩,
    ⟨nonceBn, zeroBn, Bn32, "nonce"⟩,
    ⟨amountBn, zeroBn, Bn64, "amount"⟩,
    ⟨maxAmountFeeBn, zeroBn, Bn64, "maxAmountFee"⟩,
    ⟨expirationTimestampBn, zeroBn, Bn32, "expirationTimestamp"⟩,
    ⟨conditionBn, zeroBn, Bn251, "condition"⟩]

/-- The sides of a limit order after the direction remap. -/
structure LimitOrderSides where
  assetIdSell : ℤ
  assetIdBuy : ℤ
  amountSell : ℤ
  amountBuy : ℤ
  deriving DecidableEq, Repr

/-- The direction remap of `getPerpetualLimitOrderMessage`: a buyer of the synthetic asset sells
collateral. Each side is parsed afresh with `new BN(x, 10)`. -/
def limitOrderSides (isBuyingSynthetic : Bool)
    (assetIdSynthetic assetIdCollateral amountSynthetic amountCollateral : Value) :
    LimitOrderSides :=
  if isBuyingSynthetic then
    ⟨assetIdCollateral.toBn, assetIdSynthetic.toBn, amountCollateral.toBn, amountSynthetic.toBn⟩
  else
    ⟨assetIdSynthetic.toBn, assetIdCollateral.toBn, amountSynthetic.toBn, amountCollateral.toBn⟩

/-- The `assertInRange` calls of `getPerpetualLimitOrderMessage`, in order: the amounts are checked
after the remap, the asset ids before it. -/
def limitOrderRangeChecks (assetIdSyntheticBn assetIdCollateralBn assetIdFeeBn amountSell amountBuy
    maxAmountFeeBn nonceBn positionIdBn expirationTimestampBn : ℤ) : List RangeCheck := [
    ⟨assetIdSyntheticBn, zeroBn, Bn128, "assetIdSynthetic"⟩,
    ⟨assetIdCollateralBn, zeroBn, Bn250, "assetIdCollateral"⟩,
    ⟨assetIdFeeBn, zeroBn, Bn250, "assetIdFee"⟩,
    ⟨amountSell, zeroBn, Bn64, "amountSell"⟩,
    ⟨amountBuy, zeroBn, Bn64, "amountBuy"⟩,
    ⟨maxAmountFeeBn, zeroBn, Bn64, "maxAmountFee"⟩,
    ⟨nonceBn, zeroBn, Bn32, "nonce"⟩,
    ⟨positionIdBn, zeroBn, Bn64, "positionId"⟩,
    ⟨expirationTimestampBn, zeroBn, Bn32, "expirationTimestamp"⟩]

/-! ## The encoders -/

/-- `getPerpetualWithdrawalMessage`. The hash gets `assetIdCollateral` as the caller passed it,
not the parsed `assetIdCollateralBn` that was range-checked. -/
def getPerpetualWithdrawalMessage
    (assetIdCollateral positionId nonce expirationTimestamp amount : Value)
    (hash : Value → Value → m ℤ) : ExceptT EncodeError m ℤ := do
  let assetIdCollateralBn := assetIdCollateral.toBn
  let positionIdBn := positionId.toBn
  let nonceBn := nonce.toBn
  let amountBn := amount.toBn
  let expirationTimestampBn := expirationTimestamp.toBn
  assertAllInRange <|
    withdrawalRangeChecks assetIdCollateralBn positionIdBn nonceBn amountBn expirationTimestampBn
  let packedMsg := withdrawalPackedMsg positionIdBn nonceBn amountBn expirationTimestampBn
  ExceptT.lift <| hashChainM hash assetIdCollateral (.bn packedMsg) []

/-- `getPerpetualTransferMessage`. -/
def getPerpetualTransferMessage (assetId assetIdFee receiverPublicKey senderPositionId
    receiverPositionId srcFeePositionId nonce amount maxAmountFee expirationTimestamp : Value)
    (hash : Value → Value → m ℤ) : ExceptT EncodeError m ℤ := do
  let assetIdBn := assetId.toBn
  let assetIdFeeBn := assetIdFee.toBn
  let receiverPublicKeyBn := receiverPublicKey.toBn
  let senderPositionIdBn := senderPositionId.toBn
  let receiverPositionIdBn := receiverPositionId.toBn
  let srcFeePositionIdBn := srcFeePositionId.toBn
  let nonceBn := nonce.toBn
  let amountBn := amount.toBn
  let maxAmountFeeBn := maxAmountFee.toBn
  let expirationTimestampBn := expirationTimestamp.toBn
  assertAllInRange <| perpetualTransfersRangeChecks assetIdBn assetIdFeeBn receiverPublicKeyBn
    senderPositionIdBn receiverPositionIdBn srcFeePositionIdBn nonceBn amountBn maxAmountFeeBn
    expirationTimestampBn 0
  let packedMsg0 :=
    transferPackedMsg0 senderPositionIdBn receiverPositionIdBn srcFeePositionIdBn nonceBn
  let packedMsg1 := transferPackedMsg1 Transfer amountBn maxAmountFeeBn expirationTimestampBn
  ExceptT.lift <| hashChainM hash (.bn assetIdBn) (.bn assetIdFeeBn)
    [.bn receiverPublicKeyBn, .bn packedMsg0, .bn packedMsg1]

/-- `getPerpetualConditionalTransferMessage`: the transfer with the condition hashed in after the
receiver's key, and its own discriminant. -/
def getPerpetualConditionalTransferMessage (assetId assetIdFee receiverPublicKey condition
    senderPositionId receiverPositionId srcFeePositionId nonce amount maxAmountFee
    expirationTimestamp : Value) (hash : Value → Value → m ℤ) : ExceptT EncodeError m ℤ := do
  let assetIdBn := assetId.toBn
  let assetIdFeeBn := assetIdFee.toBn
  let receiverPublicKeyBn := receiverPublicKey.toBn
  let conditionBn := condition.toBn
  let senderPositionIdBn := senderPositionId.toBn
  let receiverPositionIdBn := receiverPositionId.toBn
  let srcFeePositionIdBn := srcFeePositionId.toBn
  let nonceBn := nonce.toBn
  let amountBn := amount.toBn
  let maxAmountFeeBn := maxAmountFee.toBn
  let expirationTimestampBn := expirationTimestamp.toBn
  assertAllInRange <| perpetualTransfersRangeChecks assetIdBn assetIdFeeBn receiverPublicKeyBn
    senderPositionIdBn receiverPositionIdBn srcFeePositionIdBn nonceBn amountBn maxAmountFeeBn
    expirationTimestampBn conditionBn
  let packedMsg0 :=
    transferPackedMsg0 senderPositionIdBn receiverPositionIdBn srcFeePositionIdBn nonceBn
  let packedMsg1 :=
    transferPackedMsg1 ConditionalTransfer amountBn maxAmountFeeBn expirationTimestampBn
  ExceptT.lift <| hashChainM hash (.bn assetIdBn) (.bn assetIdFeeBn)
    [.bn receiverPublicKeyBn, .bn conditionBn, .bn packedMsg0, .bn packedMsg1]

/-- `getPerpetualLimitOrderMessage`. -/
def getPerpetualLimitOrderMessage (assetIdSynthetic assetIdCollateral : Value)
    (isBuyingSynthetic : Bool) (assetIdFee amountSynthetic amountCollateral maxAmountFee nonce
    positionId expirationTimestamp : Value) (hash : Value → Value → m ℤ) :
    ExceptT EncodeError m ℤ := do
  let assetIdSyntheticBn := assetIdSynthetic.toBn
  let assetIdCollateralBn := assetIdCollateral.toBn
  let assetIdFeeBn := assetIdFee.toBn
  let maxAmountFeeBn := maxAmountFee.toBn
  let nonceBn := nonce.toBn
  let positionIdBn := positionId.toBn
  let expirationTimestampBn := expirationTimestamp.toBn
  let sides := limitOrderSides isBuyingSynthetic assetIdSynthetic assetIdCollateral
    amountSynthetic amountCollateral
  assertAllInRange <| limitOrderRangeChecks assetIdSyntheticBn assetIdCollateralBn assetIdFeeBn
    sides.amountSell sides.amountBuy maxAmountFeeBn nonceBn positionIdBn expirationTimestampBn
  let packedMsg0 := limitOrderPackedMsg0 sides.amountSell sides.amountBuy maxAmountFeeBn nonceBn
  let packedMsg1 := limitOrderPackedMsg1 positionIdBn expirationTimestampBn
  ExceptT.lift <| hashChainM hash (.bn sides.assetIdSell) (.bn sides.assetIdBuy)
    [.bn assetIdFeeBn, .bn packedMsg0, .bn packedMsg1]

/-! ## Runs -/

theorem run_liftM_except {α : Type} (c : Except EncodeError α) :
    (liftM c : ExceptT EncodeError m α).run = pure c := rfl

/-- A block of checks followed by a lifted computation: the checks' error without running it, or
its result. -/
theorem run_checks_bind_lift [LawfulMonad m] (c : Except EncodeError Unit) (k : m ℤ) :
    (liftM c >>= fun _ => ExceptT.lift k : ExceptT EncodeError m ℤ).run =
      match c with
      | .ok _ => Except.ok <$> k
      | .error e => pure (.error e) := by
  cases c <;> simp [ExceptT.run_bind, run_liftM_except]

/-! ## The exported encoders as one call -/

/-- A call of one of the four encoders the module exports, with all its arguments but `hash`. -/
inductive PerpetualMessage
  | withdrawal (assetIdCollateral positionId nonce expirationTimestamp amount : Value)
  | transfer (assetId assetIdFee receiverPublicKey senderPositionId receiverPositionId
      srcFeePositionId nonce amount maxAmountFee expirationTimestamp : Value)
  | conditionalTransfer (assetId assetIdFee receiverPublicKey condition senderPositionId
      receiverPositionId srcFeePositionId nonce amount maxAmountFee expirationTimestamp : Value)
  | limitOrder (assetIdSynthetic assetIdCollateral : Value) (isBuyingSynthetic : Bool)
      (assetIdFee amountSynthetic amountCollateral maxAmountFee nonce positionId
      expirationTimestamp : Value)
  deriving DecidableEq, Repr

namespace PerpetualMessage

/-- The call, run with the collaborator `hash`. -/
def getMessage (hash : Value → Value → m ℤ) : PerpetualMessage → ExceptT EncodeError m ℤ
  | withdrawal a p n e am => getPerpetualWithdrawalMessage a p n e am hash
  | transfer a f k s r src n am fee e => getPerpetualTransferMessage a f k s r src n am fee e hash
  | conditionalTransfer a f k c s r src n am fee e =>
    getPerpetualConditionalTransferMessage a f k c s r src n am fee e hash
  | limitOrder syn col b f asyn acol fee n pos e =>
    getPerpetualLimitOrderMessage syn col b f asyn acol fee n pos e hash

/-- The `assertInRange` calls the call makes. -/
def rangeChecks : PerpetualMessage → List RangeCheck
  | withdrawal a p n e am => withdrawalRangeChecks a.toBn p.toBn n.toBn am.toBn e.toBn
  | transfer a f k s r src n am fee e =>
    perpetualTransfersRangeChecks a.toBn f.toBn k.toBn s.toBn r.toBn src.toBn n.toBn am.toBn
      fee.toBn e.toBn 0
  | conditionalTransfer a f k c s r src n am fee e =>
    perpetualTransfersRangeChecks a.toBn f.toBn k.toBn s.toBn r.toBn src.toBn n.toBn am.toBn
      fee.toBn e.toBn c.toBn
  | limitOrder syn col b f asyn acol fee n pos e =>
    let sides := limitOrderSides b syn col asyn acol
    limitOrderRangeChecks syn.toBn col.toBn f.toBn sides.amountSell sides.amountBuy fee.toBn
      n.toBn pos.toBn e.toBn

/-- The elements the call's hash chain folds: the first two, then the rest in order. -/
def hashArgs : PerpetualMessage → Value × Value × List Value
  | withdrawal a p n e am => (a, .bn (withdrawalPackedMsg p.toBn n.toBn am.toBn e.toBn), [])
  | transfer a f k s r src n am fee e =>
    (.bn a.toBn, .bn f.toBn, [.bn k.toBn, .bn (transferPackedMsg0 s.toBn r.toBn src.toBn n.toBn),
      .bn (transferPackedMsg1 Transfer am.toBn fee.toBn e.toBn)])
  | conditionalTransfer a f k c s r src n am fee e =>
    (.bn a.toBn, .bn f.toBn, [.bn k.toBn, .bn c.toBn,
      .bn (transferPackedMsg0 s.toBn r.toBn src.toBn n.toBn),
      .bn (transferPackedMsg1 ConditionalTransfer am.toBn fee.toBn e.toBn)])
  | limitOrder syn col b f asyn acol fee n pos e =>
    let sides := limitOrderSides b syn col asyn acol
    (.bn sides.assetIdSell, .bn sides.assetIdBuy, [.bn f.toBn,
      .bn (limitOrderPackedMsg0 sides.amountSell sides.amountBuy fee.toBn n.toBn),
      .bn (limitOrderPackedMsg1 pos.toBn e.toBn)])

/-- Every encoder runs its range checks, then its hash chain: a failing block is its error, with no
call of `hash`; a passing one gives the chain's result. -/
theorem getMessage_run [LawfulMonad m] (hash : Value → Value → m ℤ) (p : PerpetualMessage) :
    (p.getMessage hash).run = match assertAllInRange p.rangeChecks with
      | .ok _ => Except.ok <$> hashChainM hash p.hashArgs.1 p.hashArgs.2.1 p.hashArgs.2.2
      | .error e => pure (.error e) := by
  cases p <;> exact run_checks_bind_lift _ _

end PerpetualMessage

end StarkPerpetual
