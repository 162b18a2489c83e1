import StarkPerpetual.Separation

/-!
# The encoders with any collaborator

The encoders take their hash collaborator as an argument, in any monad: it may fail, log its calls
or keep state. `getMessage_refines` runs them with one collaborator; this module says what they do
with every one, and with one defined on field elements only.

`getMessage_run_hashM`: whatever the collaborator, a call whose fields are in range and that hands
its elements over as `BN`s runs the canonical hash chain of its operation (`Operation.hashM`), so
its result and every call it makes depend on the operation only.
1. the driver on `BN`s runs the canonical chain of their values (`hashChainM_eq_hashChainOn`);
2. what the collaborator reads of the call's elements is its operation's message
   (`hashArgs_toBn16`); handed over as `BN`s, they are that message (`hashArgs_eq_map`).

`getMessage_fieldHash`: the spec's collaborator takes field elements only (`fieldHash H`). An
accepted call whose elements it reads as their parsed values never hands it anything else: every
element of a valid operation's message is below `2 ^ 251` (`Operation.message_lt`), and every
intermediate result is a value of `H`.

The withdrawal hands over its asset id as the caller passed it. With `pairHash H` it computes the
canonical hash exactly when that id is a `BN` or a string below 10
(`getPerpetualWithdrawalMessage_refines_iff`); with `fieldHash H` it fails exactly when the id is
read past the prime (`getPerpetualWithdrawalMessage_fieldHash_error`), which its range check does
not exclude.
-/

namespace StarkPerpetual

variable {m : Type → Type} [Monad m]

/-! ## The canonical hash chain in a monad -/

/-- The canonical hash chain of field elements, run by the collaborator `hash` in `m`: each
element handed over as a `BN`, each intermediate result fed back as one. -/
def hashChainOn (hash : Value → Value → m ℤ) : List ℕ → m ℤ
  | [] => pure 0
  | a :: as => as.foldlM (fun msg (x : ℕ) => hash (.bn msg) (.bn x)) (a : ℤ)

/-- `pairHash H` runs the canonical chain as `hashChain H`. -/
theorem hashChainOn_pairHash (H : ℕ → ℕ → ℕ) : ∀ l : List ℕ,
    hashChainOn (pairHash H) l = (hashChain H l : ℤ)
  | [] => rfl
  | a :: as => by
    induction as generalizing a with
    | nil => rfl
    | cons x as ih => exact ih (H a x)

/-- The driver on `BN`s runs the canonical chain of their values. -/
theorem hashChainM_eq_hashChainOn (hash : Value → Value → m ℤ) {a₁ a₂ : Value}
    {rest : List Value} {l : List ℕ} (h : a₁ :: a₂ :: rest = l.map fun x => .bn x) :
    hashChainM hash a₁ a₂ rest = hashChainOn hash l := by
  obtain _ | ⟨a, _ | ⟨b, l⟩⟩ := l <;> cases h
  simp only [hashChainM, hashChainOn, List.foldlM_cons, List.foldlM_map]

theorem natCast_lt_fieldPrime {x : ℕ} (hx : x < 2 ^ 251) : (x : ℤ) < fieldPrime := by
  rw [fieldPrime]
  omega

namespace Operation

/-- The canonical hash of the operation, computed by the collaborator `hash` in `m`. -/
def hashM (hash : Value → Value → m ℤ) (op : Operation) : m ℤ := hashChainOn hash op.message

theorem hashM_pairHash (H : ℕ → ℕ → ℕ) (op : Operation) :
    op.hashM (pairHash H) = (op.hash H : ℤ) :=
  hashChainOn_pairHash H op.message

/-- Every element of a valid operation's message is below `2 ^ 251`: a field element. -/
theorem message_lt {op : Operation} (hv : op.Valid) : ∀ x ∈ op.message, x < 2 ^ 251 := by
  have hlast : op.lastWord < 2 ^ 251 :=
    calc op.lastWord < 7 * 2 ^ 241 := (Nat.div_lt_iff_lt_mul (by positivity)).1 <| by
          rw [lastWord_div hv]; cases op.kind <;> decide
      _ < 2 ^ 251 := by norm_num
  have hword {v : ℕ} {fs : List (ℕ × ℕ)} (hf : Fits ((v, 64) :: fs)) (hw : totalWidth fs = 160) :
      packFields v fs < 2 ^ 251 :=
    calc packFields v fs = packFields 0 ((v, 64) :: fs) := (packFields_zero_cons v 64 fs).symm
      _ < 2 ^ totalWidth ((v, 64) :: fs) := packFields_zero_lt hf
      _ ≤ 2 ^ 251 := Nat.pow_le_pow_right (by norm_num) (by rw [totalWidth_cons, hw]; norm_num)
  simp only [message, List.forall_mem_append, List.forall_mem_singleton]
  refine ⟨?_, hlast⟩
  cases op with
  | withdrawal =>
    simp only [Valid, fields, fits_cons] at hv
    simp only [firstElements, List.forall_mem_singleton]
    omega
  | transfer _ _ _ s r src n =>
    have hw : packFields s [(r, 64), (src, 64), (n, 32)] < 2 ^ 251 :=
      hword ((hv.drop 3).take 4) rfl
    simp only [Valid, fields, fits_cons] at hv
    simp only [firstElements, List.forall_mem_cons, List.mem_nil_iff, false_implies,
      implies_true, and_true]
    omega
  | conditionalTransfer _ _ _ _ s r src n =>
    have hw : packFields s [(r, 64), (src, 64), (n, 32)] < 2 ^ 251 :=
      hword ((hv.drop 4).take 4) rfl
    simp only [Valid, fields, fits_cons] at hv
    simp only [firstElements, List.forall_mem_cons, List.mem_nil_iff, false_implies,
      implies_true, and_true]
    omega
  | limitOrder _ _ _ asell abuy fee n =>
    have hw : packFields asell [(abuy, 64), (fee, 64), (n, 32)] < 2 ^ 251 :=
      hword ((hv.drop 3).take 4) rfl
    simp only [Valid, fields, fits_cons] at hv
    simp only [firstElements, List.forall_mem_cons, List.mem_nil_iff, false_implies,
      implies_true, and_true]
    omega

end Operation

namespace PerpetualMessage

/-! ## Calls that hand over `BN`s -/

/-- The call hands its elements to the collaborator as `BN`s: all of them are parsed but the
withdrawal's asset id, handed over as the caller passed it. -/
def HandsParsed : PerpetualMessage → Prop
  | withdrawal a .. => ∃ v, a = .bn v
  | _ => True

theorem HandsParsed.readsAsParsed {p : PerpetualMessage} (hp : p.HandsParsed) :
    p.ReadsAsParsed := by
  cases p with
  | withdrawal => obtain ⟨v, rfl⟩ := hp; rfl
  | _ => trivial

theorem hashArgs_eq_bn {p : PerpetualMessage} (hp : p.HandsParsed) :
    p.hashArgs.1 :: p.hashArgs.2.1 :: p.hashArgs.2.2 =
      ((p.hashArgs.1 :: p.hashArgs.2.1 :: p.hashArgs.2.2).map Value.toBn16).map Value.bn := by
  cases p with
  | withdrawal => obtain ⟨v, rfl⟩ := hp; rfl
  | _ => rfl

/-- Handed over as `BN`s, the call's elements are the message of its operation. -/
theorem hashArgs_eq_map {p : PerpetualMessage} (h : p.FieldsInRange) (hp : p.HandsParsed) :
    p.hashArgs.1 :: p.hashArgs.2.1 :: p.hashArgs.2.2 = p.operation.message.map fun x => .bn x := by
  rw [hashArgs_eq_bn hp, hashArgs_toBn16 h hp.readsAsParsed, List.map_map]
  rfl

/-- Whatever the collaborator and its monad, a call whose fields are in range and that hands its
elements over as `BN`s runs the canonical hash chain of its operation. -/
theorem getMessage_run_hashM [LawfulMonad m] (hash : Value → Value → m ℤ)
    {p : PerpetualMessage} (h : p.FieldsInRange) (hp : p.HandsParsed) :
    (p.getMessage hash).run = Except.ok <$> p.operation.hashM hash := by
  rw [getMessage_run, p.assertAllInRange_rangeChecks.2 h,
    hashChainM_eq_hashChainOn hash (hashArgs_eq_map h hp)]
  rfl

/-- A withdrawal run with a collaborator that adds what it reads. -/
theorem getMessage_run_hashM_sum :
    ((withdrawal (.bn 1) (.bn 0) (.bn 0) (.bn 0) (.bn 0)).getMessage
        (fun a b => (.ok (a.toBn + b.toBn) : Except String ℤ))).run =
      Except.ok <$> (withdrawal (.bn 1) (.bn 0) (.bn 0) (.bn 0) (.bn 0)).operation.hashM
        (fun a b => (.ok (a.toBn + b.toBn) : Except String ℤ)) :=
  getMessage_run_hashM _ ((assertAllInRange_rangeChecks _).1 rfl) ⟨1, rfl⟩

end PerpetualMessage

/-! ## A collaborator on field elements -/

/-- Modelled from the spec: the collaborator `hash(a: FieldElement, b: FieldElement) ->
FieldElement`, defined on field elements only and `H` there. It reads its arguments as the default
collaborator does; an argument outside `[0, P)` is outside its domain, and the call fails with
it. -/
def fieldHash (H : ℕ → ℕ → ℕ) (a b : Value) : Except Value ℤ :=
  if 0 ≤ a.toBn16 ∧ a.toBn16 < fieldPrime then
    if 0 ≤ b.toBn16 ∧ b.toBn16 < fieldPrime then .ok (H a.toBn16.toNat b.toBn16.toNat)
    else .error b
  else .error a

section FieldHash

variable {H : ℕ → ℕ → ℕ}

/-- On field elements `fieldHash H` is `pairHash H`. -/
theorem fieldHash_eq_ok {a b : Value} (ha : 0 ≤ a.toBn16 ∧ a.toBn16 < fieldPrime)
    (hb : 0 ≤ b.toBn16 ∧ b.toBn16 < fieldPrime) : fieldHash H a b = .ok (pairHash H a b) := by
  rw [fieldHash, if_pos ha, if_pos hb]
  rfl

theorem foldlM_fieldHash (hP : ∀ a b, (H a b : ℤ) < fieldPrime) (rest : List Value)
    (hrest : ∀ a ∈ rest, 0 ≤ a.toBn16 ∧ a.toBn16 < fieldPrime) (n : ℕ)
    (hn : (n : ℤ) < fieldPrime) :
    rest.foldlM (fun msg a => fieldHash H (.bn msg) a) (n : ℤ) =
      .ok (rest.foldlM (fun msg a => pairHash H (.bn msg) a) (n : ℤ) : Id ℤ) := by
  induction rest generalizing n with
  | nil => rfl
  | cons a rest ih =>
    rw [List.foldlM_cons, fieldHash_eq_ok
      (⟨Int.natCast_nonneg n, hn⟩ : 0 ≤ (Value.bn n).toBn16 ∧ (Value.bn n).toBn16 < fieldPrime)
      (hrest a (List.mem_cons_self _ _))]
    exact ih (fun b hb => hrest b (List.mem_cons_of_mem _ hb)) _ (hP _ _)

/-- For `H` into the field, the driver run with `fieldHash H` on elements it reads as field
elements never leaves its domain: it computes what `pairHash H` does. -/
theorem hashChainM_fieldHash (hP : ∀ a b, (H a b : ℤ) < fieldPrime) {a₁ a₂ : Value}
    {rest : List Value}
    (hargs : ∀ a ∈ a₁ :: a₂ :: rest, 0 ≤ a.toBn16 ∧ a.toBn16 < fieldPrime) :
    hashChainM (fieldHash H) a₁ a₂ rest = .ok (hashChainM (pairHash H) a₁ a₂ rest) := by
  rw [hashChainM, fieldHash_eq_ok (hargs _ (List.mem_cons_self _ _))
    (hargs _ (List.mem_cons_of_mem _ (List.mem_cons_self _ _)))]
  exact foldlM_fieldHash hP rest
    (fun a ha => hargs a (List.mem_cons_of_mem _ (List.mem_cons_of_mem _ ha))) _ (hP _ _)

end FieldHash

namespace PerpetualMessage

/-- For `H` into the field, an accepted call whose elements the collaborator reads as their parsed
values hands `fieldHash H` field elements only, and returns the canonical hash of its
operation. -/
theorem getMessage_fieldHash {H : ℕ → ℕ → ℕ} (hP : ∀ a b, (H a b : ℤ) < fieldPrime)
    {p : PerpetualMessage} (h : p.FieldsInRange) (hr : p.ReadsAsParsed) :
    (p.getMessage (fieldHash H)).run = .ok (.ok (p.operation.hash H : ℤ)) := by
  have hargs : ∀ a ∈ p.hashArgs.1 :: p.hashArgs.2.1 :: p.hashArgs.2.2,
      0 ≤ a.toBn16 ∧ a.toBn16 < fieldPrime := by
    intro a ha
    obtain ⟨x, hx, hxa⟩ := List.mem_map.1 (hashArgs_toBn16 h hr ▸ List.mem_map_of_mem _ ha)
    rw [← hxa]
    exact ⟨Int.natCast_nonneg x,
      natCast_lt_fieldPrime (Operation.message_lt (operation_valid h) x hx)⟩
  rw [getMessage_run, p.assertAllInRange_rangeChecks.2 h, hashChainM_fieldHash hP hargs,
    hashChainM_pairHash, read_hashArgs h hr]
  rfl

/-- A zero transfer, hashed by the Cantor pairing reduced below `2 ^ 251`. -/
theorem getMessage_fieldHash_zero :
    let z := Value.bn 0
    ((transfer z z z z z z z z z z).getMessage (fieldHash fun a b => Nat.pair a b % 2 ^ 251)).run =
      .ok (.ok ((transfer z z z z z z z z z z).operation.hash
        (fun a b => Nat.pair a b % 2 ^ 251) : ℤ)) :=
  getMessage_fieldHash (fun _ _ => natCast_lt_fieldPrime (Nat.mod_lt _ (by positivity)))
    ((assertAllInRange_rangeChecks _).1 rfl) trivial

end PerpetualMessage

open PerpetualMessage

/-! ## The withdrawal's asset id -/

theorem assetIdCollateral_nonneg {a p n e am : Value} (h : (withdrawal a p n e am).FieldsInRange) :
    0 ≤ a.toBn :=
  (fieldsInRange_withdrawal.1 h).1.1

/-- For `H` injective on pairs, an accepted withdrawal run with `pairHash H` returns the canonical
hash of its operation exactly when its asset id is a `BN` or a string below 10: the only strings
the collaborator reads as the range check does. -/
theorem getPerpetualWithdrawalMessage_refines_iff {H : ℕ → ℕ → ℕ} (hH : InjectivePairs H)
    {a p n e am : Value} (h : (withdrawal a p n e am).FieldsInRange) :
    (getPerpetualWithdrawalMessage a p n e am (pairHash H)).run =
        .ok ((withdrawal a p n e am).operation.hash H : ℤ) ↔
      (∃ v, a = .bn v) ∨ a.toBn < 10 := by
  have ha := assetIdCollateral_nonneg h
  have hrun : (getPerpetualWithdrawalMessage a p n e am (pairHash H)).run =
      .ok (H a.toBn16.toNat (withdrawal a p n e am).operation.lastWord : ℤ) := by
    show ((withdrawal a p n e am).getMessage (pairHash H)).run = _
    rw [getMessage_run, (assertAllInRange_rangeChecks _).2 h]
    show Except.ok (H a.toBn16.toNat (withdrawal a p n e am).finalWord.toNat : ℤ) = _
    rw [finalWord_eq_lastWord h, Int.toNat_natCast]
  have h16 := Value.toBn16_nonneg ha
  rw [hrun, Operation.hash_eq, Except.ok.injEq, Nat.cast_inj]
  calc H a.toBn16.toNat _ = H a.toBn.toNat _ ↔ a.toBn16.toNat = a.toBn.toNat :=
        ⟨fun he => (hH _ _ _ _ he).1, fun he => by rw [he]⟩
    _ ↔ a.toBn16 = a.toBn := by omega
    _ ↔ _ := (Value.toBn16_eq_toBn_iff a).trans (or_congr_right (by omega))

/-- The asset id `"10"`. -/
theorem getPerpetualWithdrawalMessage_refines_iff_ten :
    (getPerpetualWithdrawalMessage (.str ⟨false, [1, 0]⟩) (.bn 0) (.bn 0) (.bn 0) (.bn 0)
        (pairHash Nat.pair)).run =
        .ok ((withdrawal (.str ⟨false, [1, 0]⟩) (.bn 0) (.bn 0) (.bn 0) (.bn 0)).operation.hash
          Nat.pair : ℤ) ↔
      (∃ v, Value.str ⟨false, [1, 0]⟩ = .bn v) ∨ (Value.str ⟨false, [1, 0]⟩).toBn < 10 :=
  getPerpetualWithdrawalMessage_refines_iff injectivePairs_pair
    ((assertAllInRange_rangeChecks _).1 rfl)

/-- Run with `fieldHash H`, an accepted withdrawal fails, with its asset id as the caller passed it,
exactly when the collaborator reads that id past the prime. -/
theorem getPerpetualWithdrawalMessage_fieldHash_error (H : ℕ → ℕ → ℕ) {a p n e am : Value}
    (h : (withdrawal a p n e am).FieldsInRange) :
    (getPerpetualWithdrawalMessage a p n e am (fieldHash H)).run = .error a ↔
      fieldPrime ≤ a.toBn16 := by
  have ha := Value.toBn16_nonneg (assetIdCollateral_nonneg h)
  have hw : 0 ≤ (Value.bn (withdrawal a p n e am).finalWord).toBn16 ∧
      (Value.bn (withdrawal a p n e am).finalWord).toBn16 < fieldPrime := by
    rw [Value.toBn16_bn, finalWord_eq_lastWord h]
    exact ⟨Int.natCast_nonneg _, natCast_lt_fieldPrime
      (Operation.message_lt (operation_valid h) _ (by simp [Operation.message]))⟩
  show ((withdrawal a p n e am).getMessage (fieldHash H)).run = _ ↔ _
  rw [getMessage_run, (assertAllInRange_rangeChecks _).2 h]
  show Except.ok <$> (fieldHash H a (.bn (withdrawal a p n e am).finalWord) >>= pure) = _ ↔ _
  by_cases hlt : a.toBn16 < fieldPrime
  · have ha' : 0 ≤ a.toBn16 ∧ a.toBn16 < fieldPrime := ⟨ha, hlt⟩
    rw [fieldHash_eq_ok ha' hw]
    exact ⟨fun he => (by cases he), fun hle => absurd hlt (not_lt.2 hle)⟩
  · rw [fieldHash, if_neg (fun h => hlt h.2)]
    exact ⟨fun _ => not_lt.1 hlt, fun _ => rfl⟩

/-- The asset id `10 ^ 63`, a 64-digit string: below `2 ^ 250`, read as `16 ^ 63 = 2 ^ 252`. -/
theorem getPerpetualWithdrawalMessage_fieldHash_error_pow :
    (getPerpetualWithdrawalMessage (.str ⟨false, 1 :: List.replicate 63 0⟩) (.bn 0) (.bn 0)
        (.bn 0) (.bn 0) (fieldHash Nat.pair)).run =
        .error (.str ⟨false, 1 :: List.replicate 63 0⟩) ↔
      fieldPrime ≤ (Value.str ⟨false, 1 :: List.replicate 63 0⟩).toBn16 :=
  getPerpetualWithdrawalMessage_fieldHash_error Nat.pair ((assertAllInRange_rangeChecks _).1 rfl)

end StarkPerpetual
