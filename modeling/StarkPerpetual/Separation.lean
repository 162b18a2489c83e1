import StarkPerpetual.Refinement

/-!
# Domain separation of the four kinds

The last hash call of every encoder takes a word that carries the kind's discriminant from bit 241
up, with the other fields below it (`finalWord_eq`). So final words of different kinds differ, and
for `H` injective on pairs two accepted calls of different kinds never give one result, a
conditional transfer with condition `0` and a plain transfer included
(`getMessage_domain_separation`). The first argument of that call plays no part: the withdrawal's
unparsed asset id does not matter here.
-/

namespace StarkPerpetual

namespace PerpetualMessage

/-- The kind of operation the call encodes. -/
def kind : PerpetualMessage → MessageKind
  | withdrawal .. => .withdrawal
  | transfer .. => .transfer
  | conditionalTransfer .. => .conditionalTransfer
  | limitOrder .. => .limitOrder

/-- The second argument of the call's last hash call: `packedMsg` of the withdrawal, `packedMsg1`
of the others. -/
def finalWord : PerpetualMessage → ℤ
  | withdrawal _ p n e am => withdrawalPackedMsg p.toBn n.toBn am.toBn e.toBn
  | transfer _ _ _ _ _ _ _ am fee e => transferPackedMsg1 Transfer am.toBn fee.toBn e.toBn
  | conditionalTransfer _ _ _ _ _ _ _ _ am fee e =>
    transferPackedMsg1 ConditionalTransfer am.toBn fee.toBn e.toBn
  | limitOrder _ _ _ _ _ _ _ _ pos e => limitOrderPackedMsg1 pos.toBn e.toBn

theorem kind_operation (p : PerpetualMessage) : p.operation.kind = p.kind := by
  cases p <;> rfl

/-- The chain's elements end with the final word. -/
theorem hashArgs_eq_append (p : PerpetualMessage) :
    let l := p.hashArgs.1 :: p.hashArgs.2.1 :: p.hashArgs.2.2
    l.dropLast ≠ [] ∧ l = l.dropLast ++ [.bn p.finalWord] := by
  cases p <;> exact ⟨List.cons_ne_nil _ _, rfl⟩

/-- The final word of a call whose fields are in range is the last word of its operation. -/
theorem finalWord_eq_lastWord {p : PerpetualMessage} (h : p.FieldsInRange) :
    p.finalWord = p.operation.lastWord := by
  cases p with
  | limitOrder syn col b =>
    simp only [fieldsInRange_limitOrder] at h
    simp only [finalWord, operation, Operation.lastWord, limitOrderPackedMsg1, LimitOrderWithFees,
      packFields_cons, packFields_nil, ushln_eq]
    push_cast
    simp only [Int.toNat_of_nonneg, h]
  | _ =>
    simp only [fieldsInRange_withdrawal, fieldsInRange_transfer,
      fieldsInRange_conditionalTransfer] at h
    simp only [finalWord, operation, Operation.lastWord, withdrawalPackedMsg, transferPackedMsg1,
      Withdrawal, Transfer, ConditionalTransfer, packFields_cons, packFields_nil, ushln_eq]
    push_cast
    simp only [Int.toNat_of_nonneg, h]

/-- The final word of a call whose fields are in range is its kind's discriminant times
`2 ^ 241` plus a remainder below `2 ^ 241`. -/
theorem finalWord_eq {p : PerpetualMessage} (h : p.FieldsInRange) :
    ∃ r, 0 ≤ r ∧ r < 2 ^ 241 ∧ p.finalWord = p.kind.discriminant * 2 ^ 241 + r := by
  have hd := Operation.lastWord_div (operation_valid h)
  rw [kind_operation] at hd
  refine ⟨(p.operation.lastWord % 2 ^ 241 : ℕ), by positivity, by norm_cast; omega, ?_⟩
  rw [finalWord_eq_lastWord h, ← hd]
  norm_cast
  omega

/-- An accepted call returns `H c w` for `w` its final word. -/
theorem exists_run_eq_final (H : ℕ → ℕ → ℕ) {p : PerpetualMessage}
    (h : assertAllInRange p.rangeChecks = .ok ()) :
    ∃ c, (p.getMessage (pairHash H)).run = .ok (H c p.finalWord.toNat : ℤ) := by
  obtain ⟨hne, heq⟩ := hashArgs_eq_append p
  generalize List.dropLast _ = init at hne heq
  refine ⟨hashChain H (init.map fun a => a.toBn16.toNat), ?_⟩
  rw [getMessage_run, h]
  show Except.ok (hashChainM (pairHash H) _ _ _) = _
  rw [hashChainM_pairHash, heq, List.map_append, List.map_singleton,
    hashChain_append _ (by simpa using hne)]
  rfl

end PerpetualMessage

open PerpetualMessage

/-- Domain separation. Accepted calls of two different kinds have final words that carry their
own discriminants from bit 241 up, so the words differ, and for `H` injective on pairs so do the
two results. -/
theorem getMessage_domain_separation {H : ℕ → ℕ → ℕ} (hH : InjectivePairs H)
    {p p' : PerpetualMessage} (hk : p.kind ≠ p'.kind)
    (h : assertAllInRange p.rangeChecks = .ok ()) (h' : assertAllInRange p'.rangeChecks = .ok ()) :
    (∃ r, 0 ≤ r ∧ r < 2 ^ 241 ∧ p.finalWord = p.kind.discriminant * 2 ^ 241 + r) ∧
      (∃ r, 0 ≤ r ∧ r < 2 ^ 241 ∧ p'.finalWord = p'.kind.discriminant * 2 ^ 241 + r) ∧
      p.finalWord ≠ p'.finalWord ∧
      (p.getMessage (pairHash H)).run ≠ (p'.getMessage (pairHash H)).run := by
  have hw := finalWord_eq ((assertAllInRange_rangeChecks p).1 h)
  have hw' := finalWord_eq ((assertAllInRange_rangeChecks p').1 h')
  have hd : (p.kind.discriminant : ℤ) ≠ p'.kind.discriminant :=
    fun e => hk (MessageKind.discriminant_injective (Nat.cast_injective e))
  obtain ⟨r, hr0, hr1, e⟩ := hw
  obtain ⟨r', hr0', hr1', e'⟩ := hw'
  have hne : p.finalWord ≠ p'.finalWord := by omega
  refine ⟨⟨r, hr0, hr1, e⟩, ⟨r', hr0', hr1', e'⟩, hne, ?_⟩
  obtain ⟨c, hc⟩ := exists_run_eq_final H h
  obtain ⟨c', hc'⟩ := exists_run_eq_final H h'
  rw [hc, hc']
  intro hres
  have hw := (hH _ _ _ _ (Nat.cast_injective (Except.ok.inj hres))).2
  omega

/-- A plain transfer and the conditional transfer with the same fields and condition `0`. -/
theorem getMessage_domain_separation_condition_zero :
    let z := Value.bn 0
    let p := transfer z z z z z z z z z z
    let p' := conditionalTransfer z z z z z z z z z z z
    (∃ r, 0 ≤ r ∧ r < 2 ^ 241 ∧ p.finalWord = p.kind.discriminant * 2 ^ 241 + r) ∧
      (∃ r, 0 ≤ r ∧ r < 2 ^ 241 ∧ p'.finalWord = p'.kind.discriminant * 2 ^ 241 + r) ∧
      p.finalWord ≠ p'.finalWord ∧
      (p.getMessage (pairHash Nat.pair)).run ≠ (p'.getMessage (pairHash Nat.pair)).run :=
  getMessage_domain_separation injectivePairs_pair (by decide) rfl rfl

end StarkPerpetual
