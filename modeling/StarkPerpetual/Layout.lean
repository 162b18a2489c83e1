import StarkPerpetual.Validation

/-!
# The layout of the packed words

Each encoder packs its small fields into one or two words before hashing them. The spec and the
verifier read these words at fixed bit offsets (§4.5); `PerpetualMessage.packedWords` lists, for
each word the code computes, the offset and width of each field as the spec declares them, the
discriminant taking the bits from 241 up.

`packedWords_decode`: for every call that passes its range checks, every packed word is a field
element below `2 ^ 251` (so below `fieldPrime`, and the hash reduces nothing), and each declared
field is exactly the bits of the word at its offset. The proof packs the fields as `ℕ` and reads
the layout the packer computes (`decodes_packFields`).
-/

namespace StarkPerpetual

/-- Bits `[offset, offset + width)` of a `BN`. -/
def bitsAt (x : ℤ) (offset width : ℕ) : ℤ := x / 2 ^ offset % 2 ^ width

/-- A packed word below `2 ^ 251` whose fields `(value, offset, width)` are its bits at their
offsets. -/
def Decodes (word : ℤ) (fields : List (ℤ × ℕ × ℕ)) : Prop :=
  0 ≤ word ∧ word < 2 ^ 251 ∧ ∀ f ∈ fields, bitsAt word f.2.1 f.2.2 = f.1

/-- Fields `(value, width)` in `[0, 2 ^ width)`. -/
def InWidth (fs : List (ℤ × ℕ)) : Prop := ∀ f ∈ fs, 0 ≤ f.1 ∧ f.1 < 2 ^ f.2

theorem bitsAt_natCast (n o w : ℕ) : bitsAt (n : ℤ) o w = ((n / 2 ^ o % 2 ^ w : ℕ) : ℤ) := by
  simp [bitsAt]

/-- Fields in their widths are the casts of their `ℕ` values. -/
theorem eq_map_natCast_of_inWidth {fs : List (ℤ × ℕ)} (h : InWidth fs) :
    ∃ gs : List (ℕ × ℕ), Fits gs ∧ fs = gs.map fun g => ((g.1 : ℤ), g.2) := by
  induction fs with
  | nil => exact ⟨[], by simp [Fits], rfl⟩
  | cons f fs ih =>
    obtain ⟨hf0, hf1⟩ := h f (List.mem_cons_self _ _)
    obtain ⟨gs, hgs, rfl⟩ := ih fun g hg => h g (List.mem_cons_of_mem _ hg)
    refine ⟨(f.1.toNat, f.2) :: gs, fits_cons.2 ⟨by zify; omega, hgs⟩, ?_⟩
    simp [Int.toNat_of_nonneg hf0]

theorem totalWidth_map_natCast (gs : List (ℕ × ℕ)) :
    totalWidth (gs.map fun g => ((g.1 : ℤ), g.2)) = totalWidth gs := by
  simp [totalWidth, Function.comp_def]

theorem layout_map_natCast (gs : List (ℕ × ℕ)) (pad : ℕ) :
    layout (gs.map fun g => ((g.1 : ℤ), g.2)) pad =
      (layout gs pad).map fun g => ((g.1 : ℤ), g.2) := by
  induction gs with
  | nil => rfl
  | cons g gs ih => obtain ⟨v, w⟩ := g; simp [layout, ih, totalWidth_map_natCast]

/-- A word packed from an accumulator of `w₀` bits and fields that fit, padded by `pad` bits with
`w₀ + W + pad ≤ 251`, decodes along the layout the packer computes. -/
theorem decodes_packFields {acc : ℤ} {w₀ pad : ℕ} {fs : List (ℤ × ℕ)}
    (hfs : InWidth ((acc, w₀) :: fs)) (hw : w₀ + totalWidth fs + pad ≤ 251) :
    Decodes (ushln (packFields acc fs) pad) (layout ((acc, w₀) :: fs) pad) := by
  obtain ⟨gs, hgs, hmap⟩ := eq_map_natCast_of_inWidth hfs
  rcases gs with _ | ⟨⟨a, w⟩, gs⟩
  · simp at hmap
  · simp only [List.map_cons, List.cons.injEq, Prod.mk.injEq] at hmap
    obtain ⟨⟨rfl, rfl⟩, rfl⟩ := hmap
    have hword : ushln (packFields (a : ℤ) (gs.map fun g => ((g.1 : ℤ), g.2))) pad =
        ((packFields 0 ((a, w₀) :: gs) * 2 ^ pad : ℕ) : ℤ) := by
      rw [packFields_zero_cons, ushln_eq, Nat.cast_mul, natCast_packFields, Nat.cast_pow,
        Nat.cast_ofNat]
    have hlt : packFields 0 ((a, w₀) :: gs) * 2 ^ pad < 2 ^ 251 :=
      calc packFields 0 ((a, w₀) :: gs) * 2 ^ pad
          < 2 ^ totalWidth ((a, w₀) :: gs) * 2 ^ pad :=
            Nat.mul_lt_mul_of_pos_right (packFields_zero_lt hgs) (by positivity)
        _ ≤ 2 ^ 251 := by
            rw [← pow_add]
            exact Nat.pow_le_pow_right (by norm_num)
              (by rw [totalWidth_map_natCast] at hw; simp only [totalWidth_cons]; omega)
    have hl := layout_map_natCast ((a, w₀) :: gs) pad
    simp only [List.map_cons] at hl
    rw [hword, hl]
    refine ⟨by positivity, by exact_mod_cast hlt, ?_⟩
    intro f hf
    obtain ⟨g, hg, rfl⟩ := List.mem_map.1 hf
    rw [bitsAt_natCast, bitsAt_layout hgs 0 pad g hg]

theorem decodes_packFields_unpadded {acc : ℤ} {w₀ : ℕ} {fs : List (ℤ × ℕ)}
    (hfs : InWidth ((acc, w₀) :: fs)) (hw : w₀ + totalWidth fs ≤ 251) :
    Decodes (packFields acc fs) (layout ((acc, w₀) :: fs) 0) := by
  simpa using @decodes_packFields acc w₀ 0 fs hfs (by simpa using hw)

namespace PerpetualMessage

/-- Each packed word the call hashes, with the fields the spec declares in it: each field's value,
offset and width. -/
def packedWords : PerpetualMessage → List (ℤ × List (ℤ × ℕ × ℕ))
  | withdrawal _ p n e am =>
    [(withdrawalPackedMsg p.toBn n.toBn am.toBn e.toBn,
      [(Withdrawal, 241, 10), (p.toBn, 177, 64), (n.toBn, 145, 32), (am.toBn, 81, 64),
        (e.toBn, 49, 32)])]
  | transfer _ _ _ s r src n am fee e =>
    [(transferPackedMsg0 s.toBn r.toBn src.toBn n.toBn,
      [(s.toBn, 160, 64), (r.toBn, 96, 64), (src.toBn, 32, 64), (n.toBn, 0, 32)]),
     (transferPackedMsg1 Transfer am.toBn fee.toBn e.toBn,
      [(Transfer, 241, 10), (am.toBn, 177, 64), (fee.toBn, 113, 64), (e.toBn, 81, 32)])]
  | conditionalTransfer _ _ _ _ s r src n am fee e =>
    [(transferPackedMsg0 s.toBn r.toBn src.toBn n.toBn,
      [(s.toBn, 160, 64), (r.toBn, 96, 64), (src.toBn, 32, 64), (n.toBn, 0, 32)]),
     (transferPackedMsg1 ConditionalTransfer am.toBn fee.toBn e.toBn,
      [(ConditionalTransfer, 241, 10), (am.toBn, 177, 64), (fee.toBn, 113, 64),
        (e.toBn, 81, 32)])]
  | limitOrder syn col b _ asyn acol fee n pos e =>
    let sides := limitOrderSides b syn col asyn acol
    [(limitOrderPackedMsg0 sides.amountSell sides.amountBuy fee.toBn n.toBn,
      [(sides.amountSell, 160, 64), (sides.amountBuy, 96, 64), (fee.toBn, 32, 64),
        (n.toBn, 0, 32)]),
     (limitOrderPackedMsg1 pos.toBn e.toBn,
      [(LimitOrderWithFees, 241, 10), (pos.toBn, 177, 64), (pos.toBn, 113, 64),
        (pos.toBn, 49, 64), (e.toBn, 17, 32)])]

/-- Each packed word is an element the call hands to the collaborator. -/
theorem packedWords_mem_hashArgs (p : PerpetualMessage) :
    ∀ w ∈ p.packedWords, .bn w.1 ∈ p.hashArgs.1 :: p.hashArgs.2.1 :: p.hashArgs.2.2 := by
  cases p <;> simp [packedWords, hashArgs]

/-- Every packed word of a call that passes its range checks is a field element whose declared
fields are its bits at their offsets. -/
theorem packedWords_decode (p : PerpetualMessage) (h : assertAllInRange p.rangeChecks = .ok ()) :
    ∀ w ∈ p.packedWords, w.1 < fieldPrime ∧ Decodes w.1 w.2 := by
  have hr := (assertAllInRange_rangeChecks p).1 h
  have key : ∀ w ∈ p.packedWords, Decodes w.1 w.2 := by
    cases p with
    | limitOrder syn col b =>
      simp only [fieldsInRange_limitOrder] at hr
      cases b <;> simp only [packedWords, limitOrderSides, List.forall_mem_cons, List.mem_nil_iff,
        false_implies, implies_true, and_true, ite_true, ite_false, Bool.false_eq_true] <;>
      exact ⟨decodes_packFields_unpadded (by simp only [InWidth, List.forall_mem_cons,
          List.mem_nil_iff, false_implies, implies_true, and_true, hr]) (by norm_num),
        decodes_packFields (by simp only [InWidth, List.forall_mem_cons, List.mem_nil_iff,
          false_implies, implies_true, and_true, hr, LimitOrderWithFees]; decide) (by norm_num)⟩
    | withdrawal =>
      simp only [fieldsInRange_withdrawal] at hr
      simp only [packedWords, List.forall_mem_cons, List.mem_nil_iff, false_implies, implies_true,
        and_true]
      exact decodes_packFields (by simp only [InWidth, List.forall_mem_cons, List.mem_nil_iff,
        false_implies, implies_true, and_true, hr, Withdrawal]; decide) (by norm_num)
    | _ =>
      simp only [fieldsInRange_transfer, fieldsInRange_conditionalTransfer] at hr
      simp only [packedWords, List.forall_mem_cons, List.mem_nil_iff, false_implies, implies_true,
        and_true]
      exact ⟨decodes_packFields_unpadded (by simp only [InWidth, List.forall_mem_cons,
          List.mem_nil_iff, false_implies, implies_true, and_true, hr]) (by norm_num),
        decodes_packFields (by simp only [InWidth, List.forall_mem_cons, List.mem_nil_iff,
          false_implies, implies_true, and_true, hr, Transfer, ConditionalTransfer]; decide)
          (by norm_num)⟩
  intro w hw
  exact ⟨(key w hw).2.1.trans (by norm_num [fieldPrime]), key w hw⟩

/-- The spec's golden withdrawal: asset id `"1"`, position id `"1"`, the rest `"0"`. -/
theorem packedWords_decode_golden :
    let p := withdrawal (.str ⟨false, [1]⟩) (.str ⟨false, [1]⟩) (.str ⟨false, [0]⟩)
      (.str ⟨false, [0]⟩) (.str ⟨false, [0]⟩)
    assertAllInRange p.rangeChecks = .ok () ∧
      ∀ w ∈ p.packedWords, w.1 < fieldPrime ∧ Decodes w.1 w.2 :=
  ⟨rfl, packedWords_decode _ rfl⟩

end PerpetualMessage

end StarkPerpetual
