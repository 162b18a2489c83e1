import StarkPerpetual.Bn
import Mathlib.Tactic.Linarith
import Mathlib.Tactic.Positivity

/-!
# The bit-packer

A packed word is built by shift-and-add (§4.3): start from an accumulator and, for each field
`(value, width)` in order, shift left by the width and add the value. The source writes each word
as a chain `packedMsg.ushln(w).add(v)`; `packFields` is that chain, over `ℤ` for the `BN` words of
the code and over `ℕ` for the words of the abstract model (`natCast_packFields` relates them).

Over `ℕ`, when every field fits its width:
1. the fields alone pack below `2 ^ W`, for `W` their total width (`packFields_zero_lt`);
2. shifting out the fields returns the accumulator (`packFields_div`), so each field is the bits
   `[o, o + w)` of the word, `o` being the width of the fields after it plus the padding
   (`bitsAt_layout`);
3. two words with the same widths are equal only if their fields are (`packFields_inj`).
-/

namespace StarkPerpetual

section Pack

variable {R : Type}

/-- The total width of a list of fields. -/
def totalWidth (fs : List (R × ℕ)) : ℕ := (fs.map Prod.snd).sum

/-- Each field with its offset in a word padded by `pad` bits: `(value, offset, width)`. -/
def layout : List (R × ℕ) → ℕ → List (R × ℕ × ℕ)
  | [], _ => []
  | (v, w) :: fs, pad => (v, totalWidth fs + pad, w) :: layout fs pad

@[simp] theorem totalWidth_nil : totalWidth ([] : List (R × ℕ)) = 0 := rfl

@[simp] theorem totalWidth_cons (v : R) (w : ℕ) (fs : List (R × ℕ)) :
    totalWidth ((v, w) :: fs) = w + totalWidth fs := by
  simp [totalWidth]

variable [CommSemiring R]

/-- `acc.ushln(width).add(value)`: one step of the bit-packer. -/
def pack (acc value : R) (width : ℕ) : R := acc * ((2 ^ width : ℕ) : R) + value

/-- The fields packed into `acc` in order, each `(value, width)`. -/
def packFields (acc : R) : List (R × ℕ) → R
  | [] => acc
  | (v, w) :: fs => packFields (pack acc v w) fs

@[simp] theorem packFields_nil (acc : R) : packFields acc [] = acc := rfl

@[simp] theorem packFields_cons (acc v : R) (w : ℕ) (fs : List (R × ℕ)) :
    packFields acc ((v, w) :: fs) = packFields (acc * 2 ^ w + v) fs := by
  simp [packFields, pack]

/-- The accumulator lands above all the fields. -/
theorem packFields_eq (acc : R) (fs : List (R × ℕ)) :
    packFields acc fs = acc * 2 ^ totalWidth fs + packFields 0 fs := by
  induction fs generalizing acc with
  | nil => simp
  | cons f fs ih =>
    obtain ⟨v, w⟩ := f
    simp only [packFields_cons, totalWidth_cons, zero_mul, zero_add]
    rw [ih, ih v, pow_add]
    ring

/-- A word starting from a field's value is that field packed first, at any width. -/
theorem packFields_zero_cons (v : R) (w : ℕ) (fs : List (R × ℕ)) :
    packFields 0 ((v, w) :: fs) = packFields v fs := by
  simp

/-- Casting the fields casts the word. -/
theorem natCast_packFields (acc : ℕ) (fs : List (ℕ × ℕ)) :
    ((packFields acc fs : ℕ) : R) =
      packFields (acc : R) (fs.map fun f => ((f.1 : R), f.2)) := by
  induction fs generalizing acc with
  | nil => rfl
  | cons f fs ih => obtain ⟨v, w⟩ := f; simp [ih]

end Pack

/-! ## Decoding over `ℕ` -/

/-- Every field fits its width. -/
def Fits (fs : List (ℕ × ℕ)) : Prop := ∀ f ∈ fs, f.1 < 2 ^ f.2

instance : DecidablePred Fits := fun fs =>
  inferInstanceAs (Decidable (∀ f ∈ fs, f.1 < 2 ^ f.2))

@[simp] theorem fits_nil : Fits [] := by simp [Fits]

theorem Fits.mono {fs gs : List (ℕ × ℕ)} (h : Fits fs) (hs : gs ⊆ fs) : Fits gs :=
  fun f hf => h f (hs hf)

theorem Fits.drop {fs : List (ℕ × ℕ)} (h : Fits fs) (k : ℕ) : Fits (fs.drop k) :=
  h.mono (List.drop_subset _ _)

theorem Fits.take {fs : List (ℕ × ℕ)} (h : Fits fs) (k : ℕ) : Fits (fs.take k) :=
  h.mono (List.take_subset _ _)

@[simp] theorem fits_cons {v w : ℕ} {fs : List (ℕ × ℕ)} :
    Fits ((v, w) :: fs) ↔ v < 2 ^ w ∧ Fits fs := by
  simp [Fits]

theorem packFields_zero_lt {fs : List (ℕ × ℕ)} (h : Fits fs) :
    packFields 0 fs < 2 ^ totalWidth fs := by
  induction fs with
  | nil => simp
  | cons f fs ih =>
    obtain ⟨v, w⟩ := f
    obtain ⟨hv, hfs⟩ := fits_cons.1 h
    rw [packFields_zero_cons, packFields_eq, totalWidth_cons, pow_add]
    calc v * 2 ^ totalWidth fs + packFields 0 fs
        < (v + 1) * 2 ^ totalWidth fs := by linarith [ih hfs]
      _ ≤ 2 ^ w * 2 ^ totalWidth fs := Nat.mul_le_mul_right _ hv

/-- Shifting out the fields and the padding returns the accumulator. -/
theorem packFields_div {fs : List (ℕ × ℕ)} (h : Fits fs) (acc pad : ℕ) :
    packFields acc fs * 2 ^ pad / 2 ^ (totalWidth fs + pad) = acc := by
  rw [pow_add, Nat.mul_div_mul_right _ _ (by positivity), packFields_eq, Nat.add_comm,
    Nat.add_mul_div_right _ _ (by positivity), Nat.div_eq_of_lt (packFields_zero_lt h),
    Nat.zero_add]

theorem packFields_div_totalWidth {fs : List (ℕ × ℕ)} (h : Fits fs) (acc : ℕ) :
    packFields acc fs / 2 ^ totalWidth fs = acc := by
  simpa using packFields_div h acc 0

/-- Each field of a padded word is the bits at its offset. -/
theorem bitsAt_layout {fs : List (ℕ × ℕ)} (h : Fits fs) (acc pad : ℕ) :
    ∀ f ∈ layout fs pad, packFields acc fs * 2 ^ pad / 2 ^ f.2.1 % 2 ^ f.2.2 = f.1 := by
  induction fs generalizing acc with
  | nil => simp [layout]
  | cons f fs ih =>
    obtain ⟨v, w⟩ := f
    obtain ⟨hv, hfs⟩ := fits_cons.1 h
    intro g hg
    simp only [layout, List.mem_cons] at hg
    rcases hg with rfl | hg
    · rw [packFields_cons, packFields_div hfs, Nat.mul_add_mod_of_lt hv]
    · rw [packFields_cons]
      exact ih hfs _ g hg

/-- Two words with the same widths are equal only if their fields are. -/
theorem packFields_inj {fs gs : List (ℕ × ℕ)} (hf : Fits fs) (hg : Fits gs)
    (hw : fs.map Prod.snd = gs.map Prod.snd) {acc : ℕ}
    (h : packFields acc fs = packFields acc gs) : fs = gs := by
  induction fs generalizing gs acc with
  | nil => cases gs with
    | nil => rfl
    | cons g gs => simp at hw
  | cons f fs ih =>
    cases gs with
    | nil => simp at hw
    | cons g gs =>
      obtain ⟨v, w⟩ := f
      obtain ⟨v', w'⟩ := g
      simp only [List.map_cons, List.cons.injEq] at hw
      obtain ⟨rfl, hw⟩ := hw
      have hfs := (fits_cons.1 hf).2
      have hgs := (fits_cons.1 hg).2
      have hW : totalWidth fs = totalWidth gs := congrArg List.sum hw
      simp only [packFields_cons] at h
      have hv : acc * 2 ^ w + v = acc * 2 ^ w + v' := by
        rw [← packFields_div_totalWidth hfs (acc * 2 ^ w + v), h, hW,
          packFields_div_totalWidth hgs]
      obtain rfl : v = v' := by omega
      rw [ih hfs hgs hw h]

end StarkPerpetual
