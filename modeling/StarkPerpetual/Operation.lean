import StarkPerpetual.Pack

/-!
# Operations and their canonical hash

What the encoders are for (§1, §3): the operation a user signs, each field within its declared
width, and its canonical hash, the two-to-one hash `H` folded over the operation's field elements
(§4.4). `Operation.message` lists those elements: the asset ids and keys as they are, then the small
fields packed into words, the last word carrying the operation's discriminant from bit 241 up.

For `H` injective on pairs the canonical hash is injective on valid operations
(`Operation.hash_injOn`), so the hash binds the whole operation, its kind included:
1. equal hashes have equal last words (`hashChain_append`), so equal discriminants
   (`lastWord_div`) and one kind;
2. messages of one kind have one length, so their elements are equal (`foldl_inj`);
3. each packed word gives back its fields (`packFields_inj`).
-/

namespace StarkPerpetual

/-! ## The hash chain -/

/-- The hash chain driver (§4.4) on field elements: `H(…H(H(a₁, a₂), a₃)…, aₙ)`. -/
def hashChain (H : ℕ → ℕ → ℕ) : List ℕ → ℕ
  | [] => 0
  | a :: as => as.foldl H a

section Chain

variable {H : ℕ → ℕ → ℕ}

/-- `H` is injective on pairs. -/
def InjectivePairs (H : ℕ → ℕ → ℕ) : Prop := ∀ a b c d, H a b = H c d → a = c ∧ b = d

theorem hashChain_append (xs : List ℕ) (hxs : xs ≠ []) (x : ℕ) :
    hashChain H (xs ++ [x]) = H (hashChain H xs) x := by
  obtain ⟨a, as, rfl⟩ := List.exists_cons_of_ne_nil hxs
  simp [hashChain]

/-- Folds of an injective `H` over lists of one length are equal only on equal inputs. -/
theorem foldl_inj (hH : InjectivePairs H) :
    ∀ {as bs : List ℕ} {a b : ℕ}, as.length = bs.length → as.foldl H a = bs.foldl H b →
      a = b ∧ as = bs
  | [], [], _, _, _, h => ⟨h, rfl⟩
  | x :: as, y :: bs, a, b, hl, h => by
    obtain ⟨hab, rfl⟩ := foldl_inj hH (Nat.succ.inj hl) h
    obtain ⟨rfl, rfl⟩ := hH _ _ _ _ hab
    exact ⟨rfl, rfl⟩

theorem hashChain_inj (hH : InjectivePairs H) {as bs : List ℕ} (hl : as.length = bs.length)
    (h : hashChain H as = hashChain H bs) : as = bs := by
  match as, bs, hl with
  | [], [], _ => rfl
  | a :: as, b :: bs, hl =>
    obtain ⟨rfl, rfl⟩ := foldl_inj hH (Nat.succ.inj hl) h
    rfl

end Chain

/-! ## Operations -/

/-- The four kinds of operation (§3, OperationDiscriminant). -/
inductive MessageKind
  | withdrawal
  | transfer
  | conditionalTransfer
  | limitOrder
  deriving DecidableEq, Repr

/-- The discriminant each kind packs at bit 241. -/
def MessageKind.discriminant : MessageKind → ℕ
  | withdrawal => 6
  | transfer => 4
  | conditionalTransfer => 5
  | limitOrder => 3

theorem MessageKind.discriminant_injective : Function.Injective MessageKind.discriminant := by
  intro k k' h
  cases k <;> cases k' <;> first | rfl | cases h

/-- An operation as its signer means it: the four kinds with the fields each one signs; a limit
order is given by its sides, after the direction remap. -/
inductive Operation
  | withdrawal (assetIdCollateral positionId nonce amount expirationTimestamp : ℕ)
  | transfer (assetId assetIdFee receiverPublicKey senderPositionId receiverPositionId
      srcFeePositionId nonce amount maxAmountFee expirationTimestamp : ℕ)
  | conditionalTransfer (assetId assetIdFee receiverPublicKey condition senderPositionId
      receiverPositionId srcFeePositionId nonce amount maxAmountFee expirationTimestamp : ℕ)
  | limitOrder (assetIdSell assetIdBuy assetIdFee amountSell amountBuy maxAmountFee nonce
      positionId expirationTimestamp : ℕ)
  deriving DecidableEq, Repr

namespace Operation

def kind : Operation → MessageKind
  | withdrawal .. => .withdrawal
  | transfer .. => .transfer
  | conditionalTransfer .. => .conditionalTransfer
  | limitOrder .. => .limitOrder

/-- Each field of the operation with its declared width (§4.2). -/
def fields : Operation → List (ℕ × ℕ)
  | withdrawal a p n am e => [(a, 250), (p, 64), (n, 32), (am, 64), (e, 32)]
  | transfer a f k s r src n am fee e =>
    [(a, 250), (f, 250), (k, 251), (s, 64), (r, 64), (src, 64), (n, 32), (am, 64), (fee, 64),
      (e, 32)]
  | conditionalTransfer a f k c s r src n am fee e =>
    [(a, 250), (f, 250), (k, 251), (c, 251), (s, 64), (r, 64), (src, 64), (n, 32), (am, 64),
      (fee, 64), (e, 32)]
  | limitOrder sell buy f asell abuy fee n pos e =>
    [(sell, 250), (buy, 250), (f, 250), (asell, 64), (abuy, 64), (fee, 64), (n, 32), (pos, 64),
      (e, 32)]

/-- Every field within its declared width. -/
def Valid (op : Operation) : Prop := Fits op.fields

instance : DecidablePred Valid := fun op => inferInstanceAs (Decidable (Fits op.fields))

/-- The word that carries the discriminant, with the fields packed below it (§4.5). -/
def lastWord : Operation → ℕ
  | withdrawal _ p n am e => packFields 6 [(p, 64), (n, 32), (am, 64), (e, 32)] * 2 ^ 49
  | transfer _ _ _ _ _ _ _ am fee e => packFields 4 [(am, 64), (fee, 64), (e, 32)] * 2 ^ 81
  | conditionalTransfer _ _ _ _ _ _ _ _ am fee e =>
    packFields 5 [(am, 64), (fee, 64), (e, 32)] * 2 ^ 81
  | limitOrder _ _ _ _ _ _ _ pos e =>
    packFields 3 [(pos, 64), (pos, 64), (pos, 64), (e, 32)] * 2 ^ 17

/-- The field elements before the last word, in the order the chain folds them. -/
def firstElements : Operation → List ℕ
  | withdrawal a .. => [a]
  | transfer a f k s r src n .. => [a, f, k, packFields s [(r, 64), (src, 64), (n, 32)]]
  | conditionalTransfer a f k c s r src n .. =>
    [a, f, k, c, packFields s [(r, 64), (src, 64), (n, 32)]]
  | limitOrder sell buy f asell abuy fee n .. =>
    [sell, buy, f, packFields asell [(abuy, 64), (fee, 64), (n, 32)]]

/-- The field elements of the operation, in the order the hash chain folds them. -/
def message (op : Operation) : List ℕ := op.firstElements ++ [op.lastWord]

/-- The canonical hash of the operation. -/
def hash (H : ℕ → ℕ → ℕ) (op : Operation) : ℕ := hashChain H op.message

theorem firstElements_ne_nil (op : Operation) : op.firstElements ≠ [] := by
  cases op <;> simp [firstElements]

theorem hash_eq (H : ℕ → ℕ → ℕ) (op : Operation) :
    op.hash H = H (hashChain H op.firstElements) op.lastWord :=
  hashChain_append _ op.firstElements_ne_nil _

/-- Messages of one kind have one length. -/
theorem length_message_of_kind {op op' : Operation} (h : op.kind = op'.kind) :
    op.message.length = op'.message.length := by
  cases op <;> cases op' <;> simp [kind, message, firstElements] at h ⊢

/-- The last word of a valid operation carries its discriminant from bit 241 up. -/
theorem lastWord_div {op : Operation} (hv : op.Valid) :
    op.lastWord / 2 ^ 241 = op.kind.discriminant := by
  cases op with
  | withdrawal => exact packFields_div (hv.drop 1) 6 49
  | transfer => exact packFields_div (hv.drop 7) 4 81
  | conditionalTransfer => exact packFields_div (hv.drop 8) 5 81
  | limitOrder => exact packFields_div (hv.mono (by simp [fields])) 3 17

/-- Words packed from one accumulator, with fields that fit, the same widths and the same
padding, are equal only if their fields are. -/
theorem word_inj {acc pad : ℕ} {fs gs : List (ℕ × ℕ)}
    (h : packFields acc fs * 2 ^ pad = packFields acc gs * 2 ^ pad) (hf : Fits fs) (hg : Fits gs)
    (hw : fs.map Prod.snd = gs.map Prod.snd) : fs = gs :=
  packFields_inj hf hg hw (Nat.eq_of_mul_eq_mul_right (by positivity) h)

/-- Words that start from a field rather than a discriminant. -/
theorem word_inj_cons (w : ℕ) {v v' : ℕ} {fs gs : List (ℕ × ℕ)}
    (h : packFields v fs = packFields v' gs) (hf : Fits ((v, w) :: fs))
    (hg : Fits ((v', w) :: gs)) (hw : fs.map Prod.snd = gs.map Prod.snd) : v = v' ∧ fs = gs := by
  rw [← packFields_zero_cons v w, ← packFields_zero_cons v' w] at h
  simpa using packFields_inj hf hg (by simp [hw]) h

/-- Valid operations of one kind with equal messages are equal. -/
theorem message_inj {op op' : Operation} (hv : op.Valid) (hv' : op'.Valid)
    (hk : op.kind = op'.kind) (h : op.message = op'.message) : op = op' := by
  cases op <;> cases op' <;> simp only [kind, reduceCtorEq] at hk <;>
    simp only [message, firstElements, lastWord, List.cons_append, List.nil_append,
      List.cons.injEq, and_true] at h
  case withdrawal.withdrawal =>
    obtain ⟨rfl, h1⟩ := h
    have := word_inj h1 (hv.drop 1) (hv'.drop 1) rfl
    simp only [List.cons.injEq, Prod.mk.injEq, and_true] at this
    obtain ⟨rfl, rfl, rfl, rfl⟩ := this
    rfl
  case transfer.transfer =>
    obtain ⟨rfl, rfl, rfl, h0, h1⟩ := h
    obtain ⟨rfl, e0⟩ := word_inj_cons 64 h0 ((hv.drop 3).take 4) ((hv'.drop 3).take 4) rfl
    have e1 := word_inj h1 (hv.drop 7) (hv'.drop 7) rfl
    simp only [List.cons.injEq, Prod.mk.injEq, and_true] at e0 e1
    obtain ⟨⟨rfl, rfl, rfl⟩, rfl, rfl, rfl⟩ := And.intro e0 e1
    rfl
  case conditionalTransfer.conditionalTransfer =>
    obtain ⟨rfl, rfl, rfl, rfl, h0, h1⟩ := h
    obtain ⟨rfl, e0⟩ := word_inj_cons 64 h0 ((hv.drop 4).take 4) ((hv'.drop 4).take 4) rfl
    have e1 := word_inj h1 (hv.drop 8) (hv'.drop 8) rfl
    simp only [List.cons.injEq, Prod.mk.injEq, and_true] at e0 e1
    obtain ⟨⟨rfl, rfl, rfl⟩, rfl, rfl, rfl⟩ := And.intro e0 e1
    rfl
  case limitOrder.limitOrder =>
    obtain ⟨rfl, rfl, rfl, h0, h1⟩ := h
    obtain ⟨rfl, e0⟩ := word_inj_cons 64 h0 ((hv.drop 3).take 4) ((hv'.drop 3).take 4) rfl
    -- the position id fills three of the four fields of the last word
    have e1 := word_inj h1 (hv.mono (by simp [fields])) (hv'.mono (by simp [fields])) rfl
    simp only [List.cons.injEq, Prod.mk.injEq, and_true] at e0 e1
    obtain ⟨⟨rfl, rfl, rfl⟩, rfl, -, -, rfl⟩ := And.intro e0 e1
    rfl

/-- For `H` injective on pairs the canonical hash binds the whole operation: valid operations with
equal hashes are equal. -/
theorem hash_injOn {H : ℕ → ℕ → ℕ} (hH : InjectivePairs H) {op op' : Operation}
    (hv : op.Valid) (hv' : op'.Valid) (h : op.hash H = op'.hash H) : op = op' := by
  have hlast := (hH _ _ _ _ ((hash_eq H op).symm.trans (h.trans (hash_eq H op')))).2
  have hk : op.kind = op'.kind := MessageKind.discriminant_injective <| by
    rw [← lastWord_div hv, ← lastWord_div hv', hlast]
  exact message_inj hv hv' hk (hashChain_inj hH (length_message_of_kind hk) h)

end Operation

end StarkPerpetual
