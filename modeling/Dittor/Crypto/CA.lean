import Dittor.Crypto.Group
import Dittor.Lib.Interpolation

/-!
# The cryptography of one certificate authority (`CA.java`)

Pedersen verifiable secret sharing with a hash-then-reveal step: a CA draws a
secret and a blinding polynomial, commits to their coefficients, publishes the
hash of the commitments before the commitments themselves, and hands every
peer the two values at that peer's id. `finalizeDKG` adds the shares of the
qualified CAs up and multiplies their public keys.

The Java fields that may still be `null` are `Option`s, and the three ways the
methods can throw are their `none` / error results: `get(0)` on an empty list
and a `null` operand. `evaluatePolynomial` and `verifyShare` keep the source's
running power; `evaluatePolynomial_eq` and `verifyShare_honest` say what the
loops compute, and nothing later unfolds them.
-/

namespace Dittor.Crypto

open Dittor.Lib

/-- The exceptions the modelled code can raise. -/
inductive JavaException where
  | nullPointer
  | indexOutOfBounds
  /-- `inv()` of zero -/
  | arithmetic
deriving DecidableEq, Repr

/-- What a CA publishes in the second round: `commitmentsG1`, `pubKeyG1` and
`pubKeyG2` of `DKGRevealMsg`. -/
structure Reveal (G1 G2 : Type) where
  /-- `C_k = g1^{a_k} h1^{b_k}` -/
  commitmentsG1 : List G1
  /-- `h1^{a_0}` -/
  pubKeyG1 : G1
  /-- `g2^{a_0}` -/
  pubKeyG2 : G2
deriving DecidableEq

/-- The two private polynomials, constant coefficient first. -/
structure Coefficients (p : ℕ) where
  secretCoefficients : List (ZMod p)
  blindingCoefficients : List (ZMod p)

/-- The fields of `CA.java`; `none` is the Java `null`. -/
structure CA (p : ℕ) (G1 G2 : Type) where
  coefficients : Option (Coefficients p) := none
  /-- `commitmentsG1`, `plainPubKeyG1` and `plainPubKeyG2`, set together. -/
  published : Option (Reveal G1 G2) := none
  secretKeyShare : Option (ZMod p) := none
  masterPubKeyG1 : Option G1 := none
  masterPubKeyG2 : Option G2 := none

section Code

variable {p : ℕ} {G1 G2 GT : Type} [CommGroup G1] [CommGroup G2] [CommGroup GT]
  (S : CryptimeleonSetup p G1 G2 GT)

/-- `generatePrivatePolynomial`: one draw for each polynomial and coefficient.
The draws of `getUniformlyRandomElement` are the arguments. -/
def generatePrivatePolynomial (threshold : ℕ) (secret blinding : ℕ → ZMod p) :
    Coefficients p where
  secretCoefficients := (List.range threshold).map secret
  blindingCoefficients := (List.range threshold).map blinding

/-- `computeCommitments`; `none` when `secretCoefficients.get(0)` throws. -/
def computeCommitments (c : Coefficients p) : Option (Reveal G1 G2) :=
  match c.secretCoefficients with
  | [] => none
  | a0 :: _ => some
    { commitmentsG1 := List.zipWith (fun a b => zpw S.pairing.g1 a * zpw S.h1 b)
        c.secretCoefficients c.blindingCoefficients
      pubKeyG1 := zpw S.h1 a0
      pubKeyG2 := zpw S.pairing.g2 a0 }

/-- The bytes `hashCommitments` feeds to SHA-256, in the order of the updates. -/
def hashInput (r : Reveal G1 G2) : List UInt8 :=
  r.commitmentsG1.flatMap S.codec.json1 ++ S.codec.json1 r.pubKeyG1
    ++ S.codec.json2 r.pubKeyG2

/-- `hashCommitments` -/
def hashCommitments (r : Reveal G1 G2) : Text := hexText (S.codec.sha256 (hashInput S r))

/-- `evaluatePolynomial`: the running result and the running power of `x`. -/
def evaluatePolynomial (coefficients : List (ZMod p)) (recipientCaID : ℤ) : ZMod p :=
  (coefficients.foldl (runningPower (recipientCaID : ZMod p)) (0, 1)).1

/-- The right-hand side of `verifyShare`: `∏ C_k ^ (x^k)`. -/
def commitmentProduct (senderCommitments : List G1) (myID : ℤ) : G1 :=
  (senderCommitments.foldl
    (fun acc c => (acc.1 * zpw c acc.2, acc.2 * (myID : ZMod p)))
    ((1 : G1), (1 : ZMod p))).1

/-- `verifyShare`; `none` when `senderCommitments.get(0)` throws. -/
def verifyShare [DecidableEq G1] (s_ij t_ij : ZMod p) (senderCommitments : List G1)
    (myID : ℤ) : Option Bool :=
  match senderCommitments with
  | [] => none
  | _ => some (decide (zpw S.pairing.g1 s_ij * zpw S.h1 t_ij
      = commitmentProduct (p := p) senderCommitments myID))

/-- The loop of `finalizeDKG` over one of its lists: the running value, and
whether the end was reached without a `null` element. -/
def accumulate {α : Type} (op : α → α → α) : α → List (Option α) → α × Bool
  | acc, [] => (acc, true)
  | acc, none :: _ => (acc, false)
  | acc, some x :: xs => accumulate op (op acc x) xs

/-- One of the two key loops of `finalizeDKG`: the product assigned to the
field (`none` when `get(0)` or its `getStructure()` throws before the first
assignment), and the exception. -/
def multiplyKeys {G : Type} [CommGroup G] :
    List (Option G) → Option G × Option JavaException
  | [] => (none, some .indexOutOfBounds)
  | none :: _ => (none, some .nullPointer)
  | some pk :: pks =>
    match accumulate (· * ·) 1 (some pk :: pks) with
    | (mpk, true) => (some mpk, none)
    | (mpk, false) => (some mpk, some .nullPointer)

/-- `finalizeDKG`. The fields keep what was assigned before an exception. -/
def CA.finalizeDKG (ca : CA p G1 G2) (receivedShares : List (Option (ZMod p)))
    (pkG1s : List (Option G1)) (pkG2s : List (Option G2)) :
    CA p G1 G2 × Option JavaException :=
  match accumulate (· + ·) 0 receivedShares with
  | (share, false) => ({ ca with secretKeyShare := some share }, some .nullPointer)
  | (share, true) =>
    match multiplyKeys pkG1s with
    | (mpk1, some e) =>
      ({ ca with secretKeyShare := some share, masterPubKeyG1 := mpk1 <|> ca.masterPubKeyG1 },
        some e)
    | (mpk1, none) =>
      match multiplyKeys pkG2s with
      | (mpk2, some e) =>
        ({ ca with secretKeyShare := some share, masterPubKeyG1 := mpk1,
                   masterPubKeyG2 := mpk2 <|> ca.masterPubKeyG2 }, some e)
      | (mpk2, none) =>
        -- the private polynomials are dropped once the keys are set
        ({ ca with secretKeyShare := some share, masterPubKeyG1 := mpk1,
                   masterPubKeyG2 := mpk2, coefficients := none }, none)

/-- `issueSignatureShare`; `none` when the key share is still `null`. -/
def CA.issueSignatureShare (ca : CA p G1 G2) (blindedCommit : G1) : Option G1 :=
  ca.secretKeyShare.map fun k => zpw blindedCommit k

end Code

section Inversion

variable {p : ℕ} {G1 G2 GT : Type} [CommGroup G1] [CommGroup G2] [CommGroup GT]
  (S : CryptimeleonSetup p G1 G2 GT)

theorem computeCommitments_isSome {c : Coefficients p} (h : c.secretCoefficients ≠ []) :
    ∃ r, computeCommitments S c = some r := by
  unfold computeCommitments
  split
  · next h' => exact absurd h' h
  · exact ⟨_, rfl⟩

theorem computeCommitments_eq {c : Coefficients p} {r : Reveal G1 G2}
    (h : computeCommitments S c = some r) :
    r.commitmentsG1 = List.zipWith (fun a b => zpw S.pairing.g1 a * zpw S.h1 b)
        c.secretCoefficients c.blindingCoefficients
      ∧ r.pubKeyG1 = zpw S.h1 (c.secretCoefficients.headD 0)
      ∧ r.pubKeyG2 = zpw S.pairing.g2 (c.secretCoefficients.headD 0)
      ∧ c.secretCoefficients ≠ [] := by
  unfold computeCommitments at h
  split at h
  · exact absurd h (by simp)
  · next a0 as hs =>
    simp only [Option.some.injEq] at h
    subst h
    rw [hs]
    exact ⟨rfl, rfl, rfl, by simp⟩

/-- What a passed check says: the share opens the product of the sender's
commitments. -/
theorem verifyShare_iff [DecidableEq G1] {s t : ZMod p} {C : List G1} {k : ℤ} :
    verifyShare S s t C k = some true ↔
      C ≠ [] ∧ zpw S.pairing.g1 s * zpw S.h1 t = commitmentProduct (p := p) C k := by
  unfold verifyShare
  split
  · simp
  · next h =>
    rw [Option.some.injEq, decide_eq_true_eq]
    exact ⟨fun h' => ⟨h, h'⟩, fun h' => h'.2⟩

/-- The share check itself throws on an empty list only. -/
theorem verifyShare_ne_none [DecidableEq G1] {s t : ZMod p} {C : List G1} {k : ℤ}
    (hC : C ≠ []) : verifyShare S s t C k ≠ none := by
  unfold verifyShare
  split
  · next h => exact absurd rfl hC
  · simp

end Inversion

section Lemmas

variable {p : ℕ} [Fact p.Prime] {G1 G2 GT : Type} [CommGroup G1] [CommGroup G2]
  [CommGroup GT] [ExpGroup p G1] (S : CryptimeleonSetup p G1 G2 GT)

/-- The polynomial of a coefficient list at an id. -/
theorem evaluatePolynomial_eq (l : List (ZMod p)) (k : ℤ) :
    evaluatePolynomial l k = (ofCoeffs l).eval (k : ZMod p) :=
  runningPower_eq _ l

/-- The commitment loop on Pedersen commitments, from any accumulator: both
polynomials move into the exponents. -/
theorem commitmentProduct_foldl (g h : G1) (x : ZMod p) :
    ∀ (as bs : List (ZMod p)) (acc : G1 × ZMod p), as.length = bs.length →
      ((List.zipWith (fun a b => zpw g a * zpw h b) as bs).foldl
          (fun acc c => (acc.1 * zpw c acc.2, acc.2 * x)) acc).1
        = acc.1 * (zpw g (acc.2 * (ofCoeffs as).eval x)
          * zpw h (acc.2 * (ofCoeffs bs).eval x)) := by
  intro as
  induction as with
  | nil =>
    intro bs acc hlen
    have hbs : bs = [] := List.length_eq_zero_iff.mp hlen.symm
    subst hbs
    simp
  | cons a as ih =>
    intro bs acc hlen
    cases bs with
    | nil => simp at hlen
    | cons b bs =>
      rw [List.zipWith_cons_cons, List.foldl_cons, ih bs _ (by simpa using hlen),
        eval_ofCoeffs_cons, eval_ofCoeffs_cons]
      rw [mul_zpw, ← zpw_mul, ← zpw_mul]
      rw [show acc.2 * (a + x * (ofCoeffs as).eval x)
          = a * acc.2 + acc.2 * x * (ofCoeffs as).eval x by ring,
        show acc.2 * (b + x * (ofCoeffs bs).eval x)
          = b * acc.2 + acc.2 * x * (ofCoeffs bs).eval x by ring,
        zpw_add, zpw_add]
      simp only [mul_assoc, mul_left_comm]

/-- The right-hand side of the share check, for commitments to `as` and `bs`. -/
theorem commitmentProduct_eq (g h : G1) (as bs : List (ZMod p)) (hlen : as.length = bs.length)
    (k : ℤ) :
    commitmentProduct (p := p) (List.zipWith (fun a b => zpw g a * zpw h b) as bs) k
      = zpw g (evaluatePolynomial as k) * zpw h (evaluatePolynomial bs k) := by
  rw [commitmentProduct, commitmentProduct_foldl g h _ as bs _ hlen, one_mul, one_mul, one_mul,
    evaluatePolynomial_eq, evaluatePolynomial_eq]

/-- **Honest shares verify**: the values of the two polynomials at the
receiver's id pass `verifyShare` against their own commitments. -/
theorem verifyShare_honest [DecidableEq G1] {c : Coefficients p} {r : Reveal G1 G2}
    (hr : computeCommitments S c = some r)
    (hlen : c.secretCoefficients.length = c.blindingCoefficients.length) (k : ℤ) :
    verifyShare S (evaluatePolynomial c.secretCoefficients k)
      (evaluatePolynomial c.blindingCoefficients k) r.commitmentsG1 k = some true := by
  obtain ⟨hC, -, -, hne⟩ := computeCommitments_eq S hr
  have hCne : r.commitmentsG1 ≠ [] := by
    rw [hC]
    intro h0
    have hl := congrArg List.length h0
    rw [List.length_zipWith, hlen, Nat.min_self, List.length_nil] at hl
    exact hne (List.length_eq_zero_iff.mp (hlen.trans hl))
  unfold verifyShare
  split
  · next h0 => exact absurd h0 hCne
  · rw [hC, commitmentProduct_eq _ _ _ _ hlen]
    simp

/-- The left-hand side of the share check, with `h1 = g1^θ`. -/
theorem pedersen_eq {θ : ZMod p} (hθ : S.h1 = zpw S.pairing.g1 θ) (s t : ZMod p) :
    zpw S.pairing.g1 s * zpw S.h1 t = zpw S.pairing.g1 (s + θ * t) := by
  rw [hθ, zpw_add, zpw_mul]

/-- **What the share check decides**, on commitments to two polynomials of one
length: the Pedersen exponent of the pair is that of the polynomials' values. -/
theorem verifyShare_commitments_iff [DecidableEq G1] {c : Coefficients p} {r : Reveal G1 G2}
    {θ : ZMod p} (hθ : S.h1 = zpw S.pairing.g1 θ) (hr : computeCommitments S c = some r)
    (hlen : c.secretCoefficients.length = c.blindingCoefficients.length) (s t : ZMod p) (k : ℤ) :
    verifyShare S s t r.commitmentsG1 k = some true ↔
      s + θ * t = (ofCoeffs c.secretCoefficients).eval (k : ZMod p)
        + θ * (ofCoeffs c.blindingCoefficients).eval (k : ZMod p) := by
  have hne : r.commitmentsG1 ≠ [] := ((verifyShare_iff S).mp (verifyShare_honest S hr hlen k)).1
  obtain ⟨hC, -⟩ := computeCommitments_eq S hr
  rw [verifyShare_iff, and_iff_right hne, hC, commitmentProduct_eq _ _ _ _ hlen, pedersen_eq S hθ,
    pedersen_eq S hθ, zpw_inj S.pairing.g1_ne_one, evaluatePolynomial_eq, evaluatePolynomial_eq]

/-- **Share verification characterises correct shares.** For two polynomials of a
common length, `h1 = g1^θ` and any receiver: a pair passes against their
commitments iff it has the Pedersen exponent of the values; the pair the dealer
evaluates passes; and any other accepted pair gives `θ` away by a division. Of no
coefficients at all `computeCommitments` makes no commitments, it throws. -/
theorem verifyShare_characterises [DecidableEq G1] {θ : ZMod p}
    (hθ : S.h1 = zpw S.pairing.g1 θ) (c : Coefficients p)
    (hlen : c.secretCoefficients.length = c.blindingCoefficients.length) :
    (c.secretCoefficients = [] ∧ computeCommitments S c = none)
      ∨ ∃ r, computeCommitments S c = some r ∧ ∀ j : ℤ,
        let f := (ofCoeffs c.secretCoefficients).eval (j : ZMod p)
        let f' := (ofCoeffs c.blindingCoefficients).eval (j : ZMod p)
        (∀ s t, verifyShare S s t r.commitmentsG1 j = some true ↔ s + θ * t = f + θ * f')
          ∧ verifyShare S (evaluatePolynomial c.secretCoefficients j)
            (evaluatePolynomial c.blindingCoefficients j) r.commitmentsG1 j = some true
          ∧ ∀ s t, verifyShare S s t r.commitmentsG1 j = some true → s ≠ f →
            f' - t ≠ 0 ∧ θ = (s - f) / (f' - t) := by
  by_cases hnil : c.secretCoefficients = []
  · left
    refine ⟨hnil, ?_⟩
    unfold computeCommitments
    rw [hnil]
  right
  obtain ⟨r, hr⟩ := computeCommitments_isSome S hnil
  refine ⟨r, hr, ?_⟩
  intro j f f'
  refine ⟨fun s t => verifyShare_commitments_iff S hθ hr hlen s t j,
    verifyShare_honest S hr hlen j, ?_⟩
  intro s t hacc hs
  have hexp : s - f = θ * (f' - t) := by
    have h := (verifyShare_commitments_iff S hθ hr hlen s t j).mp hacc
    rw [mul_sub, sub_eq_sub_iff_add_eq_add, h, add_comm]
  -- with `t = f'(j)` the first component would be right as well
  have ht : f' - t ≠ 0 := by
    intro h0
    rw [h0, mul_zero] at hexp
    exact hs (sub_eq_zero.mp hexp)
  exact ⟨ht, (eq_div_iff ht).mpr hexp.symm⟩

end Lemmas

/-- `f = 1 + 2X` and `f' = 3` over `ZMod 5` with `h1 = g1^2`, receiver 4: the values
are 4 and 3. The pair (2, 4) passes as well, and `(2 - 4) / (3 - 4)` is 2. -/
theorem verifyShare_gives_two_away :
    ∃ r, computeCommitments (productSetup 5 2) ⟨[1, 2], [3, 0]⟩ = some r
      ∧ verifyShare (productSetup 5 2) 4 3 r.commitmentsG1 4 = some true
      ∧ verifyShare (productSetup 5 2) 2 4 r.commitmentsG1 4 = some true
      ∧ (2 : ZMod 5) = (2 - 4) / (3 - 4) := by
  obtain ⟨hnil, -⟩ | ⟨r, hr, h⟩ := verifyShare_characterises (productSetup 5 2) (θ := 2)
    (by decide) ⟨[1, 2], [3, 0]⟩ rfl
  · exact absurd hnil (by decide)
  have hf : (ofCoeffs [1, 2]).eval ((4 : ℤ) : ZMod 5) = 4 := by
    simp only [eval_ofCoeffs_cons, eval_ofCoeffs_nil]
    decide
  have hf' : (ofCoeffs [3, 0]).eval ((4 : ℤ) : ZMod 5) = 3 := by
    simp only [eval_ofCoeffs_cons, eval_ofCoeffs_nil]
    decide
  obtain ⟨hiff, hhonest, hgives⟩ := h 4
  simp only [hf, hf'] at hiff hgives
  have hacc : verifyShare (productSetup 5 2) 2 4 r.commitmentsG1 4 = some true :=
    (hiff 2 4).mpr (by decide)
  exact ⟨r, hr, hhonest, hacc, (hgives 2 4 hacc (by decide)).2⟩

section Finalize

/-- Without a `null` element the loop folds the whole list. -/
theorem accumulate_some {α : Type} (op : α → α → α) :
    ∀ (l : List α) (acc : α), accumulate op acc (l.map some) = (l.foldl op acc, true) := by
  intro l
  induction l with
  | nil => intro acc; rfl
  | cons x xs ih => intro acc; exact ih (op acc x)

theorem multiplyKeys_some {G : Type} [CommGroup G] {l : List G} (h : l ≠ []) :
    multiplyKeys (l.map some) = (some l.prod, none) := by
  cases l with
  | nil => exact absurd rfl h
  | cons x xs =>
    have hfold : accumulate (· * ·) 1 ((x :: xs).map some) = ((x :: xs).prod, true) := by
      rw [accumulate_some, List.prod_eq_foldl]
    rw [List.map_cons] at hfold ⊢
    simp only [multiplyKeys, hfold]

variable {p : ℕ} {G1 G2 : Type} [CommGroup G1] [CommGroup G2]

/-- `finalizeDKG` on complete lists: the key share is the sum of the shares and
the master keys are the products of the public keys. -/
theorem finalizeDKG_some (ca : CA p G1 G2) {shares : List (ZMod p)} {pk1 : List G1}
    {pk2 : List G2} (h1 : pk1 ≠ []) (h2 : pk2 ≠ []) :
    ca.finalizeDKG (shares.map some) (pk1.map some) (pk2.map some)
      = ({ ca with secretKeyShare := some shares.sum, masterPubKeyG1 := some pk1.prod,
                   masterPubKeyG2 := some pk2.prod, coefficients := none }, none) := by
  have hsum : accumulate (· + ·) 0 (shares.map some) = (shares.sum, true) := by
    rw [accumulate_some, List.sum_eq_foldl]
  simp only [CA.finalizeDKG, hsum, multiplyKeys_some h1, multiplyKeys_some h2]

/-- A loop that reaches the end met no `null`. -/
theorem accumulate_true {α : Type} {op : α → α → α} :
    ∀ {l : List (Option α)} {acc r : α}, accumulate op acc l = (r, true) →
      ∃ l' : List α, l = l'.map some ∧ r = l'.foldl op acc := by
  intro l
  induction l with
  | nil =>
    intro acc r h
    exact ⟨[], rfl, (Prod.mk.inj h).1.symm⟩
  | cons x xs ih =>
    intro acc r h
    cases x with
    | none => simp [accumulate] at h
    | some x =>
      obtain ⟨l', hl, hr⟩ := ih h
      exact ⟨x :: l', by rw [hl]; rfl, hr⟩

theorem multiplyKeys_ok {G : Type} [CommGroup G] {l : List (Option G)} {x : Option G}
    (h : multiplyKeys l = (x, none)) : ∃ l' : List G, l = l'.map some ∧ x = some l'.prod := by
  unfold multiplyKeys at h
  split at h
  · simp at h
  · simp at h
  · split at h
    next mpk hacc =>
      obtain ⟨l', hl, hr⟩ := accumulate_true hacc
      refine ⟨l', hl, ?_⟩
      rw [← (Prod.mk.inj h).1, hr, List.prod_eq_foldl]
    · simp at h

/-- **A `finalizeDKG` that returns** has met no `null`: the keys are the sum and
the products of its whole lists. -/
theorem finalizeDKG_ok {ca ca' : CA p G1 G2} {a : List (Option (ZMod p))}
    {b : List (Option G1)} {c : List (Option G2)} (h : ca.finalizeDKG a b c = (ca', none)) :
    ∃ (a' : List (ZMod p)) (b' : List G1) (c' : List G2),
      (a = a'.map some ∧ b = b'.map some ∧ c = c'.map some)
      ∧ ca'.secretKeyShare = some a'.sum ∧ ca'.masterPubKeyG1 = some b'.prod
      ∧ ca'.masterPubKeyG2 = some c'.prod := by
  unfold CA.finalizeDKG at h
  split at h
  · simp at h
  next share hacc =>
    split at h
    · simp at h
    next mpk1 h1 =>
      split at h
      · simp at h
      next mpk2 h2 =>
        obtain ⟨a', ha, hs⟩ := accumulate_true hacc
        obtain ⟨b', hb, hb'⟩ := multiplyKeys_ok h1
        obtain ⟨c', hc, hc'⟩ := multiplyKeys_ok h2
        refine ⟨a', b', c', ⟨ha, hb, hc⟩, ?_⟩
        rw [← (Prod.mk.inj h).1]
        exact ⟨by rw [hs, List.sum_eq_foldl], hb', hc'⟩

end Finalize

end Dittor.Crypto
