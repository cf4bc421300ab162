import Dittor.Registration.Issuance

/-!
# Issuance when some CAs are faulty

A threshold scheme is there to tolerate faulty signers: with `t` correct shares
among the replies the credential can be computed. `handleCredentialReply` does
not compute it from those. It aggregates once, the first time the map holds `t`
ids, whatever the shares are; a failed local check is only printed, and the
connection to the DA is opened all the same. One wrong share that comes early
is enough for a broken credential to be kept and registered
(`faulty_share_registered`).

`history` runs the user over any interleaving of replies and connections, and
`firstBatch` is the map at the moment of the aggregation: the shortest prefix
of the replies with `t` ids, a later share of the same id replacing an earlier
one. What the user ends up with is a function of that batch alone
(`history_waiting`), and `issue_eq` computes it: the right credential times the
errors of the shares, each to its Lagrange weight. `faulty_shares_tolerated_iff`
says that this is the only thing that matters.
-/

namespace Dittor.Registration

open Dittor.Lib Dittor.Crypto Dittor.Dkg Polynomial

/-- What can happen to a user that has started. -/
inductive UserEvent (p : ℕ) (G1 : Type) where
  | credentialReply (msg : CredentialReplyMsg G1)
  /-- With the draw of the linkage proof. -/
  | outConnectionUp (k : ZMod p) (target : Host)

/-- The replies among the events, in order. -/
def repliesOf {p : ℕ} {G1 : Type} (es : List (UserEvent p G1)) : List (CredentialReplyMsg G1) :=
  es.filterMap fun e =>
    match e with
    | .credentialReply msg => some msg
    | .outConnectionUp _ _ => none

/-- The shares of the shortest prefix with at least `t` ids, on top of `m`. -/
def firstBatch {G1 : Type} (t : ℕ) (m : AList fun _ : ℤ => G1) :
    List (CredentialReplyMsg G1) → Option (AList fun _ : ℤ => G1)
  | [] => none
  | msg :: rest =>
    let m := m.insert msg.caID msg.signatureShare
    if t ≤ m.keys.length then some m else firstBatch t m rest

section Definitions

variable {p : ℕ} {G1 G2 GT : Type} [CommGroup G1] [CommGroup G2] [CommGroup GT]
  (S : CryptimeleonSetup p G1 G2 GT)

/-- The handler of an event. -/
def UserState.react (s : UserState p G1 G2) : UserEvent p G1 → UserResult p G1 G2 GT
  | .credentialReply msg => s.handleCredentialReply msg
  | .outConnectionUp k target => s.onOutConnectionUp S k target

/-- The events one after the other: the state at the end and everything sent.
An exception ends its handler and nothing else. -/
def UserState.history (s : UserState p G1 G2) :
    List (UserEvent p G1) → UserState p G1 G2 × List (UserAction p G1 G2 GT)
  | [] => (s, [])
  | e :: es =>
    let o := s.react S e
    let rest := UserState.history o.state es
    (rest.1, o.sent ++ rest.2)

/-- What the aggregation makes of a batch. -/
def issue (u : User p) (mpkG1 : G1) (m : AList fun _ : ℤ => G1) : Option G1 :=
  (User.aggregateShares p (m.entries.map fun e => e.2) m.keys).map fun aggregated =>
    u.unblindSignature aggregated mpkG1

/-- Every registration among the sent messages carries the credential `c`. -/
def Carries (c : Option G1) (l : List (UserAction p G1 G2 GT)) : Prop :=
  ∀ target msg, .register target msg ∈ l → c = some msg.credential

variable [Fact p.Prime] (u : User p) (F : (ZMod p)[X])

/-- How far the share of CA `j` is from the correct one. -/
noncomputable def shareError (m : AList fun _ : ℤ => G1) (j : ℤ) : G1 :=
  (m.lookup j).getD 1 * ((replyOf S u F j).signatureShare)⁻¹

/-- The ids of the batch are distinct exponents and the errors of its shares
cancel: weighted as in the reconstruction, their product is `1`. -/
def Cancels (m : AList fun _ : ℤ => G1) : Prop :=
  User.IdsDistinct p m.keys
    ∧ (m.keys.map fun j => zpw (shareError S u F m j)
        (weightAtZero (m.keys.map fun i : ℤ => (i : ZMod p)) (j : ZMod p))).prod = 1

end Definitions

/-! ## The run of a user -/

section History

variable {p : ℕ} {G1 G2 GT : Type} [CommGroup G1] [CommGroup G2] [CommGroup GT]
  (S : CryptimeleonSetup p G1 G2 GT) {s : UserState p G1 G2} {c : Option G1}

omit [CommGroup G1] [CommGroup G2] [CommGroup GT] in
theorem Carries.append {l l' : List (UserAction p G1 G2 GT)} (h : Carries c l)
    (h' : Carries c l') : Carries c (l ++ l') := by
  intro target msg hmem
  rcases List.mem_append.mp hmem with hmem | hmem
  · exact h target msg hmem
  · exact h' target msg hmem

omit [CommGroup G1] [CommGroup G2] [CommGroup GT] in
theorem carries_openConnection (target : Option Host) :
    Carries c ([.openConnection target] : List (UserAction p G1 G2 GT)) := by
  intro _ _ hmem
  simp at hmem

/-- A connection changes nothing, and what goes out carries the user's credential. -/
theorem onOutConnectionUp_carries (s : UserState p G1 G2) (k : ZMod p) (target : Host) :
    (s.onOutConnectionUp S k target).state = s
      ∧ Carries s.credential (s.onOutConnectionUp S k target).sent := by
  unfold UserState.onOutConnectionUp UserState.sendRegistrationToDA
  split
  · split
    · exact ⟨rfl, fun _ _ hmem => by simp at hmem⟩
    next σ hσ =>
      split
      · exact ⟨rfl, fun _ _ hmem => by simp at hmem⟩
      next msg hmsg =>
        refine ⟨rfl, fun d msg' hmem => ?_⟩
        obtain ⟨-, rfl⟩ := UserAction.register.inj (List.mem_singleton.mp hmem)
        obtain ⟨-, hmsg'⟩ := honestRegistration_eq_some S hmsg
        rw [hσ, hmsg']
  · split
    · exact ⟨rfl, fun _ _ hmem => by simp at hmem⟩
    · exact ⟨rfl, fun _ _ hmem => by simp at hmem⟩

/-- After the aggregation the credential stays what it is. -/
theorem history_reached (es : List (UserEvent p G1)) :
    ∀ s : UserState p G1 G2, s.thresholdReached = true →
      (s.history S es).1.credential = s.credential
        ∧ Carries s.credential (s.history S es).2 := by
  induction es with
  | nil => intro s _; exact ⟨rfl, fun _ _ hmem => by simp [UserState.history] at hmem⟩
  | cons e es ih =>
    intro s hs
    cases e with
    | credentialReply msg =>
      have hreact : s.react S (.credentialReply msg)
          = { state := s.putShare msg.caID msg.signatureShare } := by
        show s.handleCredentialReply msg = _
        unfold UserState.handleCredentialReply
        dsimp only
        rw [if_neg]
        rintro ⟨-, hfalse⟩
        exact absurd (hs.symm.trans hfalse) (by simp)
      rw [UserState.history, hreact]
      exact ih (s.putShare msg.caID msg.signatureShare) hs
    | outConnectionUp k target =>
      obtain ⟨hstate, hsent⟩ := onOutConnectionUp_carries S s k target
      obtain ⟨hcred, hrest⟩ := ih s hs
      rw [UserState.history]
      dsimp only [UserState.react]
      rw [hstate]
      exact ⟨hcred, hsent.append hrest⟩

/-- **What the user ends up with** is a function of the first batch. -/
theorem history_waiting (es : List (UserEvent p G1)) :
    ∀ s : UserState p G1 G2, s.thresholdReached = false → s.credential = none →
      (s.history S es).1.credential
          = (firstBatch s.threshold s.receivedShares (repliesOf es)).bind
            (issue s.cryptoUser s.mpkG1)
        ∧ Carries ((firstBatch s.threshold s.receivedShares (repliesOf es)).bind
            (issue s.cryptoUser s.mpkG1)) (s.history S es).2 := by
  induction es with
  | nil =>
    intro s _ hc
    exact ⟨hc, fun _ _ hmem => by simp [UserState.history] at hmem⟩
  | cons e es ih =>
    intro s hs hc
    cases e with
    | outConnectionUp k target =>
      obtain ⟨hstate, hsent⟩ := onOutConnectionUp_carries S s k target
      obtain ⟨hcred, hrest⟩ := ih s hs hc
      rw [UserState.history]
      dsimp only [UserState.react]
      rw [hstate]
      refine ⟨hcred, Carries.append (fun d msg hmem => ?_) hrest⟩
      -- nothing is registered while there is no credential
      exact absurd (hc.symm.trans (hsent d msg hmem)) (by simp)
    | credentialReply msg =>
      have hreplies : repliesOf (.credentialReply msg :: es) = msg :: repliesOf es := rfl
      rw [hreplies, firstBatch, UserState.history]
      dsimp only [UserState.react]
      unfold UserState.handleCredentialReply
      dsimp only
      by_cases hfull : s.threshold
          ≤ (s.receivedShares.insert msg.caID msg.signatureShare).keys.length
      · rw [if_pos hfull, if_pos ⟨hfull, hs⟩, Option.bind_some]
        unfold issue
        dsimp only [UserState.putShare]
        cases hagg : User.aggregateShares p
            ((s.receivedShares.insert msg.caID msg.signatureShare).entries.map fun e => e.2)
            (s.receivedShares.insert msg.caID msg.signatureShare).keys with
        | none =>
          -- the exception leaves the flag set: no later batch is tried
          obtain ⟨hcred, hrest⟩ := history_reached S es
            { s.putShare msg.caID msg.signatureShare with thresholdReached := true } rfl
          refine ⟨hcred.trans hc, fun d m hmem => ?_⟩
          exact absurd (hc.symm.trans (hrest d m hmem)) (by simp)
        | some aggregated =>
          obtain ⟨hcred, hrest⟩ := history_reached S es
            { s.putShare msg.caID msg.signatureShare with
              thresholdReached := true
              credential := some (s.cryptoUser.unblindSignature aggregated s.mpkG1) } rfl
          exact ⟨hcred, (carries_openConnection s.daHost).append hrest⟩
      · rw [if_neg hfull, if_neg fun h => hfull h.1]
        exact ih (s.putShare msg.caID msg.signatureShare) hs hc

omit [CommGroup G1] in
/-- A batch holds `t` ids. -/
theorem firstBatch_length {t : ℕ} :
    ∀ {l : List (CredentialReplyMsg G1)} {m m' : AList fun _ : ℤ => G1},
      firstBatch t m l = some m' → t ≤ m'.keys.length := by
  intro l
  induction l with
  | nil => intro m m' h; simp [firstBatch] at h
  | cons msg l ih =>
    intro m m' h
    rw [firstBatch] at h
    split at h
    next hle =>
      rw [← Option.some.inj h]
      exact hle
    · exact ih h

end History

/-! ## What a batch aggregates to -/

section Aggregate

variable {p : ℕ} [Fact p.Prime] {G1 : Type} [CommGroup G1] {ids : List ℤ}

/-- The loop throws at an id whose weight has no denominator. -/
theorem aggregateLoop_throws (share : ℤ → G1) {i : ℤ}
    (h0 : (User.lagrange ids i : ZMod p × ZMod p).2 = 0) :
    ∀ (rest : List ℤ) (acc : G1), i ∈ rest →
      User.aggregateLoop p ids (rest.map share) rest acc = none := by
  intro rest
  induction rest with
  | nil => intro acc hi; simp at hi
  | cons j rest ih =>
    intro acc hi
    rw [List.map_cons, User.aggregateLoop]
    by_cases hij : i = j
    · subst hij
      rw [h0, znInv_zero]
      rfl
    · cases hinv : znInv (User.lagrange ids j : ZMod p × ZMod p).2 with
      | none => rfl
      | some inv =>
        rw [Option.bind_some]
        exact ih _ ((List.mem_cons.mp hi).resolve_left hij)

/-- Two ids that are the same exponent leave a weight without a denominator. -/
theorem lagrange_zero {i j : ℤ} (hj : j ∈ ids) (hij : i ≠ j)
    (hcast : (i : ZMod p) = (j : ZMod p)) :
    (User.lagrange ids i : ZMod p × ZMod p).2 = 0 := by
  unfold User.lagrange
  rw [User.lagrange_foldl]
  dsimp only
  rw [one_mul]
  refine List.prod_eq_zero (List.mem_map.mpr ⟨j, ?_, sub_eq_zero.mpr hcast⟩)
  exact List.mem_filter.mpr ⟨hj, by simpa using hij.symm⟩

/-- The values of a map, by its keys. -/
theorem values_eq_lookup (m : AList fun _ : ℤ => G1) :
    (m.entries.map fun e => e.2) = m.keys.map fun j => (m.lookup j).getD 1 := by
  refine values_eq_map fun {j v} hv => ?_
  rw [hv]
  rfl

/-- With two ids that are the same exponent nothing is issued. -/
theorem issue_eq_none {u : User p} {mpkG1 : G1} {m : AList fun _ : ℤ => G1}
    (h : ¬ User.IdsDistinct p m.keys) : issue u mpkG1 m = none := by
  unfold User.IdsDistinct at h
  push Not at h
  obtain ⟨i, hi, j, hj, hcast, hij⟩ := h
  unfold issue User.aggregateShares
  rw [values_eq_lookup, aggregateLoop_throws _ (lagrange_zero hj hij hcast) _ _ hi]
  rfl

variable [ExpGroup p G1] {G2 GT : Type} [CommGroup G2] [CommGroup GT]
  {S : CryptimeleonSetup p G1 G2 GT} {u : User p} {F : (ZMod p)[X]} {t : ℕ}

/-- **What is issued**: the right credential times the weighted errors. -/
theorem issue_eq {m : AList fun _ : ℤ => G1} (hF : F.degree < (t : WithBot ℕ))
    (hlen : t ≤ m.keys.length) (hd : User.IdsDistinct p m.keys) :
    issue u (zpw S.h1 (F.eval 0)) m
      = some (credentialOf S u F * (m.keys.map fun j => zpw (shareError S u F m j)
          (weightAtZero (m.keys.map fun i : ℤ => (i : ZMod p)) (j : ZMod p))).prod) := by
  obtain ⟨agg, hagg, hcred⟩ := aggregate_unblind (S := S) (u := u) hF m.keys_nodup hd hlen
  have hright := hagg
  unfold User.aggregateShares at hright
  rw [User.aggregateLoop_eq hd _ m.keys 1 fun _ h => h, one_mul, Option.some.injEq] at hright
  unfold issue User.aggregateShares
  rw [values_eq_lookup, User.aggregateLoop_eq hd _ m.keys 1 fun _ h => h, one_mul,
    Option.map_some]
  -- every share is the correct one times its error
  have hsplit : (m.keys.map fun j => zpw ((m.lookup j).getD 1)
        (weightAtZero (m.keys.map fun i : ℤ => (i : ZMod p)) (j : ZMod p))).prod
      = agg * (m.keys.map fun j => zpw (shareError S u F m j)
          (weightAtZero (m.keys.map fun i : ℤ => (i : ZMod p)) (j : ZMod p))).prod := by
    rw [← hright, ← List.prod_map_mul]
    congr 1
    refine List.map_congr_left fun j _ => ?_
    rw [← mul_zpw, shareError, mul_comm _ (_ * _), inv_mul_cancel_right]
  rw [hsplit, ← hcred]
  congr 1
  unfold User.unblindSignature
  exact mul_right_comm _ _ _

omit [ExpGroup p G1] in
/-- Correct shares have no errors to cancel. -/
theorem cancels_of_correct {m : AList fun _ : ℤ => G1} (hd : User.IdsDistinct p m.keys)
    (h : ∀ j ∈ m.keys, m.lookup j = some (replyOf S u F j).signatureShare) :
    Cancels S u F m := by
  refine ⟨hd, List.prod_eq_one fun x hx => ?_⟩
  obtain ⟨j, hj, rfl⟩ := List.mem_map.mp hx
  rw [shareError, h j hj, Option.getD_some, mul_inv_cancel, one_zpw]

variable [ExpGroup p GT] [DecidableEq GT]

/-- **The credential of a batch verifies** exactly when its errors cancel. -/
theorem issue_verifies_iff {m : AList fun _ : ℤ => G1} (hF : F.degree < (t : WithBot ℕ))
    (hlen : t ≤ m.keys.length) :
    (∃ σ, issue u (zpw S.h1 (F.eval 0)) m = some σ
        ∧ u.verifyCredential S σ (zpw S.pairing.g2 (F.eval 0)) S.pairing.g1 S.pairing.g2 = true)
      ↔ Cancels S u F m := by
  by_cases hd : User.IdsDistinct p m.keys
  · rw [issue_eq hF hlen hd]
    simp only [Option.some.injEq, exists_eq_left', u.verifyCredential_iff]
    rw [← credentialOf, mul_eq_left]
    exact ⟨fun h => ⟨hd, h⟩, fun h => h.2⟩
  · rw [issue_eq_none hd]
    constructor
    · rintro ⟨σ, hσ, -⟩
      exact absurd hσ (by simp)
    · exact fun h => absurd h.1 hd

/-- **When faulty CAs are tolerated.** Over every interleaving of replies and
connections: the user ends with a credential that verifies, and registers with
no other, if and only if there is a first batch and its errors cancel. -/
theorem faulty_shares_tolerated_iff (hF : F.degree < (t : WithBot ℕ)) (nodeId : Text)
    (familyIds : List Text) (cas : AList (fun _ : Host => ℤ)) (d : Host)
    (es : List (UserEvent p G1)) :
    let mpkG2 := zpw S.pairing.g2 (F.eval 0)
    let s := startedUser S u t (zpw S.h1 (F.eval 0)) mpkG2 nodeId familyIds cas d
    ((∃ σ, (s.history S es).1.credential = some σ
          ∧ u.verifyCredential S σ mpkG2 S.pairing.g1 S.pairing.g2 = true)
        ∧ ∀ target msg, .register target msg ∈ (s.history S es).2 →
          u.verifyCredential S msg.credential mpkG2 S.pairing.g1 S.pairing.g2 = true)
      ↔ ∃ m, firstBatch t ∅ (repliesOf es) = some m ∧ Cancels S u F m := by
  intro mpkG2 s
  obtain ⟨hcred, hcarries⟩ := history_waiting S es s rfl rfl
  rw [show s.threshold = t from rfl, show s.receivedShares = ∅ from rfl,
    show s.cryptoUser = u from rfl, show s.mpkG1 = zpw S.h1 (F.eval 0) from rfl] at hcred hcarries
  rw [hcred]
  cases hbatch : firstBatch t ∅ (repliesOf es) with
  | none => simp
  | some m =>
    rw [hbatch, Option.bind_some] at hcarries
    rw [Option.bind_some, issue_verifies_iff hF (firstBatch_length hbatch)]
    constructor
    · exact fun h => ⟨m, rfl, h.1⟩
    · rintro ⟨m', hm', hc⟩
      obtain rfl := Option.some.inj hm'
      refine ⟨hc, fun target msg hmem => ?_⟩
      obtain ⟨σ, hσ, hv⟩ := (issue_verifies_iff hF (firstBatch_length hbatch)).mpr hc
      have hsame : σ = msg.credential :=
        Option.some.inj (hσ.symm.trans (hcarries target msg hmem))
      rw [← hsame]
      exact hv

end Aggregate

/-! ## Two runs of a user that needs two shares -/

section Two

variable (η m : ZMod 5) (u : User 5)

/-- A user of the small groups, under the master secret `m`. -/
def twoShareUser : UserState 5 (Multiplicative (ZMod 5)) (Multiplicative (ZMod 5)) :=
  startedUser (productSetup 5 η) u 2 (zpw (productSetup 5 η).h1 m)
    (zpw (productSetup 5 η).pairing.g2 m) "node".toList [] ∅ ⟨"127.0.0.1", 1⟩

/-- Its local check. -/
def twoShareCheck (σ : Multiplicative (ZMod 5)) : Bool :=
  u.verifyCredential (productSetup 5 η) σ (zpw (productSetup 5 η).pairing.g2 m)
    (productSetup 5 η).pairing.g1 (productSetup 5 η).pairing.g2

/-- The reply of CA `j` for the polynomial with these coefficients. -/
def twoShareReply (coefficients : List (ZMod 5)) (j : ℤ) :
    CredentialReplyMsg (Multiplicative (ZMod 5)) where
  caID := j
  signatureShare := zpw (u.createBlindedCommit (productSetup 5 η).pairing.g1
    (productSetup 5 η).h1) (evaluatePolynomial coefficients j)

theorem replyOf_eq_twoShareReply (coefficients : List (ZMod 5)) (j : ℤ) :
    replyOf (productSetup 5 η) u (ofCoeffs coefficients) j
      = twoShareReply η u coefficients j := by
  unfold replyOf twoShareReply
  rw [evaluatePolynomial_eq]

end Two

/-- CAs 3 and 1 answer first; the wrong share of CA 2 comes too late to matter. -/
theorem faulty_shares_tolerated_three :
    (∃ σ, ((twoShareUser 2 3 ⟨1, 4⟩).history (productSetup 5 2)
          [.credentialReply (twoShareReply 2 ⟨1, 4⟩ [3, 2] 3),
            .credentialReply (twoShareReply 2 ⟨1, 4⟩ [3, 2] 1),
            .credentialReply ⟨2, 1⟩, .outConnectionUp 2 ⟨"127.0.0.1", 1⟩]).1.credential = some σ
        ∧ twoShareCheck 2 3 ⟨1, 4⟩ σ = true)
      ∧ ∀ target msg, .register target msg ∈
          ((twoShareUser 2 3 ⟨1, 4⟩).history (productSetup 5 2)
            [.credentialReply (twoShareReply 2 ⟨1, 4⟩ [3, 2] 3),
              .credentialReply (twoShareReply 2 ⟨1, 4⟩ [3, 2] 1),
              .credentialReply ⟨2, 1⟩, .outConnectionUp 2 ⟨"127.0.0.1", 1⟩]).2 →
        twoShareCheck 2 3 ⟨1, 4⟩ msg.credential = true := by
  have hdeg : (ofCoeffs [3, 2] : (ZMod 5)[X]).degree < ((2 : ℕ) : WithBot ℕ) :=
    degree_ofCoeffs_lt _
  have hbatch : firstBatch 2 ∅ [twoShareReply 2 ⟨1, 4⟩ [3, 2] 3,
      twoShareReply 2 ⟨1, 4⟩ [3, 2] 1, ⟨2, 1⟩]
        = some (((∅ : AList fun _ : ℤ => Multiplicative (ZMod 5)).insert 3
            (twoShareReply 2 ⟨1, 4⟩ [3, 2] 3).signatureShare).insert 1
            (twoShareReply 2 ⟨1, 4⟩ [3, 2] 1).signatureShare) := rfl
  have hzero : (ofCoeffs [3, 2] : (ZMod 5)[X]).eval 0 = 3 := eval_zero_ofCoeffs _
  have hiff := faulty_shares_tolerated_iff (S := productSetup 5 2) (u := ⟨1, 4⟩) hdeg
    "node".toList [] ∅ ⟨"127.0.0.1", 1⟩
    [.credentialReply (twoShareReply 2 ⟨1, 4⟩ [3, 2] 3),
      .credentialReply (twoShareReply 2 ⟨1, 4⟩ [3, 2] 1), .credentialReply ⟨2, 1⟩,
      .outConnectionUp 2 ⟨"127.0.0.1", 1⟩]
  rw [hzero] at hiff
  refine hiff.mpr ⟨_, hbatch, cancels_of_correct ?_ fun j hj => ?_⟩
  · exact User.idsDistinct_of_range (n := 3) (by decide) (by decide)
  · rw [replyOf_eq_twoShareReply]
    have hj' : j = 1 ∨ j = 3 := by
      rcases (AList.mem_insert _).mp (AList.mem_keys.mpr hj) with h | h
      · exact Or.inl h
      · exact Or.inr (((AList.mem_insert _).mp h).resolve_right (AList.notMem_empty j))
    rcases hj' with rfl | rfl
    · rfl
    · rfl

/-- **A faulty share is registered.** CAs 2 and 3 send correct shares, CA 1 a
wrong one first: the user keeps a credential that does not verify and sends it
to the DA. -/
theorem faulty_share_registered :
    ∃ es, (twoShareReply 2 ⟨1, 4⟩ [3, 2] 2 ∈ repliesOf es
        ∧ twoShareReply 2 ⟨1, 4⟩ [3, 2] 3 ∈ repliesOf es)
      ∧ (∃ σ, ((twoShareUser 2 3 ⟨1, 4⟩).history (productSetup 5 2) es).1.credential = some σ
        ∧ twoShareCheck 2 3 ⟨1, 4⟩ σ = false)
      ∧ ∃ target msg,
        .register target msg ∈ ((twoShareUser 2 3 ⟨1, 4⟩).history (productSetup 5 2) es).2
          ∧ twoShareCheck 2 3 ⟨1, 4⟩ msg.credential = false := by
  have hreg : (((twoShareUser 2 3 ⟨1, 4⟩).history (productSetup 5 2)
      [.credentialReply ⟨1, .ofAdd 1⟩, .credentialReply (twoShareReply 2 ⟨1, 4⟩ [3, 2] 2),
        .credentialReply (twoShareReply 2 ⟨1, 4⟩ [3, 2] 3),
        .outConnectionUp 2 ⟨"127.0.0.1", 1⟩]).2.any fun a =>
          match a with
          | .register _ msg => !twoShareCheck 2 3 ⟨1, 4⟩ msg.credential
          | _ => false) = true := by
    decide +kernel
  obtain ⟨action, hmem, hbad⟩ := List.any_eq_true.mp hreg
  refine ⟨[.credentialReply ⟨1, .ofAdd 1⟩, .credentialReply (twoShareReply 2 ⟨1, 4⟩ [3, 2] 2),
    .credentialReply (twoShareReply 2 ⟨1, 4⟩ [3, 2] 3), .outConnectionUp 2 ⟨"127.0.0.1", 1⟩],
    ⟨List.mem_cons_of_mem _ (List.mem_cons_self ..),
      List.mem_cons_of_mem _ (List.mem_cons_of_mem _ (List.mem_cons_self ..))⟩,
    ⟨1, by decide +kernel, by decide +kernel⟩, ?_⟩
  cases action with
  | register target msg => exact ⟨target, msg, hmem, by simpa using hbad⟩
  | _ => simp at hbad

end Dittor.Registration
