import Dittor.Registration.Protocol
import Dittor.Dkg.Honest

/-!
# Issuing a credential end to end

The CAs share a polynomial `F`: CA `j` holds `F(j)` and the master keys are
`h1^{F(0)}` and `g2^{F(0)}`. A user with secret `x` and blinding `r` has the
commitment `C = g1^x h1^r` signed by each of them.

The user's side is a run of `handleCredentialReply` over the replies in the
order they arrive. `Collecting` is what holds after every reply: the map holds
the shares of the CAs that answered, the threshold flag is set exactly when
enough of them did, and once it is set the credential is `g1^{x F(0)}`. One
reply keeps it (`Collecting.reply`), so a whole run does (`collecting_replies`),
and with `threshold` distinct ids among the arrivals the credential is there.

`issuance_after_dkg` closes the loop with the key generation: the replies of
CAs that finished an honest run are of this form, with `F` the sum of the
polynomials they drew.
-/

namespace Dittor.Registration

open Dittor.Lib Dittor.Crypto Dittor.Dkg Polynomial

section Collect

variable {p : ℕ} [Fact p.Prime] {G1 G2 GT : Type} [CommGroup G1] [CommGroup G2]
  [CommGroup GT] (S : CryptimeleonSetup p G1 G2 GT) (u : User p) (F : (ZMod p)[X])

/-- The reply of CA `j`: the commitment of the user signed with `F(j)`. -/
noncomputable def replyOf (j : ℤ) : CredentialReplyMsg G1 where
  caID := j
  signatureShare := zpw (u.createBlindedCommit S.pairing.g1 S.h1) (F.eval (j : ZMod p))

/-- The credential the shares are to combine to. -/
noncomputable def credentialOf : G1 := zpw S.pairing.g1 (u.secretX * F.eval 0)

/-- The state of a user that started at `s₀` and has received the replies of the
ids in `seen`. -/
structure Collecting (t : ℕ) (s₀ : UserState p G1 G2) (seen : List ℤ) (s : UserState p G1 G2) :
    Prop where
  user : s.cryptoUser = u
  threshold : s.threshold = t
  mpkG1 : s.mpkG1 = zpw S.h1 (F.eval 0)
  kept : s.daHost = s₀.daHost ∧ s.nodeId = s₀.nodeId ∧ s.familyIds = s₀.familyIds
  keys : ∀ j, j ∈ s.receivedShares ↔ j ∈ seen
  shares : ∀ {j v}, s.receivedShares.lookup j = some v → v = (replyOf S u F j).signatureShare
  waiting : s.thresholdReached = false → s.receivedShares.keys.length < t ∨ seen = []
  issued : s.thresholdReached = true → s.credential = some (credentialOf S u F)

variable {S u F} {t n : ℕ} {seen : List ℤ} {s₀ s : UserState p G1 G2}

omit [Fact p.Prime] [CommGroup G1] in
/-- The two lists handed to `aggregateShares`. -/
theorem values_eq_map {m : AList (fun _ : ℤ => G1)} {share : ℤ → G1}
    (h : ∀ {j v}, m.lookup j = some v → v = share j) :
    m.entries.map (fun e => e.2) = m.keys.map share := by
  show m.entries.map (fun e => e.2) = (m.entries.map Sigma.fst).map share
  rw [List.map_map]
  apply List.map_congr_left
  rintro ⟨j, v⟩ hmem
  exact h (AList.mem_lookup_iff.mpr hmem)

/-- Once `t` shares of the polynomial are in, they combine to the credential. -/
theorem aggregate_unblind [ExpGroup p G1] (hF : F.degree < (t : WithBot ℕ)) {ids : List ℤ}
    (hnd : ids.Nodup) (hd : User.IdsDistinct p ids) (ht : t ≤ ids.length) :
    ∃ agg, User.aggregateShares p (ids.map fun j => (replyOf S u F j).signatureShare) ids = some agg
      ∧ u.unblindSignature agg (zpw S.h1 (F.eval 0)) = credentialOf S u F := by
  have hdeg : F.degree < (ids.length : WithBot ℕ) := lt_of_lt_of_le hF (by exact_mod_cast ht)
  exact ⟨_, User.aggregateShares_recover hd hnd hdeg _, u.unblindSignature_eq _ _ _⟩

/-- One reply. No exception is thrown: the ids in the map are distinct mod `p`. -/
theorem Collecting.reply [ExpGroup p G1] (hF : F.degree < (t : WithBot ℕ)) (hn : n < p)
    (h : Collecting S u F t s₀ seen s) (hseen : ∀ i ∈ seen, 1 ≤ i ∧ i ≤ n) {j : ℤ}
    (hj : 1 ≤ j ∧ j ≤ n) :
    ((s.handleCredentialReply (replyOf S u F j) : UserResult p G1 G2 GT).thrown = none)
      ∧ Collecting S u F t s₀ (j :: seen)
        (s.handleCredentialReply (replyOf S u F j) : UserResult p G1 G2 GT).state := by
  have hkeys : ∀ i, i ∈ s.receivedShares.insert j (replyOf S u F j).signatureShare ↔
      i ∈ j :: seen := by
    intro i
    rw [AList.mem_insert, List.mem_cons, h.keys]
  have hshares : ∀ {i v},
      (s.receivedShares.insert j (replyOf S u F j).signatureShare).lookup i = some v →
        v = (replyOf S u F i).signatureShare := by
    intro i v hv
    by_cases hij : i = j
    · subst hij
      rw [AList.lookup_insert] at hv
      exact (Option.some.inj hv).symm
    · rw [AList.lookup_insert_ne hij] at hv
      exact h.shares hv
  unfold UserState.handleCredentialReply UserState.putShare
  dsimp only
  split
  next hcond =>
    -- the map now holds enough shares: they are aggregated
    obtain ⟨hsize, -⟩ := hcond
    rw [show (replyOf S u F j).caID = j from rfl] at hsize ⊢
    have hrange : ∀ i ∈ (s.receivedShares.insert j (replyOf S u F j).signatureShare).keys,
        1 ≤ i ∧ i ≤ n := by
      intro i hi
      rcases List.mem_cons.mp ((hkeys i).mp hi) with rfl | hi'
      · exact hj
      · exact hseen i hi'
    obtain ⟨agg, hagg, hcred⟩ := aggregate_unblind (S := S) (u := u) hF
      (AList.keys_nodup _) (User.idsDistinct_of_range hn hrange) (h.threshold ▸ hsize)
    rw [values_eq_map hshares, hagg]
    refine ⟨rfl, h.user, h.threshold, h.mpkG1, h.kept, hkeys, hshares, ?_, ?_⟩
    · intro hfalse
      simp at hfalse
    · intro _
      dsimp only
      rw [h.user, h.mpkG1, hcred]
  next hcond =>
    refine ⟨rfl, h.user, h.threshold, h.mpkG1, h.kept, hkeys, hshares, ?_, h.issued⟩
    intro hfalse
    rw [not_and] at hcond
    rw [show (replyOf S u F j).caID = j from rfl] at hcond
    refine .inl (not_le.mp fun hle => hcond ?_ hfalse)
    rw [h.threshold]
    exact hle

/-- A run of replies, from any state of the collection. -/
theorem collecting_replies [ExpGroup p G1] (hF : F.degree < (t : WithBot ℕ)) (hn : n < p) :
    ∀ (arrivals seen : List ℤ) (s : UserState p G1 G2) (l : List (UserAction p G1 G2 GT)),
      Collecting S u F t s₀ seen s → (∀ i ∈ seen, 1 ≤ i ∧ i ≤ n) →
      (∀ i ∈ arrivals, 1 ≤ i ∧ i ≤ n) →
      let o := (arrivals.map (replyOf S u F)).foldl
        (fun o msg => o.andThen fun s => s.handleCredentialReply msg) (Outcome.mk s l none)
      o.thrown = none ∧ Collecting S u F t s₀ (arrivals.reverse ++ seen) o.state := by
  intro arrivals
  induction arrivals with
  | nil => intro seen s l h _ _; exact ⟨rfl, h⟩
  | cons j rest ih =>
    intro seen s l h hseen harr
    have hj := harr j List.mem_cons_self
    obtain ⟨hthrown, hstep⟩ := h.reply hF hn hseen hj
    have hseen' : ∀ i ∈ j :: seen, 1 ≤ i ∧ i ≤ n := by
      intro i hi
      rcases List.mem_cons.mp hi with rfl | hi'
      · exact hj
      · exact hseen i hi'
    have hrest := ih (j :: seen) _
      (l ++ (s.handleCredentialReply (replyOf S u F j) : UserResult p G1 G2 GT).sent) hstep hseen'
      fun i hi => harr i (List.mem_cons_of_mem j hi)
    rw [List.map_cons, List.foldl_cons, Outcome.andThen_ok, List.reverse_cons, List.append_assoc]
    rw [show ∀ o : UserResult p G1 G2 GT, { o with sent := l ++ o.sent }
        = Outcome.mk o.state (l ++ o.sent) o.thrown from fun _ => rfl, hthrown]
    exact hrest

/-- A run over at least `t` distinct ids leaves the user with the credential. -/
theorem Collecting.issued_of_quorum {ids : List ℤ} (h : Collecting S u F t s₀ seen s)
    (hnd : ids.Nodup) (ht : t ≤ ids.length) (hne : ids ≠ []) (hsub : ids ⊆ seen) :
    s.credential = some (credentialOf S u F) := by
  apply h.issued
  -- otherwise the map has fewer than `t` keys, but all the ids are among them
  cases hflag : s.thresholdReached with
  | true => rfl
  | false =>
    exfalso
    rcases h.waiting hflag with hlt | rfl
    · have hkeys : ids ⊆ s.receivedShares.keys := fun j hj => (h.keys j).mpr (hsub hj)
      have hle := (hnd.subperm hkeys).length_le
      omega
    · exact hne (List.subset_nil.mp hsub)

end Collect

/-! ## The whole issuance -/

section Issuance

variable {p : ℕ} [Fact p.Prime] {G1 G2 GT : Type} [CommGroup G1] [CommGroup G2]
  [CommGroup GT] (S : CryptimeleonSetup p G1 G2 GT)

/-- The constructor of `UserProtocol`, followed by `startRegistration`. -/
def startedUser (u : User p) (threshold : ℕ) (mpkG1 : G1) (mpkG2 : G2) (nodeId : Text)
    (familyIds : List Text) (targetCAs : AList (fun _ : Host => ℤ)) (targetDA : Host) :
    UserState p G1 G2 :=
  let s : UserState p G1 G2 :=
    { cryptoUser := u, threshold := threshold, mpkG1 := mpkG1, mpkG2 := mpkG2
      nodeId := nodeId, familyIds := familyIds }
  (s.startRegistration S targetCAs targetDA).state

variable {S} {F : (ZMod p)[X]} {t n : ℕ}

theorem collecting_start (u : User p) (mpkG2 : G2) (nodeId : Text) (familyIds : List Text)
    (cas : AList (fun _ : Host => ℤ)) (d : Host) :
    Collecting S u F t (startedUser S u t (zpw S.h1 (F.eval 0)) mpkG2 nodeId familyIds cas d) []
      (startedUser S u t (zpw S.h1 (F.eval 0)) mpkG2 nodeId familyIds cas d) where
  user := rfl
  threshold := rfl
  mpkG1 := rfl
  kept := ⟨rfl, rfl, rfl⟩
  keys j := by simp [startedUser, UserState.startRegistration]
  shares h := by simp [startedUser, UserState.startRegistration] at h
  waiting _ := .inr rfl
  issued h := by simp [startedUser, UserState.startRegistration] at h

variable [ExpGroup p G1]

/-- A user that has received the replies of at least `t` CAs, in any order and
possibly repeated, holds the credential and no reply threw. -/
theorem replies_issue (hF : F.degree < (t : WithBot ℕ)) (hn : n < p) (u : User p)
    {ids arrivals : List ℤ} (hnd : ids.Nodup) (hids : ∀ j ∈ ids, 1 ≤ j ∧ j ≤ n)
    (ht : t ≤ ids.length) (hne : ids ≠ []) (harr : ∀ j, j ∈ arrivals ↔ j ∈ ids)
    (mpkG2 : G2) (nodeId : Text) (familyIds : List Text) (cas : AList (fun _ : Host => ℤ))
    (d : Host) :
    let s := startedUser S u t (zpw S.h1 (F.eval 0)) mpkG2 nodeId familyIds cas d
    let o : UserResult p G1 G2 GT := s.handleReplies (arrivals.map (replyOf S u F))
    o.thrown = none ∧ o.state.credential = some (credentialOf S u F)
      ∧ o.state.cryptoUser = u ∧ o.state.daHost = some d ∧ o.state.nodeId = nodeId
      ∧ o.state.familyIds = familyIds := by
  intro s o
  obtain ⟨hthrown, hinv⟩ := collecting_replies (S := S) hF hn arrivals [] s [] (collecting_start ..)
    (fun i hi => absurd hi List.not_mem_nil) fun i hi => hids i ((harr i).mp hi)
  have hsub : ids ⊆ arrivals.reverse ++ [] := by
    intro j hj
    rw [List.append_nil, List.mem_reverse]
    exact (harr j).mpr hj
  exact ⟨hthrown, hinv.issued_of_quorum hnd ht hne hsub, hinv.user, hinv.kept⟩

variable [ExpGroup p G2] [ExpGroup p GT] [DecidableEq GT]

/-- The DA's two checks on the honest message of a user with the credential. -/
theorem authority_accepts {da : DA G2} (hda : da.mpkG2 = zpw S.pairing.g2 (F.eval 0)) {u : User p}
    (k : ZMod p) {context : Text} (nodeId : Text) (familyIds : List Text)
    (hne : u.secretX + hashContext S context ≠ 0) :
    ∃ msg : RegisterRelayMsg p G1 G2 GT,
      honestRegistration S u k (credentialOf S u F) context nodeId familyIds = some msg
        ∧ DA.verifyVrf S msg.userPublicKeyG2 msg.vrfData msg.context = true
        ∧ da.verifyCredentialLinkage S msg.userPublicKeyG2 msg.credentialCommitmentG1
          msg.credential msg.dleqProof msg.context = true := by
  obtain ⟨msg, hmsg⟩ := honestRegistration_isSome S k (credentialOf S u F) nodeId familyIds hne
  have hacc : authorizes S da msg = true := (authorizes_honest_iff S hda hmsg).mpr rfl
  unfold authorizes at hacc
  rw [Bool.and_eq_true] at hacc
  exact ⟨msg, hmsg, hacc⟩

/-- **Issuance is correct end to end.** For a joint polynomial of degree below
`t`, any `t` or more distinct CA ids in `1..n` and any order of arrival:
aggregating and unblinding gives `g1^{x F(0)}`, which the user's own check
accepts; the protocol handler arrives at the same credential and then sends the
honest message; and the DA accepts that message in every context whose VRF
exponent is non-zero, whatever the draw of the linkage proof. -/
theorem issuance_correct (hF : F.degree < (t : WithBot ℕ)) (hn : n < p) (u : User p)
    (ids arrivals : List ℤ) (hnd : ids.Nodup) (hids : ∀ j ∈ ids, 1 ≤ j ∧ j ≤ n)
    (ht : t ≤ ids.length) (harr : ∀ j, j ∈ arrivals ↔ j ∈ ids) :
    let C := u.createBlindedCommit S.pairing.g1 S.h1
    let mpkG1 := zpw S.h1 (F.eval 0)
    let mpkG2 := zpw S.pairing.g2 (F.eval 0)
    let σ := zpw S.pairing.g1 (u.secretX * F.eval 0)
    (∃ agg, User.aggregateShares p (ids.map fun j : ℤ => zpw C (F.eval (j : ZMod p))) ids = some agg
        ∧ u.unblindSignature agg mpkG1 = σ)
      ∧ u.verifyCredential S σ mpkG2 S.pairing.g1 S.pairing.g2 = true
      ∧ (ids ≠ [] → ∀ (nodeId : Text) (familyIds : List Text)
          (cas : AList (fun _ : Host => ℤ)) (d : Host) (k : ZMod p),
          let o : UserResult p G1 G2 GT :=
            (startedUser S u t mpkG1 mpkG2 nodeId familyIds cas d).handleReplies
              (arrivals.map fun j : ℤ => ⟨j, zpw C (F.eval (j : ZMod p))⟩)
          o.thrown = none ∧ o.state.credential = some σ
            ∧ (u.secretX + hashContext S torContext ≠ 0 →
              ∃ msg, honestRegistration S u k σ torContext nodeId familyIds = some msg
                ∧ (o.state.onOutConnectionUp S k d).sent = [.register d msg]))
      ∧ ∀ (da : DA G2) (k : ZMod p) (context nodeId : Text) (familyIds : List Text),
          da.mpkG2 = mpkG2 → u.secretX + hashContext S context ≠ 0 →
          ∃ msg : RegisterRelayMsg p G1 G2 GT,
            honestRegistration S u k σ context nodeId familyIds = some msg
              ∧ DA.verifyVrf S msg.userPublicKeyG2 msg.vrfData msg.context = true
              ∧ da.verifyCredentialLinkage S msg.userPublicKeyG2 msg.credentialCommitmentG1
                msg.credential msg.dleqProof msg.context = true := by
  intro C mpkG1 mpkG2 σ
  refine ⟨?_, ?_, ?_, ?_⟩
  · exact aggregate_unblind hF hnd (User.idsDistinct_of_range hn hids) ht
  · exact (u.verifyCredential_iff S σ (F.eval 0)).mpr rfl
  · intro hne nodeId familyIds cas d k o
    obtain ⟨hthrown, hcred, huser, hda, hnode, hfam⟩ := replies_issue (S := S) hF hn u hnd hids ht
      hne harr mpkG2 nodeId familyIds cas d
    refine ⟨hthrown, hcred, fun hctx => ?_⟩
    obtain ⟨msg, hmsg⟩ := honestRegistration_isSome S k σ nodeId familyIds hctx
    refine ⟨msg, hmsg, ?_⟩
    -- the connection to the DA is up: the message goes out
    have hsend : o.state.onOutConnectionUp S k d = o.state.sendRegistrationToDA S k d :=
      if_pos hda
    rw [hsend, UserState.sendRegistrationToDA]
    rw [show o.state.credential = some σ from hcred]
    dsimp only
    rw [show o.state.cryptoUser = u from huser, show o.state.nodeId = nodeId from hnode,
      show o.state.familyIds = familyIds from hfam, hmsg]
  · intro da k context nodeId familyIds hda hctx
    exact authority_accepts hda k nodeId familyIds hctx

end Issuance

/-- Two of three CAs with `F = 3 + 2 X` answer a user with `x = 1` and `r = 4`, CA 3
before CA 1: the user has the credential `g1^3` and the DA accepts its registration. -/
theorem issuance_correct_two :
    ∃ msg, honestRegistration (productSetup 5 2) ⟨1, 4⟩ 2
        (zpw (productSetup 5 2).pairing.g1 ((1 : ZMod 5) * (C (3 : ZMod 5) + C 2 * X).eval 0))
        torContext "node".toList [] = some msg
      ∧ DA.verifyVrf (productSetup 5 2) msg.userPublicKeyG2 msg.vrfData msg.context = true
      ∧ (DA.mk (zpw (productSetup 5 2).pairing.g2 ((C (3 : ZMod 5) + C 2 * X).eval 0))
            ∅).verifyCredentialLinkage (productSetup 5 2) msg.userPublicKeyG2
          msg.credentialCommitmentG1 msg.credential msg.dleqProof msg.context = true := by
  have hdeg : (C 3 + C 2 * X : (ZMod 5)[X]).degree < ((2 : ℕ) : WithBot ℕ) := by
    rw [add_comm]
    exact lt_of_le_of_lt degree_linear_le (by decide)
  obtain ⟨-, -, -, hda⟩ := issuance_correct (S := productSetup 5 2) (n := 3) hdeg (by decide)
    ⟨1, 4⟩ [1, 3] [3, 1] (by decide) (by decide) (by decide) (by intro j; simp [or_comm])
  exact hda _ 2 torContext "node".toList [] rfl (by decide)

/-! ## After the key generation -/

section AfterDkg

variable {p : ℕ} (cfg : Config p)

/-- The polynomial the CAs share without anyone knowing it. -/
noncomputable def jointPolynomial : (ZMod p)[X] := (cfg.ids.map cfg.poly).sum

theorem eval_jointPolynomial (x : ZMod p) :
    (jointPolynomial cfg).eval x = (cfg.ids.map fun i => (cfg.poly i).eval x).sum := by
  unfold jointPolynomial
  induction cfg.ids with
  | nil => simp
  | cons i l ih => rw [List.map_cons, List.sum_cons, eval_add, ih, List.map_cons, List.sum_cons]

variable [Fact p.Prime]

theorem degree_jointPolynomial_lt : (jointPolynomial cfg).degree < (cfg.threshold : WithBot ℕ) := by
  have hpoly : ∀ i, (cfg.poly i).degree < (cfg.threshold : WithBot ℕ) := by
    intro i
    have h := degree_ofCoeffs_lt (cfg.coeffs i).secretCoefficients
    simpa [Config.poly, Config.coeffs, generatePrivatePolynomial] using h
  unfold jointPolynomial
  induction cfg.ids with
  | nil => simp
  | cons i l ih =>
    rw [List.map_cons, List.sum_cons]
    exact lt_of_le_of_lt (degree_add_le _ _) (max_lt (hpoly i) ih)

variable {G1 G2 GT : Type} [CommGroup G1] [CommGroup G2] [CommGroup GT] [DecidableEq G1]
  [ExpGroup p G1] [ExpGroup p G2] {S : CryptimeleonSetup p G1 G2 GT} {cfg} {net : Net p G1 G2}

/-- A CA that is `DONE` after an honest run answers with the joint polynomial's
value at its id. -/
theorem finished_ca_replies (ht : 0 < cfg.threshold)
    (hrun : Run (Net.step S cfg fun _ => true) (fun _ _ => True) Net.init net) {j : ℤ}
    (hj : j ∈ cfg.ids) (hdone : (net.ca j).state = .done) (u : User p) :
    (handleCredentialRequest (net.ca j) (u.createBlindedCommit S.pairing.g1 S.h1)).sent
      = [replyOf S u (jointPolynomial cfg) j] := by
  obtain ⟨hI, hf⟩ := honest_run_inv ht hrun
  obtain ⟨hshare, -, -⟩ := hf j hj hdone
  unfold handleCredentialRequest CA.issueSignatureShare replyOf
  rw [if_neg (by simpa using hdone), hshare, Option.map_some, eval_jointPolynomial,
    (hI.ca j hj trivial).caID]

/-- **Key generation and issuance compose.** In every state of an honest run,
the answers of `threshold` or more CAs that are `DONE`, in any order, give a
user of the master keys the credential under the master secret. -/
theorem issuance_after_dkg (ht : 0 < cfg.threshold) (hn : cfg.n < p)
    (hrun : Run (Net.step S cfg fun _ => true) (fun _ _ => True) Net.init net) (u : User p)
    {ids arrivals : List ℤ} (hnd : ids.Nodup) (hids : ∀ j ∈ ids, j ∈ cfg.ids)
    (hdone : ∀ j ∈ ids, (net.ca j).state = .done) (hlen : cfg.threshold ≤ ids.length)
    (harr : ∀ j, j ∈ arrivals ↔ j ∈ ids) (nodeId : Text) (familyIds : List Text)
    (cas : AList (fun _ : Host => ℤ)) (d : Host) :
    let C := u.createBlindedCommit S.pairing.g1 S.h1
    let s := startedUser S u cfg.threshold (zpw S.h1 cfg.masterSecret)
      (zpw S.pairing.g2 cfg.masterSecret) nodeId familyIds cas d
    let o : UserResult p G1 G2 GT := s.handleReplies
      (arrivals.flatMap fun j => (handleCredentialRequest (net.ca j) C).sent)
    o.thrown = none
      ∧ o.state.credential = some (zpw S.pairing.g1 (u.secretX * cfg.masterSecret)) := by
  intro C s o
  have hmsk : cfg.masterSecret = (jointPolynomial cfg).eval 0 := (eval_jointPolynomial cfg 0).symm
  have hreplies : arrivals.flatMap (fun j => (handleCredentialRequest (net.ca j) C).sent)
      = arrivals.map (replyOf S u (jointPolynomial cfg)) := by
    rw [List.map_eq_flatMap]
    apply List.flatMap_congr
    intro j hj
    have hj' := (harr j).mp hj
    exact finished_ca_replies ht hrun (hids j hj') (hdone j hj') u
  have hrange : ∀ j ∈ ids, 1 ≤ j ∧ j ≤ cfg.n := by
    intro j hj
    obtain ⟨k, hk, rfl⟩ := List.mem_map.mp (hids j hj)
    have hk' := List.mem_range.mp hk
    omega
  have hne : ids ≠ [] := by
    intro h0
    rw [h0, List.length_nil] at hlen
    omega
  have hissue := replies_issue (S := S) (degree_jointPolynomial_lt cfg) hn u hnd hrange hlen hne
    harr (zpw S.pairing.g2 cfg.masterSecret) nodeId familyIds cas d
  rw [← hmsk, ← hreplies] at hissue
  obtain ⟨hthrown, hcred, -⟩ := hissue
  refine ⟨hthrown, hcred.trans ?_⟩
  rw [credentialOf, hmsk]

end AfterDkg

end Dittor.Registration
