import Dittor.Dkg.Reachable

/-!
# Who gets disqualified

The README promises "disqualification of misbehaving CAs". A CA that follows
the protocol is safe from the verifications of the others: its reveal matches
its hash and its shares match its reveal, in whatever order the adversary mixes
its own messages in. It is not safe from `handleComplaint`, which disqualifies
the accused id on anybody's word, nor from a message that carries its id in
`senderID`, a field nobody compares with the sending host
(`following_ca_disqualified`).

These are the only ways. `Unharmed` is the condition that no delivered message
of a CA outside the protocol does either, and in every run that meets it no
follower is ever disqualified by a follower (`followers_never_disqualified`):
it is the invariant of `Reachable.lean` with the followers as good ids.
-/

namespace Dittor.Dkg

open Dittor.Lib Dittor.Crypto

section Unharmed

variable {p : ℕ} {G1 G2 GT : Type} [CommGroup G1] [CommGroup G2] [CommGroup GT]
  [DecidableEq G1] (S : CryptimeleonSetup p G1 G2 GT) (cfg : Config p) (follows : ℤ → Bool)

/-- The CAs that follow the protocol. -/
abbrev Follower (k : ℤ) : Prop := k ∈ cfg.ids ∧ follows k = true

omit [CommGroup G1] [CommGroup G2] [CommGroup GT] [DecidableEq G1] in
theorem not_follower {k : ℤ} (hk : follows k = false) : ¬ Follower cfg follows k :=
  fun hf => absurd (hk.symm.trans hf.2) (by simp)

/-- A delivered message of a CA outside the protocol does not wrong a follower:
in a follower's name it only repeats the follower's hash, its reveal after the
hash, or a share that verifies, and it is no complaint about a follower. -/
def Unharmed (net : Net p G1 G2) (e : Event p G1 G2) : Prop :=
  Benign S cfg (Follower cfg follows) (fun _ _ _ => True) net e

instance [DecidableEq G2] (net : Net p G1 G2) (e : Event p G1 G2) :
    Decidable (Unharmed S cfg follows net e) :=
  match e with
  | .startDKG _ => isTrue trivial
  | .connectionUp _ _ => isTrue trivial
  | .inject _ _ _ => isTrue trivial
  | .deliver i j =>
    have : DecidablePred
        (Admissible S cfg (Follower cfg follows) (fun _ _ _ => True) (net.ca j)) := fun m =>
      match m with
      | .commitmentHash _ _ => (inferInstance : Decidable (_ → _))
      | .reveal _ _ => (inferInstance : Decidable (_ → _))
      | .share _ _ _ => (inferInstance : Decidable (_ → _))
      | .complaint _ _ _ => (inferInstance : Decidable (¬ _))
    (inferInstance : Decidable (¬ Follower cfg follows i →
      ∀ m ∈ (net.chan i (cfg.host j)).head?, _))

end Unharmed

section Runs

variable {p : ℕ} [Fact p.Prime] {G1 G2 GT : Type} [CommGroup G1] [CommGroup G2] [CommGroup GT]
  [ExpGroup p G1] [DecidableEq G1] {S : CryptimeleonSetup p G1 G2 GT} {cfg : Config p}
  {follows : ℤ → Bool} {net : Net p G1 G2}

/-- **No follower disqualifies a follower**, itself included, in any run in
which no message wrongs a follower. -/
theorem followers_never_disqualified (ht : 0 < cfg.threshold)
    (hrun : Run (Net.step S cfg follows) (Unharmed S cfg follows) Net.init net) :
    ∀ i ∈ cfg.ids, follows i = true → ∀ j ∈ cfg.ids, follows j = true →
      i ∉ (net.ca j).disqualifiedIds := by
  have hinv : NetInv S cfg (Follower cfg follows) (fun _ _ _ => True) net := by
    refine hrun.invariant (netInv_init ..) fun hI hok hst => ?_
    exact hI.step ht (fun k hk => hk.2) (fun k hk hf => ⟨hk, hf⟩) (fun _ _ _ => trivial) hok hst
  intro i hi hfi j hj hfj hq
  exact (hinv.ca j hj ⟨hj, hfj⟩).disqualified i hq ⟨hi, hfi⟩

end Runs

/-- CA 3 of three misbehaves: its reveal does not match its hash, and CA 2
disqualifies it, and nobody else. -/
theorem followers_never_disqualified_three :
    ∃ net, Run (Net.step (productSetup 5 2) (localConfig 5 3 2) (· ≠ 3))
        (Unharmed (productSetup 5 2) (localConfig 5 3 2) (· ≠ 3)) Net.init net
      ∧ 3 ∈ (net.ca 2).disqualifiedIds ∧ 1 ∉ (net.ca 2).disqualifiedIds := by
  have hbad : ∃ net, Run (Net.step (productSetup 5 2) (localConfig 5 3 2) (· ≠ 3))
      (Unharmed (productSetup 5 2) (localConfig 5 3 2) (· ≠ 3)) Net.init net
        ∧ 3 ∈ (net.ca 2).disqualifiedIds :=
    exists_run [.startDKG 1, .startDKG 2, .connectionUp 1 2, .deliver 1 2,
      .inject 3 2 (.reveal 3 ⟨[], 1, 1⟩), .deliver 3 2] (by decide)
  obtain ⟨net, hrun, hbad⟩ := hbad
  exact ⟨net, hrun, hbad, followers_never_disqualified (by decide) hrun 1 (by decide)
    (by decide) 2 (by decide) (by decide)⟩

/-- **A forged complaint suffices.** CAs 1 and 2 follow the protocol; CA 3
tells CA 2 that CA 1 cheated, and CA 2 disqualifies CA 1. -/
theorem following_ca_disqualified :
    ∃ net, Run (Net.step (productSetup 5 2) (localConfig 5 3 2) (· ≠ 3)) (fun _ _ => True)
        Net.init net
      ∧ 1 ∈ (localConfig 5 3 2).ids ∧ 2 ∈ (localConfig 5 3 2).ids
      ∧ 1 ∈ (net.ca 2).disqualifiedIds :=
  exists_run [.startDKG 1, .startDKG 2, .connectionUp 1 2, .deliver 1 2,
    .inject 3 2 (.complaint 3 1 "share failed verification"), .deliver 3 2] (by decide)

end Dittor.Dkg
