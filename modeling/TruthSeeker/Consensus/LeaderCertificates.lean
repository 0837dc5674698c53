import TruthSeeker.Consensus.CommitJustified

namespace TruthSeeker

open Outcome

namespace Consensus

variable {PublicKey BlstSignature : Type} (self : Consensus PublicKey BlstSignature)

/-- A round accepts the certificate in every confirm and commit message that the entry sends. -/
def Accepted (round : BFTRoundState) (entry : Entry) : Prop :=
  (∀ qc hash,entry.deed=.sent (.broadcast (.confirm qc hash)) →
    round.verifyQuorumCertificate self.crypto.toBlst (hash,(⟨⟩ : PrepareVoteMarker)) qc=.ok ()) ∧
  ∀ qc hash,entry.deed=.sent (.broadcast (.commit qc hash)) →
    round.verifyQuorumCertificate self.crypto.toBlst (hash,(⟨⟩ : ConfirmAckMarker)) qc=.ok ()

/-- A bonded validator other than the leader itself. -/
def Eligible (round : BFTRoundState) (v : ValidatorPublicKey) : Prop :=
  v ∈ round.staking.bonded ∧ v≠self.validatorPubkey

/-- The votes that the node counts name such validators. -/
structure CountsEligible (node : Consensus PublicKey BlstSignature) (n : Node) : Prop where
  votes : ∀ entry ∈ n.log,∀ vote,entry.deed=.countedVote vote →
    node.Eligible entry.round vote.signature.validator
  acks : ∀ entry ∈ n.log,∀ ack,entry.deed=.countedAck ack →
    node.Eligible entry.round ack.signature.validator

variable {self} {n m : Node}

theorem CountsEligible.of_change (h : CountsEligible self m) (hc : self.Change n m) :
    CountsEligible self n where
  votes entry he := h.votes entry ((change_log hc).subset he)
  acks entry he := h.acks entry ((change_log hc).subset he)

section Certificates
variable {Marker : Type} [Borsh Marker] {marker : Marker} {round : BFTRoundState}
  {votes : List (SignedByValidator (ConsensusProposalHash × Marker))}
  {qc : QuorumCertificate Marker}

/-- The power that the leader counts is the one that the receivers find in the certificate. -/
theorem computeVotingPower_of_leaderVotingPower {validators : List ValidatorPublicKey}
    {power : U128} (hb : self.validatorPubkey ∈ round.staking.bonded)
    (ho : self.validatorPubkey∉validators)
    (h : self.leaderVotingPower round validators=.ok power) :
    round.staking.computeVotingPower (validators++[self.validatorPubkey])=power := by
  have part : round.isPartOfConsensus self.validatorPubkey=true := by
    simpa [BFTRoundState.isPartOfConsensus,Staking.isBonded] using hb
  obtain ⟨own,hown,sum⟩ := bind_eq_ok.mp h
  unfold BFTRoundState.getOwnVotingPower at hown
  rw [if_pos part,fromOption_eq_ok] at hown
  rw [computeVotingPower_append_singleton ho hown]
  exact pure_eq_ok.mp sum

theorem accepted_of_certifies (keeps : self.crypto.KeepsAggregates) {round' : BFTRoundState}
    (hs : round'.staking=round.staking) (hb : self.validatorPubkey ∈ round.staking.bonded)
    (ht : ∀ s ∈ votes,self.Eligible round s.signature.validator)
    (h : self.Certifies round marker votes qc) :
    round'.verifyQuorumCertificate self.crypto.toBlst
      (round.currentProposal.hashed self.sha3,marker) qc=.ok () := by
  obtain ⟨nonempty,power,aggregated,counted,enough,signs,rfl⟩ := h
  obtain ⟨verified,validators⟩ := BlstCrypto.verifies_of_signAggregate keeps nonempty signs
  have apart : self.validatorPubkey∉votes.map fun s => s.signature.validator := by
    intro ho
    obtain ⟨s,hm,same⟩ := List.mem_map.mp ho
    exact (ht s hm).2 same
  rw [BFTRoundState.verifyQuorumCertificate_congr hs,BFTRoundState.verifyQuorumCertificate_eq_ok]
  obtain ⟨encoded,he,hv⟩ := (Blst.verifyAggregate_eq_ok_true _).mp verified
  refine ⟨encoded,he,hv,?_,?_⟩
  · intro v hm
    rw [validators] at hm
    obtain hm|hm := List.mem_append.mp hm
    · obtain ⟨s,hs,rfl⟩ := List.mem_map.mp hm
      exact (ht s hs).1
    · rw [List.mem_singleton.mp hm]
      exact hb
  · have counts : round.staking.computeVotingPower aggregated.signature.validators=power := by
      rw [validators]
      exact computeVotingPower_of_leaderVotingPower hb apart counted
    rw [counts]
    exact quorum_of_double enough

end Certificates

/-- The votes that are held have been counted, and all certificates so far are accepted. -/
structure Certifying (node : Consensus PublicKey BlstSignature) (n : Node) : Prop where
  votes : ∀ s ∈ n.bftRoundState.leader.prepareVotes,
    node.Eligible n.bftRoundState s.signature.validator
  acks : ∀ s ∈ n.bftRoundState.leader.confirmAck,
    node.Eligible n.bftRoundState s.signature.validator
  accepted : ∀ entry ∈ n.log,∀ round : BFTRoundState,round.staking=entry.round.staking →
    node.Accepted round entry

theorem mem_insertVote {T : Type} [DecidableEq T] {votes : List T} {vote s : T}
    (h : s ∈ insertVote votes vote) : s ∈ votes ∨ s=vote := by
  unfold insertVote at h
  split at h
  · exact Or.inl h
  · simpa using h

/-- A change after which no certificate has been sent and no vote is new. -/
theorem Certifying.of_leader (h : Certifying self n) {entries : List Entry}
    (hl : m.log=n.log++entries)
    (hs : ∀ entry ∈ entries,∀ message,entry.deed≠.sent (.broadcast message))
    (bonded : ∀ v ∈ n.bftRoundState.staking.bonded,v ∈ m.bftRoundState.staking.bonded)
    (votes : ∀ s ∈ m.bftRoundState.leader.prepareVotes,
      s ∈ n.bftRoundState.leader.prepareVotes)
    (acks : ∀ s ∈ m.bftRoundState.leader.confirmAck,s ∈ n.bftRoundState.leader.confirmAck) :
    Certifying self m where
  votes s hm := ⟨bonded _ (h.votes s (votes s hm)).1,(h.votes s (votes s hm)).2⟩
  acks s hm := ⟨bonded _ (h.acks s (acks s hm)).1,(h.acks s (acks s hm)).2⟩
  accepted := by
    rw [hl]
    refine List.forall_mem_append.mpr ⟨h.accepted,?_⟩
    intro entry he round _
    exact ⟨fun qc hash hd => absurd hd (hs entry he _),
      fun qc hash hd => absurd hd (hs entry he _)⟩

theorem certifying_change (keeps : self.crypto.KeepsAggregates) (hu : CountsEligible self m)
    (h : Certifying self n) (hc : self.Change n m) : Certifying self m := by
  cases hc with
  | send item sends =>
    refine ⟨h.votes,h.acks,?_⟩
    refine List.forall_mem_append.mpr ⟨h.accepted,?_⟩
    intro entry he round hs
    obtain rfl := List.mem_singleton.mp he
    constructor
    · rintro qc hash ⟨⟩
      obtain ⟨rfl,bonded,certifies⟩ := sends
      exact accepted_of_certifies keeps hs bonded h.votes certifies
    · rintro qc hash ⟨⟩
      obtain ⟨rfl,bonded,certifies⟩ := sends
      exact accepted_of_certifies keeps hs bonded h.acks certifies
  | countedVote vote =>
    have new := hu.votes ⟨n.bftRoundState,.countedVote vote⟩
      (List.mem_append_right _ List.mem_cons_self) vote rfl
    refine ⟨?_,h.acks,?_⟩
    · intro s hs
      obtain old|rfl := mem_insertVote hs
      · exact h.votes s old
      · exact new
    · refine List.forall_mem_append.mpr ⟨h.accepted,?_⟩
      simp [Accepted]
  | countedAck ack =>
    have new := hu.acks ⟨n.bftRoundState,.countedAck ack⟩
      (List.mem_append_right _ List.mem_cons_self) ack rfl
    refine ⟨h.votes,?_,?_⟩
    · intro s hs
      obtain old|rfl := mem_insertVote hs
      · exact h.acks s old
      · exact new
    · refine List.forall_mem_append.mpr ⟨h.accepted,?_⟩
      simp [Accepted]
  | staking staking grown =>
    exact h.of_leader (List.append_nil _).symm (by simp) grown (fun _ => id) fun _ => id
  | reset tag =>
    refine h.of_leader (List.append_nil _).symm (by simp) (fun _ => id) ?_ ?_
    · simp [BFTRoundState.reset,LeaderState.default]
    · simp [BFTRoundState.reset,LeaderState.default]
  | joined qc =>
    refine h.of_leader (List.append_assoc _ _ _) (by simp) (fun _ => id) ?_ ?_
    · simp [BFTRoundState.reset,LeaderState.default]
    · simp [BFTRoundState.reset,LeaderState.default]
  | leader f bonded kept =>
    refine h.of_leader (List.append_nil _).symm (by simp) (fun _ => id) ?_ ?_
    · intro s hs
      rw [← (kept n.bftRoundState.leader).1]
      exact hs
    · intro s hs
      rw [← (kept n.bftRoundState.leader).2]
      exact hs
  | seenPrepareQc qc proposal =>
    refine h.of_leader rfl (by simp) ?_ ?_ ?_
    · simp
    · simp
    · simp
  | candidates | schedule | retag | push =>
    exact h.of_leader (List.append_nil _).symm (by simp) (fun _ => id) (fun _ => id) fun _ => id
  | _ => exact h.of_leader rfl (by simp) (fun _ => id) (fun _ => id) fun _ => id

theorem certifying_of_run (keeps : self.crypto.KeepsAggregates) (run : self.Run n)
    (hu : CountsEligible self n) : Certifying self n := by
  refine run_induction (I := fun n => CountsEligible self n → Certifying self n) ?_ ?_ run hu
  · intro n fresh _
    refine ⟨by simp [fresh.prepareVotes],by simp [fresh.confirmAck],?_⟩
    intro entry he round _
    obtain ⟨_,sent⟩|sent := fresh.log entry he
    · simp [Accepted,sent]
    · simp [Accepted,sent]
  · intro n m _ ih hc hu
    exact certifying_change keeps hu (ih (hu.of_change hc)) hc

/-- In every run in which the votes that are counted name bonded validators other than the
leader, all nodes with the same staking accept the certificates that it broadcasts. -/
theorem certificatesAccepted (keeps : self.crypto.KeepsAggregates) (n : Node)
    (run : self.Run n) (hu : CountsEligible self n) :
    ∀ entry ∈ n.log,∀ round : BFTRoundState,round.staking=entry.round.staking →
      self.Accepted round entry :=
  (certifying_of_run keeps run hu).accepted

end Consensus

namespace FourValidators

open Consensus

/-- The module of the first validator, the leader of the first slot, where everybody signs. -/
def leading : Consensus Bytes Bytes := consensus (fun _ _ => true) 1

/-- The leader has sent the first proposal. -/
def proposing : Node := leading.after (.startNewSlot false (some [])) (started leading)

/-- A prepare vote for the first proposal. -/
def voteOf (v : ValidatorPublicKey) : ConsensusInput :=
  .netMessage v (.prepareVote ⟨(Bytes.hex firstDigest.toList,⟨⟩),
    ⟨(toVec (Bytes.hex firstDigest.toList)).toOption.getD [],v⟩⟩) 0

def confirming : Node := leading.after (voteOf [3]) (leading.after (voteOf [2]) proposing)

/-- Somebody who is not bonded votes first. -/
def outvoted : Node := leading.after (voteOf [5]) proposing

def spoiled : Node := leading.after (voteOf [3]) (leading.after (voteOf [2]) outvoted)

/-- The validators behind a certificate that is sent, and those that are bonded. -/
def confirmsBy (entry : Entry) : Option (List ValidatorPublicKey × List ValidatorPublicKey) :=
  match entry.deed with
  | .sent (.broadcast (.confirm qc _)) =>
      some (qc.aggregate.validators,entry.round.staking.bonded)
  | _ => none

def countsEligibly (entry : Entry) : Bool :=
  match entry.deed with
  | .countedVote vote => vote.signature.validator ∈ entry.round.staking.bonded ∧
      vote.signature.validator≠leading.validatorPubkey
  | .countedAck _ => false
  | _ => true

theorem confirms_and_spoils :
    (leading.enterGenesis genesis genesisNode).1.toOption=some () ∧
    (leading.handle 0 (.startNewSlot false (some [])) (started leading)).1.panics=false ∧
    ((leading.handle 0 (voteOf [2]) proposing).1.panics=false ∧
      (leading.handle 0 (voteOf [3]) (leading.after (voteOf [2]) proposing)).1.panics=false ∧
      confirming.log.all countsEligibly=true ∧
      confirming.log.findSome? confirmsBy=some ([[2],[3],[1]],[[1],[2],[3],[4]])) ∧
    (leading.handle 0 (voteOf [5]) proposing).1.panics=false ∧
      (leading.handle 0 (voteOf [2]) outvoted).1.panics=false ∧
      (leading.handle 0 (voteOf [3]) (leading.after (voteOf [2]) outvoted)).1.panics=false ∧
      spoiled.log.findSome? confirmsBy=some ([[5],[2],[3],[1]],[[1],[2],[3],[4]]) := by
  decide +kernel

theorem run_proposing : leading.Run proposing :=
  (run_started confirms_and_spoils.1).after confirms_and_spoils.2.1

theorem entry_of_confirmsBy {log : List Entry}
    {signers bonded : List ValidatorPublicKey}
    (h : log.findSome? confirmsBy=some (signers,bonded)) :
    ∃ entry ∈ log,∃ qc hash,entry.deed=.sent (.broadcast (.confirm qc hash)) ∧
      qc.aggregate.validators=signers ∧ entry.round.staking.bonded=bonded := by
  obtain ⟨before,entry,after,rfl,found,_⟩ := List.findSome?_eq_some_iff.mp h
  refine ⟨entry,by simp,?_⟩
  unfold confirmsBy at found
  split at found
  · next qc hash hd =>
    obtain ⟨rfl,rfl⟩ := Prod.mk.inj (Option.some.inj found)
    exact ⟨qc,hash,hd,rfl,rfl⟩
  · cases found

end FourValidators

open FourValidators in
/-- With its own vote and those of two others the leader has a certificate. -/
theorem Consensus.certificatesAccepted_confirming : leading.Run confirming ∧
    ∃ entry ∈ confirming.log,∃ qc hash,entry.deed=.sent (.broadcast (.confirm qc hash)) ∧
      qc.aggregate.validators=[[2],[3],[1]] ∧
      ∀ round : BFTRoundState,round.staking=entry.round.staking →
        leading.Accepted round entry := by
  have facts := confirms_and_spoils.2.2.1
  have run : leading.Run confirming := (run_proposing.after facts.1).after facts.2.1
  have eligible : CountsEligible leading confirming := by
    have all := facts.2.2.1
    rw [List.all_eq_true] at all
    constructor
    · intro entry he vote hd
      simpa [countsEligibly,hd,Eligible] using all entry he
    · intro entry he ack hd
      simpa [countsEligibly,hd] using all entry he
  obtain ⟨entry,he,qc,hash,hd,signers,_⟩ := entry_of_confirmsBy facts.2.2.2
  exact ⟨run,entry,he,qc,hash,hd,signers,
    certificatesAccepted (Blst.ofVoters_keepsAggregates _) confirming run eligible entry he⟩

open FourValidators in
/-- A vote of somebody who is not bonded goes into the certificate. -/
theorem Consensus.not_certificatesAccepted : leading.crypto.KeepsAggregates ∧
    ¬∀ n : Node,leading.Run n → ∀ entry ∈ n.log,∀ round : BFTRoundState,
      round.staking=entry.round.staking → leading.Accepted round entry := by
  refine ⟨Blst.ofVoters_keepsAggregates _,?_⟩
  intro accepted
  have facts := confirms_and_spoils.2.2.2
  have run : leading.Run spoiled := ((run_proposing.after facts.1).after facts.2.1).after
    facts.2.2.1
  obtain ⟨entry,he,qc,hash,hd,signers,bonded⟩ := entry_of_confirmsBy facts.2.2.2
  have verified := (accepted _ run entry he entry.round rfl).1 qc hash hd
  obtain ⟨_,_,_,known,_⟩ := (BFTRoundState.verifyQuorumCertificate_eq_ok _ _).mp verified
  have fifth := known [5] (by rw [signers]; decide)
  rw [bonded] at fifth
  exact absurd fifth (by decide)

end TruthSeeker
