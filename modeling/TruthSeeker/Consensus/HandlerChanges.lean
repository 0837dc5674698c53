import TruthSeeker.Consensus.Changes
import TruthSeeker.Staking.TotalBond

namespace TruthSeeker

open Outcome Handler

namespace Staking

variable {self : Staking} {v : ValidatorPublicKey}

theorem mem_bonded_processEach {α : Type} {process : Staking → α → Outcome Unit × Staking}
    (hp : ∀ self a,v ∈ self.bonded → v ∈ (process self a).2.bonded) {entries : List α}
    (h : v ∈ self.bonded) : v ∈ (processEach process entries self).2.bonded := by
  induction entries generalizing self with
  | nil => exact h
  | cons a entries ih =>
    have first := hp self a h
    unfold processEach
    split
    · next next hn =>
      rw [hn] at first
      exact ih first
    · exact first

theorem mem_bonded_applied {result : Except String Staking} (h : v ∈ self.bonded)
    (hr : ∀ next,result=.ok next → v ∈ next.bonded) : v ∈ (self.applied result).2.bonded := by
  cases result with
  | error e => exact h
  | ok next => exact hr next rfl

theorem mem_bonded_bond {next : Staking} {validator : ValidatorPublicKey} (h : v ∈ self.bonded)
    (hb : self.bond validator=.ok next) : v ∈ next.bonded := by
  unfold bond at hb
  split_ifs at hb
  cases hs : self.getStake validator with
  | none => simp [hs] at hb
  | some stake =>
    simp only [hs] at hb
    split_ifs at hb
    obtain rfl := Except.ok.inj hb
    exact List.mem_mergeSort.mpr (List.mem_append_left _ h)

theorem mem_bonded_applyAction {action : ConsensusStakingAction} (h : v ∈ self.bonded) :
    v ∈ (self.applyAction action).2.bonded := by
  cases action with
  | bond candidate => exact mem_bonded_applied h fun _ hb => mem_bonded_bond h hb
  | payFeesForDaDi laneId cumulSize => exact h

theorem mem_bonded_applyActions {actions : List ConsensusStakingAction} (h : v ∈ self.bonded) :
    v ∈ (applyActions actions self).2.bonded := by
  have each : v ∈ (processEach applyAction actions self).2.bonded :=
    mem_bonded_processEach (fun _ _ hm => mem_bonded_applyAction hm) h
  unfold applyActions
  split
  · next next hn =>
    rw [hn] at each
    exact each
  · exact each

theorem mem_bonded_processAction {entry : Identity × StakingAction} (h : v ∈ self.bonded) :
    v ∈ (self.processAction entry).2.bonded := by
  obtain ⟨identity,action⟩ := entry
  cases action with
  | stake amount =>
    refine mem_bonded_applied h ?_
    intro next hn
    simp only [stake] at hn
    split_ifs at hn
    · cases hn
    · obtain rfl := Except.ok.inj hn
      exact h
  | delegate validator =>
    refine mem_bonded_applied h ?_
    intro next hn
    simp only [delegateTo] at hn
    split_ifs at hn
    · cases hn
    · obtain rfl := Except.ok.inj hn
      exact h
  | distribute claim => exact h
  | depositForFees holder amount => exact h

theorem mem_bonded_processBlock {block : Block} (h : v ∈ self.bonded) :
    v ∈ (self.processBlock block).2.bonded := by
  have acted : v ∈ (processEach processAction block.stakingActions self).2.bonded :=
    mem_bonded_processEach (fun _ _ hm => mem_bonded_processAction hm) h
  unfold processBlock
  split
  · next next hn =>
    rw [hn] at acted
    exact mem_bonded_processEach
      (fun _ _ hm => mem_bonded_applied hm fun _ hb => mem_bonded_bond hm hb) acted
  · exact acted

end Staking

namespace BFTRoundState

theorem roundLeader_mem {round : BFTRoundState} {leader : ValidatorPublicKey}
    (h : round.roundLeader=.ok leader) : leader ∈ round.staking.bonded := by
  obtain ⟨_,_,found⟩ := bind_eq_ok.mp h
  exact List.mem_of_getElem? (fromOption_eq_ok.mp found)

/-- The check of a certificate reads nothing of the round but its staking. -/
theorem verifyQuorumCertificate_congr {PublicKey BlstSignature T Marker : Type} [Borsh T]
    {blst : Blst PublicKey BlstSignature} {round round' : BFTRoundState}
    (h : round.staking=round'.staking) (message : T) (qc : QuorumCertificate Marker) :
    round.verifyQuorumCertificate blst message qc=
      round'.verifyQuorumCertificate blst message qc := by
  unfold verifyQuorumCertificate verifyQuorumSignersPartOfConsensus
  rw [h]

end BFTRoundState

namespace Consensus

variable {PublicKey BlstSignature : Type} {self : Consensus PublicKey BlstSignature}
variable {n : Node} {now : TimestampMs} {ticket : Ticket}

theorem verifiesTc_congr {round round' : BFTRoundState} (hs : round.staking=round'.staking)
    (hp : round.parentHash=round'.parentHash) {qc : TimeoutQC} {kind : TCKind} {slot : Slot}
    {view : View} :
    self.VerifiesTc round qc kind slot view ↔ self.VerifiesTc round' qc kind slot view := by
  unfold VerifiesTc VerifiesPrepareQc
  rw [BFTRoundState.verifyQuorumCertificate_congr hs,hp]
  cases kind with
  | nilProposal => rfl
  | prepareQC prepareQc proposal =>
    simp only
    rw [BFTRoundState.verifyQuorumCertificate_congr hs]

/-- What a ticket needs to be applied, beside that the node takes part in the consensus. -/
def Ready (self : Consensus PublicKey BlstSignature) (n : Node) : Ticket → Prop
  | .commitQC _ => n.lastCommitted=some n.bftRoundState.currentProposal
  | .forcedCommitQc => n.lastCommitted=some n.bftRoundState.currentProposal
  | .timeoutQC qc kind => self.TcInHand n qc kind
  | .genesis => True

/-- A leader that is not just starting over is bonded. -/
def LeaderBonded (self : Consensus PublicKey BlstSignature) (n : Node) : Prop :=
  n.bftRoundState.stateTag=.leader →
    self.validatorPubkey ∈ n.bftRoundState.staking.bonded ∨
      n.bftRoundState.leader=LeaderState.default

theorem takes_enterRound : Takes self.Change n (self.enterRound now) fun _ m =>
    m.bftRoundState.stateTag=.leader →
      self.validatorPubkey ∈ m.bftRoundState.staking.bonded := by
  refine (Takes.read _).bind ?_
  rintro round m ⟨rfl,rfl⟩
  refine (Takes.lift _).bind ?_
  rintro leader m ⟨hl,rfl⟩
  have bonded := BFTRoundState.roundLeader_mem hl
  apply Takes.ite
  · rintro rfl
    refine (Takes.modify (.retag .leader fun _ => bonded)).mono ?_
    rintro _ _ rfl _
    exact bonded
  · intro _
    refine (Takes.modifies (.tail (.single (.retag .follower (by simp)))
      (.schedule (.scheduleNext now)))).mono ?_
    rintro _ _ rfl h
    cases h

theorem takes_updateStaking {f : Staking → Outcome Unit × Staking}
    (h : ∀ v ∈ n.bftRoundState.staking.bonded,v ∈ (f n.bftRoundState.staking).2.bonded) :
    Takes self.Change n (Node.updateStaking f) fun _ _ => True where
  steps := .single (.staking _ h)
  value _ _ := trivial

theorem takes_finishSlot (he : ticket.endsSlot=true)
    (hr : n.bftRoundState.timeout.requests=[])
    (h : n.lastCommitted=some n.bftRoundState.currentProposal) {qc : Option CommitQC} :
    Takes self.Change n (self.finishSlot ticket qc) fun _ _ => True := by
  refine (Takes.read _).bind ?_
  rintro round m ⟨rfl,rfl⟩
  refine (Takes.modify (.appliedCommit ticket qc he hr h)).bind ?_
  intro _ _ _
  exact takes_updateStaking fun v hv => Staking.mem_bonded_applyActions hv

theorem takes_useTicket (hr : n.bftRoundState.timeout.requests=[]) (h : self.Ready n ticket) :
    Takes self.Change n (self.useTicket ticket) fun _ _ => True := by
  cases ticket with
  | genesis => exact Takes.fail _
  | commitQC qc => exact takes_finishSlot rfl hr h
  | timeoutQC qc kind => exact (Takes.modify (.appliedTimeout qc kind hr h)).any
  | forcedCommitQc => exact takes_finishSlot rfl hr h

theorem takes_send (item : Sent) (h : self.Sends n item) :
    Takes self.Change n (Node.send item) fun _ m => m=n.note (.sent item) :=
  Takes.modify (.send item h)

theorem takes_sendCandidacy : Takes self.Change n self.sendCandidacy fun _ _ => True := by
  refine (Takes.lift _).bind ?_
  rintro candidacy m ⟨_,rfl⟩
  exact Takes.any (takes_send _ (by trivial))

theorem takes_beginRound (h : n.bftRoundState.stateTag=.leader →
    self.validatorPubkey ∈ n.bftRoundState.staking.bonded) :
    Takes self.Change n (self.beginRound ticket) fun _ _ => True := by
  refine (Takes.read _).bind ?_
  rintro round m ⟨rfl,rfl⟩
  apply Takes.ite
  · intro hl
    have bonded := h (of_decide_eq_true hl.1)
    refine (Takes.modify (.leader _ bonded fun _ => ⟨rfl,rfl⟩)).bind ?_
    intro _ _ _
    exact Takes.any (takes_send _ (by trivial))
  intro _
  apply Takes.ite
  · intro _
    exact Takes.pure trivial
  intro _
  apply Takes.ite
  · intro _
    exact takes_sendCandidacy
  · intro _
    exact Takes.pure trivial

/-- The part of `advance_round` after the reset. -/
def startOver (self : Consensus PublicKey BlstSignature) (now : TimestampMs) (ticket : Ticket) :
    Handler Node Unit := do
  let round : Handler Node Unit := do
    self.useTicket ticket
    self.enterRound now
  round
  self.beginRound ticket

theorem applyTicket_eq (h : n.bftRoundState.stateTag≠.joining) :
    self.applyTicket now ticket n=(do self.useTicket ticket; self.enterRound now : Handler Node Unit)
      (n.setRound BFTRoundState.reset) := by
  show (if n.bftRoundState.stateTag=.joining then _ else _ : Handler Node Unit) n=_
  rw [if_neg h]
  rfl

theorem applyTicket_joining (h : n.bftRoundState.stateTag=.joining) :
    self.applyTicket now ticket n=
      (.error (.err "Cannot finish_round unless synchronized to the consensus."),n) := by
  show (if n.bftRoundState.stateTag=.joining then _ else _ : Handler Node Unit) n=_
  rw [if_pos h]
  rfl

theorem advanceRound_eq (h : n.bftRoundState.stateTag≠.joining) :
    self.advanceRound now ticket n=self.startOver now ticket (n.setRound BFTRoundState.reset) :=
  bind_of_eq (applyTicket_eq h)

theorem takes_startOver (hr : n.bftRoundState.timeout.requests=[]) (h : self.Ready n ticket) :
    Takes self.Change n (self.startOver now ticket) fun _ _ => True := by
  have entered : Takes self.Change n
      (do self.useTicket ticket; self.enterRound now : Handler Node Unit) fun _ m =>
        m.bftRoundState.stateTag=.leader →
          self.validatorPubkey ∈ m.bftRoundState.staking.bonded := by
    refine (takes_useTicket hr h).bind ?_
    intro _ _ _
    exact takes_enterRound
  refine entered.bind ?_
  intro _ m hm
  exact takes_beginRound hm

theorem ready_setRound {f : BFTRoundState → BFTRoundState} (h : self.Ready n ticket)
    (hs : (f n.bftRoundState).slot=n.bftRoundState.slot)
    (hv : (f n.bftRoundState).view=n.bftRoundState.view)
    (hp : (f n.bftRoundState).parentHash=n.bftRoundState.parentHash)
    (hst : (f n.bftRoundState).staking=n.bftRoundState.staking)
    (hc : (f n.bftRoundState).currentProposal=n.bftRoundState.currentProposal) :
    self.Ready (n.setRound f) ticket := by
  cases ticket with
  | genesis => trivial
  | commitQC qc =>
    show n.lastCommitted=some (f n.bftRoundState).currentProposal
    rw [hc]
    exact h
  | forcedCommitQc =>
    show n.lastCommitted=some (f n.bftRoundState).currentProposal
    rw [hc]
    exact h
  | timeoutQC qc kind =>
    obtain verified|⟨entry,he,hd,slot,view,parent,staking⟩ := h
    · left
      rw [Node.bftRoundState_setRound,hs,hv]
      exact (verifiesTc_congr hst hp).mpr verified
    · right
      refine ⟨entry,he,hd,?_⟩
      rw [Node.bftRoundState_setRound,hs,hv,hp,hst]
      exact ⟨slot,view,parent,staking⟩

/-- A node may call itself the leader just before the round advances. -/
theorem steps_advanceRound {tag : StateTag} (ht : tag≠.joining)
    (h : tag=n.bftRoundState.stateTag ∨ tag=.leader) (hready : self.Ready n ticket) :
    Relation.ReflTransGen self.Change n
      (self.advanceRound now ticket (n.setRound fun round => { round with stateTag := tag })).2 := by
  rw [advanceRound_eq (by exact ht)]
  have first : self.Change n
      (n.setRound fun round => { round with stateTag := tag }.reset) := .reset tag h
  have ready : self.Ready (n.setRound fun round => { round with stateTag := tag }.reset) ticket :=
    ready_setRound hready rfl rfl rfl rfl rfl
  exact .head first (takes_startOver rfl ready).steps

theorem takes_advanceRound (h : self.Ready n ticket) :
    Takes self.Change n (self.advanceRound now ticket) fun _ _ => True := by
  refine ⟨?_,fun _ _ => trivial⟩
  by_cases ht : n.bftRoundState.stateTag=.joining
  · have stays : (self.advanceRound now ticket n).2=n :=
      congrArg Prod.snd (bind_of_error (applyTicket_joining ht))
    rw [stays]
  · exact steps_advanceRound ht (Or.inl rfl) h

theorem change_log {m : Node} (h : self.Change n m) : n.log<+:m.log := by
  cases h with
  | joined qc ht h =>
    rw [Node.log_setRound,Node.log_note,Node.log_performRound,List.append_assoc]
    exact List.prefix_append _ _
  | _ => simp

theorem changes_log {m : Node} (h : Relation.ReflTransGen self.Change n m) : n.log<+:m.log := by
  induction h with
  | refl => exact List.prefix_rfl
  | tail _ last ih => exact ih.trans (change_log last)

theorem known_of_changes {m : Node} {prepare : Prepare}
    (h : Relation.ReflTransGen self.Change n m) (hk : n.Known prepare) : m.Known prepare := by
  obtain ⟨entry,he,hd⟩ := hk
  exact ⟨entry,(changes_log h).subset he,hd⟩

theorem handling_known {prepare : Prepare} (h : n.Handling prepare) : n.Known prepare := by
  obtain ⟨entry,he,hd,_⟩ := h
  exact ⟨entry,he,Or.inl hd⟩

theorem takes_emitCommitEvent {qc : CommitQC}
    (h : n.bftRoundState.verifyCommitQuorumCertificateAgainstCurrentProposal self.crypto.toBlst
      self.sha3 qc=.ok ()) :
    Takes self.Change n (Node.emitCommitEvent qc) fun _ m =>
      m.bftRoundState=n.bftRoundState ∧
        m.lastCommitted=some n.bftRoundState.currentProposal := by
  refine (Takes.read _).bind ?_
  rintro round m ⟨rfl,rfl⟩
  refine (Takes.modify (.commit qc h)).mono ?_
  rintro _ _ rfl
  exact ⟨rfl,Node.lastCommitted_note _ _⟩

/-- The commit of the current proposal under a verified certificate. -/
theorem takes_commit {qc : CommitQC}
    (h : n.bftRoundState.verifyCommitQuorumCertificateAgainstCurrentProposal self.crypto.toBlst
      self.sha3 qc=.ok ()) :
    Takes self.Change n (do Node.emitCommitEvent qc; self.advanceRound now (.commitQC qc))
      fun _ _ => True := by
  refine (takes_emitCommitEvent h).bind ?_
  intro _ m hm
  have ready : self.Ready m (.commitQC qc) := by
    show m.lastCommitted=some m.bftRoundState.currentProposal
    rw [hm.1]
    exact hm.2
  exact takes_advanceRound ready

section Timeouts

/-- The prepare QC of a certificate changes the current proposal at most. -/
theorem takes_verifyTcKind {kind : TCKind} :
    Takes self.Change n (self.verifyTcKind n.bftRoundState.slot kind) fun _ m =>
      (match kind with
        | .nilProposal => True
        | .prepareQC prepareQc proposal => proposal.slot=n.bftRoundState.slot ∧
            self.VerifiesPrepareQc n.bftRoundState proposal prepareQc) ∧
        m.bftRoundState.timeoutMessage=n.bftRoundState.timeoutMessage ∧
        m.bftRoundState.staking=n.bftRoundState.staking := by
  cases kind with
  | nilProposal => exact Takes.pure ⟨trivial,rfl,rfl⟩
  | prepareQC prepareQc proposal =>
    refine (Takes.lift _).bind ?_
    rintro _ m ⟨slot,rfl⟩
    refine (Takes.read _).bind ?_
    rintro round m ⟨rfl,rfl⟩
    refine (Takes.lift _).context.bind ?_
    rintro _ m ⟨prepared,rfl⟩
    refine (Takes.modify (.seenPrepareQc prepareQc proposal prepared
      (Or.inr (ensure_eq_ok.mp slot)))).mono ?_
    rintro _ _ rfl
    exact ⟨⟨ensure_eq_ok.mp slot,prepared⟩,BFTRoundState.updatePrepareQc_timeoutMessage _ _ _ _,
      BFTRoundState.updatePrepareQc_staking _ _ _ _⟩

/-- A verified certificate changes the current proposal at most. -/
theorem takes_verifyTc {qc : TimeoutQC} {kind : TCKind} {view : View} :
    Takes self.Change n (self.verifyTc qc kind n.bftRoundState.slot view) fun _ m =>
      self.VerifiesTc n.bftRoundState qc kind n.bftRoundState.slot view ∧
        m.bftRoundState.timeoutMessage=n.bftRoundState.timeoutMessage ∧
        m.bftRoundState.staking=n.bftRoundState.staking := by
  refine (Takes.read _).bind ?_
  rintro round m ⟨rfl,rfl⟩
  refine (Takes.lift _).context.bind ?_
  rintro _ m ⟨verified,rfl⟩
  refine takes_verifyTcKind.bind ?_
  rintro _ t ⟨prepared,message,staking⟩
  refine (Takes.modify (.verifiedTc qc kind m.bftRoundState.slot view)).mono ?_
  rintro _ _ rfl
  exact ⟨⟨verified,prepared⟩,message,staking⟩

theorem tcInHand_of_verified {m : Node} {qc : TimeoutQC} {kind : TCKind}
    (h : self.VerifiesTc n.bftRoundState qc kind n.bftRoundState.slot n.bftRoundState.view)
    (hm : m.bftRoundState.timeoutMessage=n.bftRoundState.timeoutMessage)
    (hs : m.bftRoundState.staking=n.bftRoundState.staking) : self.TcInHand m qc kind := by
  obtain ⟨slot,rest⟩ := Prod.mk.inj hm
  obtain ⟨view,rest⟩ := Prod.mk.inj rest
  obtain ⟨parent,_⟩ := Prod.mk.inj rest
  left
  rw [slot,view]
  exact (verifiesTc_congr hs parent).mpr h

/-- A node that leaves the joining state with a timeout takes part from the next view on. -/
theorem takes_claim {c : Prop} [Decidable c] (h : self.Ready n ticket) :
    Takes self.Change n (do
      Handler.whenever c (Node.updateRound fun round => { round with stateTag := .leader })
      self.advanceRound now ticket) fun _ _ => True := by
  by_cases hc : c
  · have claimed : Handler.whenever c
        (Node.updateRound fun round => { round with stateTag := .leader }) n=
        (.ok (),n.setRound fun round => { round with stateTag := .leader }) := by
      rw [Handler.whenever,if_pos hc]
      rfl
    refine ⟨?_,fun _ _ => trivial⟩
    rw [bind_of_ok claimed]
    exact steps_advanceRound (by simp) (Or.inr rfl) h
  · have stays : Handler.whenever c
        (Node.updateRound fun round => { round with stateTag := .leader }) n=(.ok (),n) := by
      rw [Handler.whenever,if_neg hc]
      rfl
    refine ⟨?_,fun _ _ => trivial⟩
    rw [bind_of_ok stays]
    exact (takes_advanceRound h).steps

theorem takes_onTimeoutCertificate {qc : TimeoutQC} {kind : TCKind} {slot : Slot} {view : View} :
    Takes self.Change n (self.onTimeoutCertificate now qc kind slot view) fun _ _ => True := by
  refine (Takes.read _).bind ?_
  rintro round m ⟨rfl,rfl⟩
  apply Takes.ite
  · intro _
    exact Takes.pure trivial
  intro here
  obtain ⟨rfl,rfl⟩ : slot=m.bftRoundState.slot ∧ view=m.bftRoundState.view := by simpa using here
  refine takes_verifyTc.bind ?_
  intro _ t ht
  obtain ⟨verified,message,staking⟩ := ht
  refine (Takes.read _).bind ?_
  rintro round t ⟨rfl,rfl⟩
  refine (Takes.lift _).bind ?_
  rintro leader t ⟨_,rfl⟩
  exact takes_claim (tcInHand_of_verified verified message staking)

theorem validator_of_getTimeoutMessage {round : BFTRoundState} {timeout : ConsensusTimeout}
    (h : self.getTimeoutMessage round=.ok timeout) :
    timeout.1.signature.validator=self.validatorPubkey ∧ timeout.1.msg=round.timeoutMessage := by
  obtain ⟨metadata,hm,h⟩ := bind_eq_ok.mp h
  obtain ⟨encoded,_,hs⟩ := bind_eq_ok.mp hm
  obtain rfl := pure_eq_ok.mp hs
  split at h
  · obtain rfl := pure_eq_ok.mp h
    exact ⟨rfl,rfl⟩
  · obtain ⟨_,_,h⟩ := bind_eq_ok.mp h
    obtain rfl := pure_eq_ok.mp h
    exact ⟨rfl,rfl⟩

/-- A new voter adds its stake to the power. -/
theorem computeVotingPower_append_singleton {staking : Staking}
    {validators : List ValidatorPublicKey} {own : ValidatorPublicKey} {stake : U128}
    (h : own∉validators) (hs : staking.getStake own=some stake) :
    staking.computeVotingPower (validators++[own])=
      staking.computeVotingPower validators+stake := by
  have perm : (validators++[own]).dedup.Perm (validators.dedup++[own]) := by
    rw [List.perm_ext_iff_of_nodup (List.nodup_dedup _)
      (List.nodup_append.mpr ⟨List.nodup_dedup _,List.nodup_singleton _,by aesop⟩)]
    simp
  have last : staking.power own=stake := by simp [Staking.power,hs]
  rw [Staking.computeVotingPower_eq,Staking.computeVotingPower_eq,
    (perm.map staking.power).sum_eq]
  simp [last]

theorem takes_joinMutiny (hb : self.validatorPubkey ∈ n.bftRoundState.staking.bonded)
    (ho : self.validatorPubkey∉timeoutValidators n.bftRoundState)
    (h : n.bftRoundState.staking.computeF<timeoutPower n.bftRoundState) :
    Takes self.Change n (self.joinMutiny now (timeoutPower n.bftRoundState)) fun power m =>
      power=timeoutPower m.bftRoundState ∧
        self.validatorPubkey ∈ m.bftRoundState.staking.bonded ∧
        self.validatorPubkey ∈ timeoutValidators m.bftRoundState := by
  refine (Takes.read _).bind ?_
  rintro round m ⟨rfl,rfl⟩
  refine (Takes.lift _).bind ?_
  rintro timeout m ⟨ht,rfl⟩
  refine (Takes.modify (.joinedMutiny timeout ht hb ho h)).bind ?_
  rintro _ _ rfl
  refine (takes_send _ (by trivial)).bind ?_
  rintro _ _ rfl
  refine (Takes.lift _).bind ?_
  rintro own _ ⟨hown,rfl⟩
  refine (Takes.modify (.schedule _)).bind ?_
  rintro _ _ rfl
  apply Takes.pure
  have named := (validator_of_getTimeoutMessage ht).1
  have fresh : timeout∉m.bftRoundState.timeout.requests := by
    intro hm
    exact ho (List.mem_map.mpr ⟨timeout,hm,named⟩)
  have validators : timeoutValidators (m.bftRoundState.insertRequest timeout)=
      timeoutValidators m.bftRoundState++[self.validatorPubkey] := by
    simp [timeoutValidators,BFTRoundState.insertRequest,fresh,named]
  have stake : m.bftRoundState.staking.getStake self.validatorPubkey=some own := by
    have part : m.bftRoundState.isPartOfConsensus self.validatorPubkey=true := by
      simpa [BFTRoundState.isPartOfConsensus,Staking.isBonded] using hb
    rw [BFTRoundState.getOwnVotingPower,if_pos part] at hown
    exact fromOption_eq_ok.mp hown
  refine ⟨?_,hb,?_⟩
  · show _=m.bftRoundState.staking.computeVotingPower
      (timeoutValidators (m.bftRoundState.insertRequest timeout))
    rw [validators,computeVotingPower_append_singleton ho stake]
    rfl
  · show _ ∈ timeoutValidators (m.bftRoundState.insertRequest timeout)
    rw [validators]
    exact List.mem_append_right _ (List.mem_singleton.mpr rfl)

theorem takes_createTimeoutCertificate
    (hb : self.validatorPubkey ∈ n.bftRoundState.staking.bonded)
    (ho : self.validatorPubkey ∈ timeoutValidators n.bftRoundState)
    (hp : 2*n.bftRoundState.staking.computeF<timeoutPower n.bftRoundState) :
    Takes self.Change n (self.createTimeoutCertificate now) fun _ _ => True := by
  refine (Takes.read _).bind ?_
  rintro round m ⟨rfl,rfl⟩
  refine (Takes.lift _).bind ?_
  rintro ⟨qc,kind⟩ m ⟨ht,rfl⟩
  refine (Takes.modify (.certified now qc kind ht hb ho hp)).bind ?_
  rintro _ _ rfl
  refine (Takes.lift _).bind ?_
  rintro leader t ⟨_,rfl⟩
  have certified : (⟨m.bftRoundState,.certified qc kind⟩ : Entry) ∈
      (m.performRound (.certified qc kind) fun round => round.scheduleNext now).log := by simp
  unfold announceTimeout
  split_ifs
  · exact takes_claim (Or.inr ⟨_,certified,rfl,rfl,rfl,rfl,rfl⟩)
  · have announced : Takes self.Change
        (m.performRound (.certified qc kind) fun round => round.scheduleNext now)
        (do
          Node.send (.broadcast (.timeoutCertificate qc kind m.bftRoundState.slot
            m.bftRoundState.view))
          Node.updateRound fun round =>
            { round with timeout := { round.timeout with state := .certificateEmitted } })
        fun _ t => self.TcInHand t qc kind := by
      refine (takes_send _ (by trivial)).bind ?_
      rintro _ _ rfl
      refine (Takes.modify (.schedule .certificateEmitted)).mono ?_
      rintro _ _ rfl
      exact Or.inr ⟨_,List.mem_append_left _ certified,rfl,rfl,rfl,rfl,rfl⟩
    refine announced.bind ?_
    intro _ t ht
    exact takes_advanceRound ht

theorem toNat_computeF (staking : Staking) :
    staking.computeF.toNat=staking.totalBond.toNat/3 := by
  simp [Staking.computeF,BitVec.toNat_udiv]

/-- Two thirds of the power are more than one third. -/
theorem computeF_lt_of_double {staking : Staking} {power : U128}
    (h : 2*staking.computeF<power) : staking.computeF<power := by
  have third := toNat_computeF staking
  have bound := staking.totalBond.isLt
  rw [BitVec.lt_def,BitVec.toNat_mul] at h
  rw [BitVec.lt_def]
  simp only [BitVec.ofNat_eq_ofNat,BitVec.toNat_ofNat] at h
  omega

/-- The power that lets a node put a certificate together is the one that the others ask for. -/
theorem quorum_of_double {staking : Staking} {power : U128}
    (h : 2*staking.computeF<power) : 2*staking.computeF+1 ≤ power := by
  have third := toNat_computeF staking
  have bound := staking.totalBond.isLt
  rw [BitVec.lt_def,BitVec.toNat_mul] at h
  rw [BitVec.le_def,BitVec.toNat_add,BitVec.toNat_mul]
  simp only [BitVec.ofNat_eq_ofNat,BitVec.toNat_ofNat] at h ⊢
  omega

theorem double_of_quorum {staking : Staking} {power : U128}
    (h : 2*staking.computeF+1 ≤ power) : 2*staking.computeF<power := by
  have third := toNat_computeF staking
  have bound := staking.totalBond.isLt
  rw [BitVec.le_def,BitVec.toNat_add,BitVec.toNat_mul] at h
  rw [BitVec.lt_def,BitVec.toNat_mul]
  simp only [BitVec.ofNat_eq_ofNat,BitVec.toNat_ofNat] at h ⊢
  omega

theorem takes_mutinyPower (hb : self.validatorPubkey ∈ n.bftRoundState.staking.bonded) :
    Takes self.Change n (self.mutinyPower now) fun power m =>
      power=timeoutPower m.bftRoundState ∧
        self.validatorPubkey ∈ m.bftRoundState.staking.bonded ∧
        (m.bftRoundState.staking.computeF<power →
          self.validatorPubkey ∈ timeoutValidators m.bftRoundState) := by
  refine (Takes.read _).bind ?_
  rintro round m ⟨rfl,rfl⟩
  apply Takes.ite
  · intro h
    refine (takes_joinMutiny hb h.2 h.1).mono ?_
    intro power t ht
    exact ⟨ht.1,ht.2.1,fun _ => ht.2.2⟩
  · intro h
    refine Takes.pure ⟨rfl,hb,?_⟩
    intro more
    by_contra absent
    exact h ⟨more,absent⟩

theorem takes_countTimeouts (hb : self.validatorPubkey ∈ n.bftRoundState.staking.bonded) :
    Takes self.Change n (self.countTimeouts now) fun _ _ => True := by
  refine (takes_mutinyPower hb).bind ?_
  rintro votingPower t ⟨rfl,bonded,part⟩
  refine (Takes.read _).bind ?_
  rintro round t ⟨rfl,rfl⟩
  apply Takes.whenever
  · intro h
    exact takes_createTimeoutCertificate bonded (part (computeF_lt_of_double h.1)) h.1
  · intro _
    trivial

theorem takes_verifyTimeoutKind {kind : TimeoutKind} :
    Takes self.Change n (self.verifyTimeoutKind n.bftRoundState.slot kind) fun _ m =>
      m.bftRoundState.timeoutMessage=n.bftRoundState.timeoutMessage ∧
        m.bftRoundState.staking=n.bftRoundState.staking := by
  cases kind with
  | nilProposal signedNil => exact Takes.pure ⟨rfl,rfl⟩
  | prepareQC qc proposal =>
    apply Takes.ite
    · intro slot
      refine (Takes.read _).bind ?_
      rintro round m ⟨rfl,rfl⟩
      refine (Takes.lift _).context.bind ?_
      rintro _ m ⟨verified,rfl⟩
      refine (Takes.modify (.seenPrepareQc qc proposal verified (Or.inr slot))).mono ?_
      rintro _ _ rfl
      exact ⟨BFTRoundState.updatePrepareQc_timeoutMessage _ _ _ _,
        BFTRoundState.updatePrepareQc_staking _ _ _ _⟩
    · intro _
      exact Takes.fail _

theorem takes_onTimeout {timeout : ConsensusTimeout} :
    Takes self.Change n (self.onTimeout now timeout) fun _ _ => True := by
  refine (Takes.read _).bind ?_
  rintro round m ⟨rfl,rfl⟩
  apply Takes.ite
  · intro _
    exact Takes.pure trivial
  intro here
  have message : timeout.1.msg=m.bftRoundState.timeoutMessage := by
    by_contra other
    exact here (Or.inr other)
  have bonded : self.validatorPubkey ∈ m.bftRoundState.staking.bonded := by
    have part : m.bftRoundState.isPartOfConsensus self.validatorPubkey=true := by
      by_contra apart
      exact here (Or.inl (eq_false_of_ne_true apart))
    simpa [BFTRoundState.isPartOfConsensus,Staking.isBonded] using part
  refine takes_verifyTimeoutKind.bind ?_
  intro _ t ht
  refine (Takes.read _).bind ?_
  rintro round t ⟨rfl,rfl⟩
  apply Takes.ite
  · intro _
    exact Takes.pure trivial
  intro _
  refine (Takes.modify (.countedTimeout timeout (message.trans ht.1.symm))).bind ?_
  rintro _ _ rfl
  apply takes_countTimeouts
  show _ ∈ t.bftRoundState.staking.bonded
  rw [ht.2]
  exact bonded

theorem takes_onTimeoutTick : Takes self.Change n (self.onTimeoutTick now) fun _ _ => True := by
  refine (Takes.read _).bind ?_
  rintro round m ⟨rfl,rfl⟩
  split
  · apply Takes.ite
    · intro _
      refine (Takes.lift _).bind ?_
      rintro timeout m ⟨_,rfl⟩
      refine takes_onTimeout.bind ?_
      intro _ t _
      refine (takes_send _ (by trivial)).bind ?_
      intro _ t _
      exact (Takes.modify (.schedule _)).any
    · intro _
      exact Takes.pure trivial
  · exact Takes.pure trivial

end Timeouts

section Prepares

/-- The check of the staking actions leaves the round alone. -/
theorem takes_verifyStakingActions {cut : Cut} {actions : List ConsensusStakingAction} :
    Takes self.Change n (self.verifyStakingActions cut actions) fun _ m =>
      m.bftRoundState=n.bftRoundState := by
  induction actions generalizing n with
  | nil => exact Takes.pure rfl
  | cons action actions ih =>
    have first : Takes self.Change n (self.verifyStakingAction cut action) fun _ m =>
        m.bftRoundState=n.bftRoundState := by
      cases action with
      | payFeesForDaDi laneId cumulSize =>
        refine (Takes.lift _).mono ?_
        rintro _ _ ⟨_,rfl⟩
        rfl
      | bond candidate =>
        refine (Takes.read _).bind ?_
        rintro round m ⟨rfl,rfl⟩
        split
        · exact Takes.fail _
        apply Takes.ite
        · intro _
          exact Takes.fail _
        intro _
        refine (Takes.lift _).bind ?_
        rintro valid m ⟨_,rfl⟩
        refine (Takes.lift _).bind ?_
        rintro _ m ⟨_,rfl⟩
        refine (Takes.modify (.candidates _)).bind ?_
        rintro _ _ rfl
        refine (takes_send _ (by trivial)).mono ?_
        rintro _ _ rfl
        rfl
    refine first.bind ?_
    intro _ m hm
    refine ih.mono ?_
    intro _ t ht
    exact ht.trans hm

theorem takes_bufferPrepare {draw : Nat} {prepare : Prepare} (hk : n.Known prepare) :
    Takes self.Change n (self.bufferPrepareMessageAndFetchMissingParent draw prepare)
      fun _ _ => True := by
  refine (Takes.read _).bind ?_
  rintro round m ⟨rfl,rfl⟩
  have pushed : Takes self.Change m (Handler.whenever
      (m.bftRoundState.follower.bufferedPrepares.contains (prepare.2.1.hashed self.sha3)=false)
      (Node.updateRound fun round => round.pushPrepare self.sha3 prepare)) fun _ _ => True := by
    apply Takes.whenever
    · intro _
      exact (Takes.modify (.push prepare hk)).any
    · intro _
      trivial
  refine pushed.bind ?_
  intro _ t _
  refine (Takes.read _).bind ?_
  rintro round t ⟨rfl,rfl⟩
  refine (Takes.lift _).bind ?_
  rintro missing t ⟨_,rfl⟩
  cases missing with
  | none => exact Takes.pure trivial
  | some missing =>
    dsimp only
    split
    · exact Takes.any (takes_send _ (by trivial))
    · exact Takes.any (takes_send _ (by trivial))

theorem takes_commitTicket {proposal : ConsensusProposal} {qc : CommitQC} :
    Takes self.Change n (self.verifyAndProcessCommitTicket now proposal qc)
      fun _ _ => True := by
  refine (Takes.read _).bind ?_
  rintro round m ⟨rfl,rfl⟩
  apply Takes.ite
  · intro _
    exact Takes.pure trivial
  intro _
  apply Takes.ite
  · intro _
    exact Takes.pure trivial
  intro _
  apply Takes.ite
  · intro _
    refine (Takes.lift _).bind ?_
    intro _ t _
    exact Takes.pure trivial
  intro _
  refine (Takes.lift _).bind ?_
  rintro _ m ⟨verified,rfl⟩
  refine (takes_emitCommitEvent verified).bind ?_
  rintro _ t ⟨round,committed⟩
  have ready : self.Ready t (.commitQC qc) := by
    show t.lastCommitted=some t.bftRoundState.currentProposal
    rw [round]
    exact committed
  refine (takes_advanceRound ready).bind ?_
  intro _ t _
  exact Takes.pure trivial

theorem takes_forceCommit {prepare : Prepare} (hh : n.Handling prepare)
    (h : n.bftRoundState.currentProposalChangesVotingPower=false →
      n.bftRoundState.forcedBy self.sha3 prepare=true) :
    Takes self.Change n (self.forceCommit now prepare.2.1 prepare.2.2.2) fun _ _ => True := by
  refine (Takes.read _).bind ?_
  rintro round m ⟨rfl,rfl⟩
  apply Takes.ite
  · intro _
    exact Takes.fail _
  intro same
  refine (Takes.modify (.forcing prepare hh (h (eq_false_of_ne_true same)))).bind ?_
  rintro _ _ rfl
  have emitted : Takes self.Change (m.note (.forcing prepare.2.1 prepare.2.2.2))
      (Node.emitCommitEvent ⟨Inhabited.default,⟨⟩⟩) fun _ t =>
        self.Ready t .forcedCommitQc := by
    refine (Takes.read _).bind ?_
    rintro round t ⟨rfl,rfl⟩
    refine (Takes.modify (.forcedCommit prepare.2.1 prepare.2.2.2
      ⟨_,List.mem_append_right _ List.mem_cons_self,rfl⟩)).mono ?_
    rintro _ _ rfl
    exact Node.lastCommitted_note _ _
  refine emitted.context.bind ?_
  intro _ t ht
  exact takes_advanceRound ht

theorem takes_tcTicket {qc : TimeoutQC} {kind : TCKind} {prepare : Prepare}
    (hh : n.Handling prepare) (ht : prepare.2.2.1=.timeoutQC qc kind) :
    Takes self.Change n
      (self.verifyAndProcessTcTicket now qc kind prepare.2.1 prepare.2.2.2) fun _ _ => True := by
  refine (Takes.read _).bind ?_
  rintro round m ⟨rfl,rfl⟩
  apply Takes.ite
  · intro _
    exact Takes.pure trivial
  intro _
  refine (Takes.lift _).bind ?_
  rintro _ m ⟨same,rfl⟩
  have forced : Takes self.Change m (Handler.whenever
      (m.bftRoundState.forcesCommit self.sha3 prepare.2.1=true)
      (self.forceCommit now prepare.2.1 prepare.2.2.2)) fun _ _ => True := by
    apply Takes.whenever
    · intro h
      apply takes_forceCommit hh
      intro unchanged
      cases kind with
      | nilProposal => simp [BFTRoundState.forcedBy,ht,h,unchanged]
      | prepareQC prepareQc prepared =>
        have matching : prepared=prepare.2.1 := ensure_eq_ok.mp same
        simp [BFTRoundState.forcedBy,ht,h,unchanged,matching]
    · intro _
      trivial
  refine forced.bind ?_
  intro _ t _
  refine (Takes.read _).bind ?_
  rintro round t ⟨rfl,rfl⟩
  refine (Takes.lift _).bind ?_
  rintro _ t ⟨_,rfl⟩
  refine takes_verifyTc.bind ?_
  rintro _ u ⟨verified,message,staking⟩
  have advanced : Takes self.Change u (Handler.whenever (prepare.2.2.2=t.bftRoundState.view+1)
      (self.advanceRound now (.timeoutQC qc kind))) fun _ _ => True := by
    apply Takes.whenever
    · intro view
      refine takes_advanceRound (tcInHand_of_verified ?_ message staking)
      rw [view] at verified
      simpa using verified
    · intro _
      trivial
  refine advanced.bind ?_
  intro _ _ _
  exact Takes.pure trivial

theorem takes_processTicket {prepare : Prepare} (hh : n.Handling prepare) :
    Takes self.Change n (self.processTicket now prepare.2.1 prepare.2.2.2 prepare.2.2.1)
      fun _ _ => True := by
  cases ht : prepare.2.2.1 with
  | genesis =>
    refine (Takes.read _).bind ?_
    rintro round m ⟨rfl,rfl⟩
    refine (Takes.lift _).bind ?_
    intro _ _ _
    exact Takes.pure trivial
  | commitQC qc => exact takes_commitTicket.context
  | timeoutQC qc kind => exact (takes_tcTicket hh ht).context
  | forcedCommitQc => exact Takes.fail _

theorem msg_of_sign {T : Type} [Borsh T] {crypto : BlstCrypto PublicKey BlstSignature} {msg : T}
    {signed : SignedByValidator T} (h : crypto.sign msg=.ok signed) :
    signed.msg=msg ∧ signed.signature.validator=crypto.validatorPubkey := by
  obtain ⟨encoded,_,hs⟩ := bind_eq_ok.mp h
  obtain rfl := pure_eq_ok.mp hs
  exact ⟨rfl,rfl⟩

theorem takes_votePrepare {prepare : Prepare} {leader : ValidatorPublicKey}
    (hp : prepare.2.1=n.bftRoundState.currentProposal) (ha : n.AcceptedCurrent) :
    Takes self.Change n (self.votePrepare leader (prepare.2.1.hashed self.sha3))
      fun _ _ => True := by
  refine (Takes.read _).bind ?_
  rintro round m ⟨rfl,rfl⟩
  apply Takes.whenever
  · intro _
    refine (Takes.lift _).bind ?_
    rintro vote m ⟨signed,rfl⟩
    have message := (msg_of_sign signed).1
    refine Takes.any (takes_send _ ⟨?_,ha⟩)
    rw [message,← hp]
  · intro _
    trivial

theorem takes_acceptPrepare {prepare : Prepare} (hk : n.Known prepare) :
    Takes self.Change n (self.acceptPrepare prepare) fun _ _ => True := by
  refine (Takes.read _).bind ?_
  rintro round m ⟨rfl,rfl⟩
  refine (Takes.lift _).bind ?_
  rintro _ m ⟨slot,rfl⟩
  refine (Takes.lift _).bind ?_
  rintro _ m ⟨view,rfl⟩
  refine (Takes.lift _).bind ?_
  rintro leader m ⟨elected,rfl⟩
  refine (Takes.lift _).bind ?_
  rintro _ m ⟨sender,rfl⟩
  refine (Takes.lift _).bind ?_
  rintro _ m ⟨poda,rfl⟩
  refine takes_verifyStakingActions.reached.bind ?_
  rintro _ t ⟨round,reached⟩
  refine (Takes.lift _).bind ?_
  rintro _ t ⟨_,rfl⟩
  have known := known_of_changes reached hk
  rw [← round] at slot view elected poda
  have sameSlot : prepare.2.1.slot=t.bftRoundState.slot := ensure_eq_ok.mp slot
  have sameView : prepare.2.2.2=t.bftRoundState.view := ensure_eq_ok.mp view
  have own : t.bftRoundState.roundLeader=.ok prepare.1 := by
    rw [elected,ensure_eq_ok.mp sender]
  refine (Takes.modify (.accepted prepare known sameSlot sameView own poda)).reached.bind ?_
  rintro _ _ ⟨rfl,accepted⟩
  have later := known_of_changes accepted known
  refine (Takes.modify (.push prepare later)).bind ?_
  rintro _ _ rfl
  refine (Takes.read _).bind ?_
  rintro round u ⟨rfl,rfl⟩
  split
  · exact Takes.pure trivial
  · refine (takes_votePrepare ?_ ?_).bind ?_
    · rfl
    · exact ⟨_,List.mem_append_right _ List.mem_cons_self,prepare,rfl,rfl,sameSlot,sameView⟩
    · intro _ _ _
      exact Takes.pure trivial

theorem takes_followPrepare {draw : Nat} {prepare : Prepare} (hh : n.Handling prepare) :
    Takes self.Change n (self.followPrepare now draw prepare) fun _ _ => True := by
  refine (Takes.read _).bind ?_
  rintro round m ⟨rfl,rfl⟩
  apply Takes.ite
  · intro _
    exact Takes.pure trivial
  intro _
  refine (takes_processTicket hh).reached.bind ?_
  rintro processed t ⟨_,reached⟩
  have known := known_of_changes reached (handling_known hh)
  cases processed with
  | notProcessed =>
    refine (takes_bufferPrepare known).bind ?_
    intro _ _ _
    exact Takes.pure trivial
  | processed => exact takes_acceptPrepare known

theorem takes_onPrepareOnce {draw : Nat} {prepare : Prepare} :
    Takes self.Change n (self.onPrepareOnce now draw prepare) fun _ _ => True := by
  refine (Takes.modify (.handled prepare)).bind ?_
  rintro _ _ rfl
  have handling : (n.note (.handled prepare)).Handling prepare :=
    ⟨⟨n.bftRoundState,.handled prepare⟩,by simp,rfl,rfl,rfl⟩
  refine (Takes.read _).bind ?_
  rintro round m ⟨rfl,rfl⟩
  apply Takes.ite
  · intro _
    exact takes_followPrepare handling
  intro _
  apply Takes.ite
  · intro _
    refine (Takes.modify (.retag .follower (by simp))).bind ?_
    rintro _ _ rfl
    exact takes_followPrepare handling
  · intro _
    refine (Takes.modify (.push prepare (handling_known handling))).bind ?_
    intro _ _ _
    exact Takes.pure trivial

theorem takes_onPrepareNested {draw : Nat} {depth : Nat} {prepare : Prepare} :
    Takes self.Change n (self.onPrepareNested now draw depth prepare) fun _ _ => True := by
  induction depth generalizing n prepare with
  | zero => exact Takes.any (Takes.lift _)
  | succ depth ih =>
    refine takes_onPrepareOnce.bind ?_
    intro following t _
    cases following with
    | none => exact Takes.pure trivial
    | some next => exact ih

theorem takes_onConfirm {qc : PrepareQC} {hint : ConsensusProposalHash} :
    Takes self.Change n (self.onConfirm qc hint) fun _ _ => True := by
  refine (Takes.modify (.handledConfirm qc hint)).bind ?_
  rintro _ m entered
  have called : ⟨n.bftRoundState,.handledConfirm qc hint⟩ ∈ m.log ∧
      m.bftRoundState=n.bftRoundState := by
    rw [entered]
    simp
  clear entered
  refine (Takes.read _).bind ?_
  rintro round m ⟨rfl,rfl⟩
  apply Takes.ite
  · intro _
    exact Takes.pure trivial
  intro here
  obtain ⟨follows,rfl⟩ : m.bftRoundState.stateTag=.follower ∧
      hint=m.bftRoundState.currentProposal.hashed self.sha3 := by simpa using here
  refine (Takes.lift _).bind ?_
  rintro _ m ⟨verified,rfl⟩
  have seen : self.Change m (m.performRound
      (.seenPrepareQc m.bftRoundState.slot qc m.bftRoundState.currentProposal)
      fun round => round.updateHighestSeenPrepareQc m.bftRoundState.slot qc) := by
    have same : m.performRound
        (.seenPrepareQc m.bftRoundState.slot qc m.bftRoundState.currentProposal)
        (fun round => round.updateHighestSeenPrepareQc m.bftRoundState.slot qc)=
        m.performRound (.seenPrepareQc m.bftRoundState.slot qc m.bftRoundState.currentProposal)
          fun round => round.updatePrepareQc m.bftRoundState.slot qc
            m.bftRoundState.currentProposal := by
      unfold Node.performRound Node.perform
      dsimp only
      rw [BFTRoundState.updatePrepareQc_currentProposal]
    rw [same]
    exact .seenPrepareQc qc _ verified (Or.inl rfl)
  refine (Takes.modify seen).bind ?_
  rintro _ u stored
  apply Takes.whenever
  · intro bonded
    refine (Takes.lift _).bind ?_
    rintro leader t ⟨_,rfl⟩
    refine (Takes.lift _).bind ?_
    rintro ack t ⟨signed,rfl⟩
    have confirms : self.ConfirmedCurrent t ack.msg.1 := by
      rw [congrArg Prod.fst (msg_of_sign signed).1,stored]
      refine ⟨_,List.mem_append_left _ called.1,qc,rfl,?_,?_⟩
      · rw [← called.2]
        exact ⟨follows,rfl,verified,bonded⟩
      · rw [← called.2,Node.bftRoundState_performRound,
          ← BFTRoundState.updatePrepareQc_currentProposal]
        exact ⟨(BFTRoundState.updatePrepareQc_slot _ _ _ _).symm,
          (BFTRoundState.updatePrepareQc_view _ _ _ _).symm⟩
    exact Takes.any (takes_send _ confirms)
  · intro _
    trivial

theorem takes_onCommitWhileJoining {qc : CommitQC} {hint : ConsensusProposalHash}
    (ht : n.bftRoundState.stateTag=.joining) :
    Takes self.Change n (self.onCommitWhileJoining now qc hint) fun _ _ => True := by
  refine (Takes.read _).bind ?_
  rintro round m ⟨rfl,rfl⟩
  split
  · exact Takes.pure trivial
  apply Takes.ite
  · intro _
    exact Takes.pure trivial
  intro later
  refine (Takes.modify (.recalled _ ht (UInt64.not_le.mp fun h => later (Or.inl h)))).bind ?_
  intro _ t h
  have joining : t.bftRoundState.stateTag=.joining := by
    rw [h]
    exact ht
  refine (Takes.read _).bind ?_
  rintro round t ⟨rfl,rfl⟩
  refine (Takes.lift _).context.bind ?_
  rintro _ t ⟨verified,rfl⟩
  refine ⟨?_,fun _ _ => trivial⟩
  have joined : (do
      Node.act .joined fun round =>
        { round with slot := round.currentProposal.slot,view := 0,stateTag := .follower }
      Node.emitCommitEvent qc
      self.advanceRound now (.commitQC qc) : Handler Node Unit) t=
      self.startOver now (.commitQC qc) (((t.performRound .joined fun round =>
        { round with slot := round.currentProposal.slot,view := 0,stateTag := .follower }).note
          (.emittedCommit ⟨t.bftRoundState.staking,t.bftRoundState.currentProposal,
            qc.aggregate⟩)).setRound BFTRoundState.reset) := by
    rw [← advanceRound_eq (by simp)]
    rfl
  rw [joined]
  refine .head (.joined qc joining verified) (takes_startOver rfl ?_).steps
  exact (Node.lastCommitted_setRound _ _).trans (Node.lastCommitted_note _ _)

theorem takes_onCommit {qc : CommitQC} {hint : ConsensusProposalHash} :
    Takes self.Change n (self.onCommit now qc hint) fun _ _ => True := by
  refine (Takes.read _).bind ?_
  rintro round m ⟨rfl,rfl⟩
  cases ht : m.bftRoundState.stateTag with
  | joining => exact takes_onCommitWhileJoining ht
  | leader => exact Takes.pure trivial
  | follower =>
    apply Takes.ite
    · intro _
      exact Takes.pure trivial
    · intro _
      refine (Takes.lift _).bind ?_
      rintro _ m ⟨verified,rfl⟩
      exact takes_commit verified

theorem takes_onSyncRequest {sender : ValidatorPublicKey} {hash : ConsensusProposalHash} :
    Takes self.Change n (Node.onSyncRequest sender hash) fun _ _ => True := by
  refine (Takes.read _).bind ?_
  rintro round m ⟨rfl,rfl⟩
  split
  · exact Takes.pure trivial
  · exact Takes.any (takes_send _ (by trivial))

end Prepares

section Leader

theorem LeaderBonded.mem (h : self.LeaderBonded n) (ht : n.bftRoundState.stateTag=.leader)
    (hl : n.bftRoundState.leader≠LeaderState.default) :
    self.validatorPubkey ∈ n.bftRoundState.staking.bonded :=
  (h ht).resolve_right hl

theorem takes_propose (hb : self.validatorPubkey ∈ n.bftRoundState.staking.bonded) :
    Takes self.Change n (self.propose ticket) fun _ _ => True := by
  refine (Takes.modify (.leader _ hb fun _ => ⟨rfl,rfl⟩)).bind ?_
  intro _ t _
  refine (Takes.read _).bind ?_
  rintro round t ⟨rfl,rfl⟩
  refine (Takes.modify (.proposed _ rfl rfl)).bind ?_
  intro _ t _
  exact Takes.any (takes_send _ (by trivial))

theorem takes_createProposal {timestamp : TimestampMs} {cut : Cut} :
    Takes self.Change n (createProposal timestamp cut) fun _ m =>
      m.bftRoundState.staking=n.bftRoundState.staking := by
  refine (Takes.read _).bind ?_
  rintro _ m ⟨rfl,rfl⟩
  refine (Takes.modify (.created _ rfl)).mono ?_
  rintro _ _ rfl
  rfl

theorem takes_startRound (hj : self.LeaderBonded n) {newCut : Option Cut} {mayDelay : Bool} :
    Takes self.Change n (self.startRound now newCut mayDelay) fun _ _ => True := by
  refine (Takes.read _).bind ?_
  rintro round m ⟨rfl,rfl⟩
  apply Takes.ite
  · intro _
    exact Takes.fail _
  intro _
  apply Takes.ite
  · intro _
    refine (Takes.lift _).bind ?_
    intro _ t _
    exact Takes.fail _
  intro leads
  have leader : m.bftRoundState.stateTag=.leader := by
    simpa [BFTRoundState.isRoundLeader] using leads
  split
  · exact Takes.fail _
  next ticket pending =>
  have bonded := hj.mem leader (by
    intro default
    rw [default] at pending
    cases pending)
  refine (Takes.modify (.leader _ bonded fun _ => ⟨rfl,rfl⟩)).bind ?_
  rintro _ _ rfl
  apply Takes.ite
  · intro _
    exact takes_propose bonded
  intro _
  apply Takes.ite
  · intro _
    refine (Takes.modify (.leader _ bonded fun _ => ⟨rfl,rfl⟩)).bind ?_
    intro _ t _
    exact Takes.any (takes_send _ (by trivial))
  · intro _
    refine takes_createProposal.bind ?_
    intro _ t ht
    apply takes_propose
    rw [ht]
    exact bonded

theorem insertVote_ne_nil {T : Type} [DecidableEq T] (votes : List T) (vote : T) :
    insertVote votes vote≠[] := by
  unfold insertVote
  split
  · next known =>
    intro none
    rw [none] at known
    cases known
  · simp

theorem takes_onPrepareVote (hj : self.LeaderBonded n) {vote : PrepareVote} :
    Takes self.Change n (self.onPrepareVote vote) fun _ _ => True := by
  refine (Takes.read _).bind ?_
  rintro round m ⟨rfl,rfl⟩
  apply Takes.ite
  · intro _
    exact Takes.pure trivial
  intro here
  obtain ⟨leader,step⟩ : m.bftRoundState.stateTag=.leader ∧
      m.bftRoundState.leader.step=.prepareVote := by simpa using here
  have bonded := hj.mem leader (by
    intro default
    rw [default] at step
    cases step)
  apply Takes.ite
  · intro _
    exact Takes.fail _
  intro _
  refine (Takes.modify (.countedVote vote bonded)).bind ?_
  rintro _ _ rfl
  refine (Takes.read _).bind ?_
  rintro round _ ⟨rfl,rfl⟩
  refine (Takes.lift _).bind ?_
  rintro power _ ⟨counted,rfl⟩
  apply Takes.whenever
  · intro enough
    refine (Takes.lift _).bind ?_
    rintro aggregated _ ⟨signed,rfl⟩
    refine (Takes.modify (.leader _ bonded fun _ => ⟨rfl,rfl⟩)).bind ?_
    rintro _ _ rfl
    exact Takes.any (takes_send _ (by
      exact ⟨rfl,bonded,insertVote_ne_nil _ _,power,aggregated,counted,enough,signed,rfl⟩))
  · intro _
    trivial

theorem takes_onConfirmAck (hj : self.LeaderBonded n) {ack : ConfirmAck} :
    Takes self.Change n (self.onConfirmAck now ack) fun _ _ => True := by
  refine (Takes.read _).bind ?_
  rintro round m ⟨rfl,rfl⟩
  apply Takes.ite
  · intro _
    exact Takes.pure trivial
  intro here
  obtain ⟨leader,step⟩ : m.bftRoundState.stateTag=.leader ∧
      m.bftRoundState.leader.step=.confirmAck := by simpa using here
  have bonded := hj.mem leader (by
    intro default
    rw [default] at step
    cases step)
  apply Takes.ite
  · intro _
    exact Takes.fail _
  intro hash
  apply Takes.ite
  · intro _
    exact Takes.pure trivial
  intro _
  refine (Takes.modify (.countedAck ack bonded)).bind ?_
  rintro _ _ rfl
  refine (Takes.read _).bind ?_
  rintro round _ ⟨rfl,rfl⟩
  refine (Takes.lift _).bind ?_
  rintro power _ ⟨counted,rfl⟩
  apply Takes.whenever
  · intro enough
    refine (Takes.lift _).bind ?_
    rintro aggregated _ ⟨signed,rfl⟩
    refine (takes_send _ (by
      exact ⟨not_not.mp hash,bonded,insertVote_ne_nil _ _,power,aggregated,counted,enough,
        signed,rfl⟩)).bind ?_
    rintro _ _ rfl
    refine (Takes.lift _).bind ?_
    rintro _ _ ⟨verified,rfl⟩
    exact takes_commit verified
  · intro _
    trivial

end Leader

theorem takes_onValidatorCandidacy {candidacy : SignedByValidator ValidatorCandidacy} :
    Takes self.Change n (Node.onValidatorCandidacy candidacy) fun _ _ => True := by
  refine (Takes.read _).bind ?_
  rintro round m ⟨rfl,rfl⟩
  apply Takes.ite
  · intro _
    exact Takes.pure trivial
  intro _
  split
  · exact Takes.fail _
  · apply Takes.ite
    · intro _
      exact Takes.fail _
    · intro _
      exact Takes.any (Takes.modify (.candidates _))

theorem takes_handleNodeStateEvent {block : Block} :
    Takes self.Change n (Node.handleNodeStateEvent block) fun _ _ => True := by
  refine (takes_updateStaking fun v hv => Staking.mem_bonded_processBlock hv).bind ?_
  intro _ t _
  refine (Takes.read _).bind ?_
  rintro round t ⟨rfl,rfl⟩
  apply Takes.whenever
  · intro joining
    exact Takes.any (Takes.modify (.followed block joining.1))
  · intro _
    trivial

theorem takes_rejoin : Takes self.Change n (rejoin now) fun _ _ => True :=
  Takes.any (Takes.modifies (.tail (.single (.retag .joining (by simp)))
    (.schedule (.scheduleNext now))))

/-- A node reacts to an input by changes of these kinds only. -/
theorem takes_handle (hj : self.LeaderBonded n) {input : ConsensusInput} :
    Takes self.Change n (self.handle now input) fun _ _ => True := by
  cases input with
  | newBlock block => exact takes_handleNodeStateEvent
  | timeoutTick => exact takes_onTimeoutTick
  | startNewSlot mayDelay newCut => exact takes_startRound hj
  | restart => exact takes_rejoin
  | netMessage sender message draw =>
    cases message with
    | prepare proposal ticket view => exact takes_onPrepareNested
    | prepareVote vote => exact takes_onPrepareVote hj
    | confirm qc hint => exact takes_onConfirm
    | confirmAck ack => exact takes_onConfirmAck hj
    | commit qc hint => exact takes_onCommit
    | timeout timeout => exact takes_onTimeout
    | timeoutCertificate qc kind slot view => exact takes_onTimeoutCertificate
    | validatorCandidacy candidacy => exact takes_onValidatorCandidacy
    | syncRequest hash => exact takes_onSyncRequest
    | syncReply prepare => exact takes_onPrepareNested

theorem leaderBonded_change {m : Node} (h : self.LeaderBonded n) (hc : self.Change n m) :
    self.LeaderBonded m := by
  cases hc with
  | send | commit | forcedCommit | handled | handledConfirm | forcing | verifiedTc | candidates | schedule |
      push | accepted | created | proposed | recalled | followed | appliedCommit |
      appliedTimeout | countedTimeout | joinedMutiny | certified => exact h
  | staking staking grown =>
    intro ht
    exact (h ht).imp (grown _) id
  | retag tag hb =>
    intro ht
    exact Or.inl (hb ht)
  | reset tag ht => exact fun _ => Or.inr rfl
  | joined qc ht verified => exact fun _ => Or.inr rfl
  | leader f hb hv => exact fun _ => Or.inl hb
  | countedVote vote hb => exact fun _ => Or.inl hb
  | countedAck ack hb => exact fun _ => Or.inl hb
  | seenPrepareQc qc proposal =>
    intro ht
    simp only [Node.bftRoundState_performRound,BFTRoundState.updatePrepareQc_stateTag,
      BFTRoundState.updatePrepareQc_staking,BFTRoundState.updatePrepareQc_leader] at ht ⊢
    exact h ht

/-- What a node starts with, after the genesis block or without one. -/
structure Fresh (own : ValidatorPublicKey) (n : Node) : Prop where
  requests : n.bftRoundState.timeout.requests=[]
  highestSeenPrepareQc : n.bftRoundState.timeout.highestSeenPrepareQc=none
  prepareVotes : n.bftRoundState.leader.prepareVotes=[]
  confirmAck : n.bftRoundState.leader.confirmAck=[]
  bufferedPrepares : n.bftRoundState.follower.bufferedPrepares=BufferedPrepares.empty
  bonded : n.bftRoundState.stateTag=.leader → own ∈ n.bftRoundState.staking.bonded
  log : ∀ entry ∈ n.log,(∃ committed,entry.deed=.sent (.commitConsensusProposal committed)) ∨
    entry.deed=.sent (.startNewSlot true)
  unlocked : ∀ entry ∈ n.log,entry.round.timeout.highestSeenPrepareQc=none

theorem takes_enterGenesis {staking : Staking} {signedBlock : SignedBlock} :
    Takes (fun _ _ => True)
      (freshNode.setRound fun round => { round with staking := staking })
      (self.enterGenesis signedBlock) fun _ m => Fresh self.validatorPubkey m := by
  refine (Takes.modify trivial).bind ?_
  rintro _ _ rfl
  refine (Takes.read _).bind ?_
  rintro _ _ ⟨rfl,rfl⟩
  refine (Takes.lift _).bind ?_
  rintro leader _ ⟨elected,rfl⟩
  have bonded : leader ∈ staking.bonded := BFTRoundState.roundLeader_mem elected
  refine (Takes.modify trivial).bind ?_
  rintro _ _ rfl
  refine (Takes.modify trivial).bind ?_
  rintro _ _ rfl
  apply Takes.whenever
  · rintro rfl
    refine (Takes.modify trivial).bind ?_
    rintro _ _ rfl
    refine (Takes.modify trivial).mono ?_
    rintro _ _ rfl
    exact ⟨rfl,rfl,rfl,rfl,rfl,fun _ => bonded,by simp [freshNode],
      by simp [freshNode,BFTRoundState.default,BFTRoundState.updateLeader]⟩
  · intro other
    refine ⟨rfl,rfl,rfl,rfl,rfl,?_,by simp [freshNode],
      by simp [freshNode,BFTRoundState.default]⟩
    simp [other]

theorem takes_waitGenesis {block : Block} {signedBlock : SignedBlock} :
    Takes (fun _ _ => True) freshNode (self.waitGenesis block signedBlock)
      fun _ m => Fresh self.validatorPubkey m := by
  refine (Takes.lift _).bind ?_
  rintro _ _ ⟨genesis,rfl⟩
  have zero : block.blockHeight=0 := ensure_eq_ok.mp genesis
  have followed : Takes (fun _ _ => True) freshNode (Node.handleNodeStateEvent block)
      fun _ m => m=freshNode.setRound fun round =>
        { round with staking := (Staking.new.processBlock block).2 } := by
    have processed : Takes (fun _ _ => True) freshNode
        (Node.updateStaking fun staking => staking.processBlock block)
        fun _ m => m=freshNode.setRound fun round =>
          { round with staking := (Staking.new.processBlock block).2 } :=
      ⟨.single trivial,fun _ _ => rfl⟩
    refine processed.bind ?_
    rintro _ _ rfl
    refine (Takes.read _).bind ?_
    rintro _ _ ⟨rfl,rfl⟩
    apply Takes.whenever
    · intro later
      have behind := later.2
      rw [zero] at behind
      exact absurd behind (UInt64.not_lt_zero)
    · intro _
      rfl
  refine followed.bind ?_
  rintro _ _ rfl
  exact takes_enterGenesis

theorem fresh_of_start (h : self.Start n) : Fresh self.validatorPubkey n := by
  cases h with
  | noGenesis now _ h =>
    have joins : Takes (fun _ _ => True) freshNode (rejoin now) fun _ m => Fresh self.validatorPubkey m := by
      refine (Takes.modify trivial).mono ?_
      rintro _ _ rfl
      exact ⟨rfl,rfl,rfl,rfl,rfl,fun ht => (by cases ht),by simp [freshNode],by simp [freshNode]⟩
    have returned := joins.value () (congrArg Prod.fst h)
    rw [h] at returned
    exact returned
  | genesis block signedBlock _ h =>
    have starts : Takes (fun _ _ => True) freshNode (self.waitGenesis block signedBlock)
        fun _ m => Fresh self.validatorPubkey m := takes_waitGenesis
    have returned := starts.value () (congrArg Prod.fst h)
    rw [h] at returned
    exact returned

/-- What holds at the start and is kept by every change holds in every state of a run. -/
theorem run_induction {I : Node → Prop} (start : ∀ n,Fresh self.validatorPubkey n → I n)
    (change : ∀ n m,self.LeaderBonded n → I n → self.Change n m → I m) (h : self.Run n) : I n := by
  have both : self.LeaderBonded n ∧ I n := by
    induction h with
    | start h =>
      have fresh := fresh_of_start h
      exact ⟨fun ht => Or.inl (fresh.bonded ht),start _ fresh⟩
    | step run hn ih =>
      rename_i n next now input
      have steps : Relation.ReflTransGen self.Change n (self.handle now input n).2 :=
        (takes_handle ih.1).steps
      have reached : (self.handle now input n).2=next := by
        unfold Consensus.next at hn
        split_ifs at hn
        exact Option.some.inj hn
      rw [reached] at steps
      clear reached hn
      induction steps with
      | refl => exact ih
      | tail _ last both => exact ⟨leaderBonded_change both.1 last,change _ _ both.1 both.2 last⟩
  exact both.2

end Consensus

end TruthSeeker
