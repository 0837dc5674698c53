import TruthSeeker.Consensus.CommittedIdentity
import TruthSeeker.Staking.Applying

namespace TruthSeeker

open Outcome

section
variable (actions : List ConsensusStakingAction)

/-- The validators that the actions bond. -/
def bondsOf : List ValidatorPublicKey :=
  actions.filterMap fun
    | .bond candidate => some candidate.signature.validator
    | .payFeesForDaDi _ _ => none

/-- The lanes that pay, with their sizes. -/
def paysOf : List (LaneId × LaneBytesSize) :=
  actions.filterMap fun
    | .bond _ => none
    | .payFeesForDaDi laneId cumulSize => some (laneId,cumulSize)

end

namespace Staking

variable {self next : Staking} {actions : List ConsensusStakingAction}

/-- The actions are carried out exactly if those who are to be bonded can be. -/
theorem processEach_applyAction_eq_ok :
    (processEach applyAction actions self).1=.ok () ↔
      (∀ v ∈ bondsOf actions,self.Bondable v) ∧ (bondsOf actions).Nodup := by
  induction actions generalizing self with
  | nil => simp [processEach,bondsOf]
  | cons action actions ih =>
    cases action with
    | payFeesForDaDi laneId cumulSize => exact @ih (self.payForDadi laneId cumulSize)
    | bond candidate =>
      show _ ↔ (∀ v ∈ candidate.signature.validator::bondsOf actions,_) ∧
        (candidate.signature.validator::bondsOf actions).Nodup
      rw [bondable_cons]
      by_cases bondable : self.Bondable candidate.signature.validator
      · simp only [processEach,applyAction,bond_of_bondable bondable,applied,ih,bondable,true_and]
      · have fails : (self.applied (self.bond candidate.signature.validator)).1≠.ok () :=
          fun h => bondable (applied_bond_eq_ok.mp h)
        simp only [bondable,false_and,iff_false]
        unfold processEach applyAction
        simp only
        split
        · next hs => exact absurd (congrArg Prod.fst hs) fails
        · exact fails

/-- What the actions leave when they are carried out. -/
theorem processEach_applyAction_fields
    (h : processEach applyAction actions self=(.ok (),next)) :
    next.fees=⟨self.fees.pendingFees++paysOf actions,self.fees.balances⟩ ∧
      ∀ v,v ∈ next.bonded ↔ v ∈ self.bonded++bondsOf actions := by
  induction actions generalizing self with
  | nil =>
    obtain rfl := congrArg Prod.snd h
    simp [processEach,paysOf,bondsOf]
  | cons action actions ih =>
    cases action with
    | payFeesForDaDi laneId cumulSize =>
      obtain ⟨fees,bonded⟩ := @ih (self.payForDadi laneId cumulSize) h
      refine ⟨fees.trans ?_,bonded⟩
      simp [payForDadi,Fees.payForDadi,paysOf]
    | bond candidate =>
      have head : (self.applied (self.bond candidate.signature.validator)).1=.ok () := by
        by_contra fails
        unfold processEach applyAction at h
        simp only at h
        split at h
        · next hs => exact fails (congrArg Prod.fst hs)
        · exact fails (congrArg Prod.fst h)
      have bondable := applied_bond_eq_ok.mp head
      simp only [processEach,applyAction,bond_of_bondable bondable,applied] at h
      obtain ⟨fees,bonded⟩ := ih h
      refine ⟨fees,?_⟩
      intro v
      rw [bonded,List.mem_append,mem_bonded_bonding,List.mem_append,or_assoc]
      show _ ↔ _ ∨ v ∈ candidate.signature.validator::bondsOf actions
      rw [List.mem_cons]

/-- The actions of a proposal can be applied: everyone who is to be bonded can be, somebody is
bonded then, and the fees that are pending then can be distributed. -/
structure Admits (staking : Staking) (actions : List ConsensusStakingAction) : Prop where
  bonds : ∀ v ∈ bondsOf actions,staking.Bondable v
  distinct : (bondsOf actions).Nodup
  bonded : staking.bonded++bondsOf actions≠[]
  fees : Fees.Distributable (staking.bonded++bondsOf actions) staking.fees.balances
    (staking.fees.pendingFees++paysOf actions)

theorem distribute_eq_ok (hb : self.bonded≠[]) :
    self.distribute.1=.ok () ↔
      Fees.Distributable self.bonded self.fees.balances self.fees.pendingFees :=
  Fees.distributeAll_eq_ok hb

/-- Who is bonded does not change with the fees. -/
theorem bonded_distribute : self.distribute.2.bonded=self.bonded := rfl

theorem applyActions_eq_ok :
    (applyActions actions self).1=.ok () ∧ (applyActions actions self).2.bonded≠[] ↔
      self.Admits actions := by
  have carried := @processEach_applyAction_eq_ok self actions
  have fields := @processEach_applyAction_fields self
  unfold applyActions
  rcases hp : processEach applyAction actions self with ⟨result,next⟩
  rw [hp] at carried
  cases result with
  | error fault =>
    have stopped : ¬((∀ v ∈ bondsOf actions,self.Bondable v) ∧ (bondsOf actions).Nodup) :=
      fun h => by cases carried.mpr h
    simp only [reduceCtorEq,false_and,false_iff]
    intro h
    exact stopped ⟨h.bonds,h.distinct⟩
  | ok u =>
    obtain ⟨bonds,distinct⟩ := carried.mp rfl
    obtain ⟨fees,bonded⟩ := fields hp
    have nonempty : next.bonded≠[] ↔ self.bonded++bondsOf actions≠[] := by
      simp only [Ne,List.eq_nil_iff_forall_not_mem,bonded]
    have distributable : Fees.Distributable next.bonded next.fees.balances next.fees.pendingFees ↔
        Fees.Distributable (self.bonded++bondsOf actions) self.fees.balances
          (self.fees.pendingFees++paysOf actions) := by
      rw [fees]
      exact Fees.Distributable.congr bonded
    show next.distribute.1=.ok () ∧ next.distribute.2.bonded≠[] ↔ _
    rw [bonded_distribute]
    constructor
    · intro ⟨ok,hb⟩
      exact ⟨bonds,distinct,nonempty.mp hb,distributable.mp ((distribute_eq_ok hb).mp ok)⟩
    · intro h
      have hb := nonempty.mpr h.bonded
      exact ⟨(distribute_eq_ok hb).mpr (distributable.mpr h.fees),hb⟩

end Staking

namespace BFTRoundState

variable {round : BFTRoundState}

/-- A leader is found as soon as somebody is bonded. -/
theorem exists_roundLeader_iff :
    (∃ leader,round.roundLeader=.ok leader) ↔ round.staking.bonded≠[] := by
  unfold roundLeader
  simp only [bind_eq_ok,panicUnless_eq_ok,fromOption_eq_ok]
  constructor
  · rintro ⟨_,_,some,_⟩ none
    exact some (congrArg List.length none)
  · intro some
    have length : round.staking.bonded.length≠0 :=
      fun h => some (List.eq_nil_of_length_eq_zero h)
    have inside : (round.slot+round.view-1).toNat%round.staking.bonded.length<
        round.staking.bonded.length := Nat.mod_lt _ (Nat.pos_of_ne_zero length)
    exact ⟨_,(),length,List.getElem?_eq_getElem inside⟩

end BFTRoundState

namespace Consensus

variable {PublicKey BlstSignature : Type} (self : Consensus PublicKey BlstSignature)

/-- The check of a commit ticket before it is applied. -/
def Verified (n : Node) : Ticket → Prop
  | .commitQC qc => n.bftRoundState.verifyCommitQuorumCertificateAgainstCurrentProposal
      self.crypto.toBlst self.sha3 qc=.ok ()
  | _ => False

/-- A verified ticket is applied, and one that is not applied changes nothing of the round. -/
def AppliesAtomically (now : TimestampMs) (n : Node) (ticket : Ticket) : Prop :=
  (self.Verified n ticket → (self.applyTicket now ticket n).1=.ok ()) ∧
    ((self.applyTicket now ticket n).1≠.ok () →
      (self.applyTicket now ticket n).2.bftRoundState=n.bftRoundState)

variable {self} {now : TimestampMs} {n m : Node} {ticket : Ticket}

/-- The next round starts unless it has no leader, and the slot stays what it is. -/
theorem enterRound_cases : ((self.enterRound now m).1=.ok () ↔ m.bftRoundState.staking.bonded≠[]) ∧
    (self.enterRound now m).2.bftRoundState.slot=m.bftRoundState.slot := by
  rw [← BFTRoundState.exists_roundLeader_iff]
  unfold enterRound
  simp only [Handler.bind_apply,Node.round,Handler.read,Handler.lift]
  cases m.bftRoundState.roundLeader with
  | error fault => simp
  | ok leader =>
    simp only
    split_ifs <;> exact ⟨⟨fun _ => ⟨leader,rfl⟩,fun _ => rfl⟩,rfl⟩

/-- What the commit of the current proposal leaves to the next round. -/
theorem useTicket_eq (self : Consensus PublicKey BlstSignature) (n : Node)
    (he : ticket.endsSlot=true) : ∃ m : Node,
      self.useTicket ticket (n.setRound BFTRoundState.reset)=((Staking.applyActions
        n.bftRoundState.currentProposal.stakingActions n.bftRoundState.staking).1,m) ∧
      m.bftRoundState.staking=(Staking.applyActions
        n.bftRoundState.currentProposal.stakingActions n.bftRoundState.staking).2 ∧
      m.bftRoundState.slot=n.bftRoundState.slot+1 := by
  cases ticket with
  | commitQC qc => exact ⟨_,rfl,rfl,rfl⟩
  | forcedCommitQc => exact ⟨_,rfl,rfl,rfl⟩
  | genesis => cases he
  | timeoutQC qc kind => cases he

/-- A round that ends is followed by the next slot even where the staking actions fail. -/
theorem applyTicket_cases (he : ticket.endsSlot=true) (ht : n.bftRoundState.stateTag≠.joining) :
    ((self.applyTicket now ticket n).1=.ok () ↔
      n.bftRoundState.staking.Admits n.bftRoundState.currentProposal.stakingActions) ∧
    (self.applyTicket now ticket n).2.bftRoundState.slot=n.bftRoundState.slot+1 := by
  have applied : self.applyTicket now ticket n=
      (do self.useTicket ticket; self.enterRound now : Handler Node Unit)
        (n.setRound BFTRoundState.reset) := applyTicket_eq ht
  obtain ⟨m,used,staking,slot⟩ := useTicket_eq self n he
  rw [applied,← Staking.applyActions_eq_ok]
  cases hs : (Staking.applyActions n.bftRoundState.currentProposal.stakingActions
      n.bftRoundState.staking).1 with
  | error fault =>
    rw [hs] at used
    rw [Handler.bind_of_error used]
    simp [slot]
  | ok u =>
    rw [hs] at used
    rw [Handler.bind_of_ok used,← staking]
    obtain ⟨returned,same⟩ := @enterRound_cases _ _ self now m
    exact ⟨by simpa using returned,same.trans slot⟩

/-- A ticket that commits is applied as a whole exactly if the staking admits the actions of
the current proposal; a node that takes no part leaves its round alone. -/
theorem appliesAtomically_iff (he : ticket.endsSlot=true) :
    self.AppliesAtomically now n ticket ↔
      (n.bftRoundState.stateTag=.joining ∧ ¬self.Verified n ticket) ∨
      (n.bftRoundState.stateTag≠.joining ∧
        n.bftRoundState.staking.Admits n.bftRoundState.currentProposal.stakingActions) := by
  by_cases ht : n.bftRoundState.stateTag=.joining
  · have stays : self.applyTicket now ticket n=
        (.error (.err "Cannot finish_round unless synchronized to the consensus."),n) :=
      applyTicket_joining ht
    simp [AppliesAtomically,stays,ht]
  · obtain ⟨returned,slot⟩ := @applyTicket_cases _ _ self now n ticket he ht
    have moved : (self.applyTicket now ticket n).2.bftRoundState≠n.bftRoundState := by
      intro same
      rw [same] at slot
      simp at slot
    simp only [AppliesAtomically,ne_eq,returned,ht,moved,imp_false,not_not,false_and,false_or,
      not_false_eq_true,true_and]
    exact ⟨fun h => h.2,fun h => ⟨fun _ => h,h⟩⟩

end Consensus

namespace FourValidators

open Consensus

/-- The certificate of the commit votes of three validators. -/
def commitQcOf (digest : H256) : CommitQC :=
  ⟨⟨(toVec (Bytes.hex digest.toList)).toOption.getD [],[[1],[2],[3]]⟩,⟨⟩⟩

def verifiesCommit (digest : H256) (n : Node) : Bool :=
  (n.bftRoundState.verifyCommitQuorumCertificateAgainstCurrentProposal fourth.crypto.toBlst
    fourth.sha3 (commitQcOf digest)).toOption=some ()

/-- A block in which the first validator deposits for fees. -/
def depositBlock : Block :=
  { genesisBlock with
    newBoundedValidators := []
    stakingActions := [("a",.depositForFees [1] 1000)] }

/-- After the deposit the node accepts the proposal that pays. -/
def fundedPrepared : Node :=
  fourth.after (prepareOf paying) (fourth.after (.newBlock depositBlock) (started fourth))

/-- The same with a fee of the first validator that is still to be distributed. -/
def owing : Node :=
  let round := fundedPrepared.bftRoundState
  { fundedPrepared with bftRoundState := { round with
      staking := { round.staking with
        fees := { round.staking.fees with pendingFees := [([1],4)] } } } }

theorem applies_and_stops :
    (owing.bftRoundState.stateTag≠.joining ∧
      (Staking.applyActions owing.bftRoundState.currentProposal.stakingActions
        owing.bftRoundState.staking).1.toOption=some () ∧
      (Staking.applyActions owing.bftRoundState.currentProposal.stakingActions
        owing.bftRoundState.staking).2.bonded≠[] ∧
      owing.bftRoundState.currentProposal.stakingActions=[.payFeesForDaDi [1] 10] ∧
      verifiesCommit payingDigest owing=true) ∧
    verifiesCommit payingDigest payingPrepared=true ∧
    (fourth.applyTicket 0 (.commitQC (commitQcOf payingDigest)) payingPrepared).1.toOption=
      none := by
  decide +kernel

theorem verified {digest : H256} {n : Node} (h : verifiesCommit digest n=true) :
    fourth.Verified n (.commitQC (commitQcOf digest)) := by
  have returned := of_decide_eq_true h
  show n.bftRoundState.verifyCommitQuorumCertificateAgainstCurrentProposal fourth.crypto.toBlst
    fourth.sha3 (commitQcOf digest)=.ok ()
  revert returned
  cases n.bftRoundState.verifyCommitQuorumCertificateAgainstCurrentProposal fourth.crypto.toBlst
    fourth.sha3 (commitQcOf digest) with
  | error fault => simp [Except.toOption]
  | ok u => simp

theorem admits_owing : owing.bftRoundState.staking.Admits
    owing.bftRoundState.currentProposal.stakingActions := by
  obtain ⟨_,carried,bonded,_⟩ := applies_and_stops.1
  refine Staking.applyActions_eq_ok.mp ⟨?_,bonded⟩
  revert carried
  cases (Staking.applyActions owing.bftRoundState.currentProposal.stakingActions
    owing.bftRoundState.staking).1 with
  | error fault => simp [Except.toOption]
  | ok u => simp

end FourValidators

open FourValidators in
/-- The commit of a proposal that pays, with a fee that is still to be distributed. -/
theorem Consensus.appliesAtomically_owing :
    fourth.Verified owing (.commitQC (commitQcOf payingDigest)) ∧
      fourth.AppliesAtomically 0 owing (.commitQC (commitQcOf payingDigest)) :=
  ⟨verified applies_and_stops.1.2.2.2.2,(appliesAtomically_iff rfl).mpr
    (Or.inr ⟨applies_and_stops.1.1,admits_owing⟩)⟩

open FourValidators in
/-- A proposal of which a lane without an account pays has been accepted and its commit
certificate verified, and it cannot be applied. -/
theorem Consensus.not_appliesAtomically : ¬∀ n : Node,fourth.Run n →
    ∀ ticket : Ticket,ticket.endsSlot=true → fourth.AppliesAtomically 0 n ticket := by
  intro applies
  have facts := applies_and_stops.2
  have run : fourth.Run payingPrepared :=
    (run_started commits_and_forces.1.1).after commits_and_pays.2.1
  have returned := (applies _ run (.commitQC (commitQcOf payingDigest)) rfl).1
    (verified facts.1)
  have fails := facts.2
  rw [returned] at fails
  simp [Except.toOption] at fails

end TruthSeeker
