import TruthSeeker.Consensus.CommitCertificate
import TruthSeeker.Consensus.HandlerChanges
import TruthSeeker.Crypto.Aggregation

namespace TruthSeeker

open Outcome

namespace Consensus

variable {PublicKey BlstSignature : Type} (self : Consensus PublicKey BlstSignature)

/-- The certificate of a commit event is one of commit votes for its proposal, or a timeout
of the following slot has been verified before. -/
def Justified (before : List Entry) (entry : Entry) : Prop :=
  ∀ committed,entry.deed=.emittedCommit committed →
    entry.round.verifyQuorumCertificate self.crypto.toBlst
        (committed.consensusProposal.hashed self.sha3,(⟨⟩ : ConfirmAckMarker))
        (⟨committed.certificate,⟨⟩⟩ : CommitQC)=.ok () ∨
      ∃ earlier ∈ before,∃ qc kind view,
        earlier.deed=.verifiedTc qc kind (committed.consensusProposal.slot+1) view ∧
          earlier.round.parentHash=committed.consensusProposal.hashed self.sha3

/-- No call of `on_prepare` has a ticket that commits the proposal of the slot before it. -/
def Unforced (n : Node) : Prop :=
  ∀ entry ∈ n.log,∀ prepare,entry.deed=.handled prepare →
    entry.round.forcedBy self.sha3 prepare=false

variable {self} {n m : Node}

theorem Unforced.of_change (h : self.Unforced m) (hc : self.Change n m) : self.Unforced n :=
  fun entry he => h entry ((change_log hc).subset he)

/-- A node that handles a prepare has it in its history, with a round that forces the same. -/
theorem not_handling_forced {prepare : Prepare} (h : self.Unforced n) (hh : n.Handling prepare)
    (hf : n.bftRoundState.forcedBy self.sha3 prepare=true) : False := by
  obtain ⟨entry,he,hd,slot,current⟩ := hh
  have same : entry.round.forcedBy self.sha3 prepare=
      n.bftRoundState.forcedBy self.sha3 prepare := by
    unfold BFTRoundState.forcedBy BFTRoundState.forcesCommit
      BFTRoundState.currentSlotPrepareIsPresent BFTRoundState.currentProposalChangesVotingPower
    rw [slot,current]
  have free := h entry he prepare hd
  rw [same,hf] at free
  cases free

/-- Every commit so far has a verified certificate, and none has been forced. -/
structure Certified (node : Consensus PublicKey BlstSignature) (n : Node) : Prop where
  commits : ∀ entry ∈ n.log,∀ committed,entry.deed=.emittedCommit committed →
    entry.round.verifyQuorumCertificate node.crypto.toBlst
      (committed.consensusProposal.hashed node.sha3,(⟨⟩ : ConfirmAckMarker))
      (⟨committed.certificate,⟨⟩⟩ : CommitQC)=.ok ()
  unforced : ∀ entry ∈ n.log,∀ proposal view,entry.deed≠.forcing proposal view

theorem Certified.of_log (h : Certified self n) {entries : List Entry}
    (hl : m.log=n.log++entries)
    (hc : ∀ entry ∈ entries,∀ committed,entry.deed=.emittedCommit committed →
      entry.round.verifyQuorumCertificate self.crypto.toBlst
        (committed.consensusProposal.hashed self.sha3,(⟨⟩ : ConfirmAckMarker))
        (⟨committed.certificate,⟨⟩⟩ : CommitQC)=.ok ())
    (hf : ∀ entry ∈ entries,∀ proposal view,entry.deed≠.forcing proposal view) :
    Certified self m where
  commits := by
    rw [hl]
    exact List.forall_mem_append.mpr ⟨h.commits,hc⟩
  unforced := by
    rw [hl]
    exact List.forall_mem_append.mpr ⟨h.unforced,hf⟩

theorem certified_change (hu : self.Unforced m) (h : Certified self n) (hc : self.Change n m) :
    Certified self m := by
  have before := hu.of_change hc
  cases hc with
  | forcing prepare hh hf => exact (not_handling_forced before hh hf).elim
  | forcedCommit proposal view hf =>
    obtain ⟨entry,he,hd⟩ := hf
    exact absurd hd (h.unforced entry he proposal view)
  | commit qc verified =>
    refine h.of_log (Node.log_note _ _) ?_ (by simp)
    intro entry he committed hd
    obtain rfl := List.mem_singleton.mp he
    cases hd
    exact verified
  | joined qc ht verified =>
    refine h.of_log (List.append_assoc _ _ _) ?_ (by simp)
    intro entry he committed hd
    obtain rfl|he := List.mem_cons.mp he
    · cases hd
    · obtain rfl := List.mem_singleton.mp he
      cases hd
      exact (BFTRoundState.verifyQuorumCertificate_congr (by rfl) _ _).trans verified
  | candidates | staking | schedule | retag | push | reset | leader =>
    exact h.of_log (List.append_nil _).symm (by simp) (by simp)
  | _ => exact h.of_log rfl (by simp) (by simp)

theorem certified_of_run (run : self.Run n) (hu : self.Unforced n) : Certified self n := by
  refine run_induction (I := fun n => self.Unforced n → Certified self n) ?_ ?_ run hu
  · intro n fresh _
    constructor
    · intro entry he committed hd
      obtain ⟨_,sent⟩|sent := fresh.log entry he
      · rw [sent] at hd
        cases hd
      · rw [sent] at hd
        cases hd
    · intro entry he proposal view hd
      obtain ⟨_,sent⟩|sent := fresh.log entry he
      · rw [sent] at hd
        cases hd
      · rw [sent] at hd
        cases hd
  · intro n m _ ih hc hu
    exact certified_change hu (ih (hu.of_change hc)) hc

/-- In every run that forces no commit, each call of `emit_commit_event` is for a proposal
whose commit certificate has been verified. -/
theorem commits_justified (n : Node) (run : self.Run n) (hu : self.Unforced n) :
    ∀ before entry after,n.log=before++entry::after → self.Justified before entry := by
  intro before entry after hl committed hd
  left
  apply (certified_of_run run hu).commits entry _ committed hd
  rw [hl]
  exact List.mem_append_right _ List.mem_cons_self

end Consensus

namespace FourValidators

open Consensus

/-- The validators stake in the genesis block, and it bonds them. -/
def genesisBlock : Block where
  parentHash := ""
  hash := ""
  blockHeight := 0
  blockTimestamp := 0
  dpParentHashes := ∅
  laneIds := ∅
  successfulTxs := []
  failedTxs := []
  timedOutTxs := []
  droppedDuplicateTxs := []
  blobProofOutputs := []
  verifiedBlobs := []
  newBoundedValidators := [[1],[2],[3],[4]]
  stakingActions :=
    [("a",.stake 100),("b",.stake 100),("c",.stake 100),("d",.stake 100),
      ("a",.delegate [1]),("b",.delegate [2]),("c",.delegate [3]),("d",.delegate [4])]
  registeredContracts := ∅
  deletedContracts := ∅
  updatedStates := ∅
  updatedProgramIds := ∅
  updatedTimeoutWindows := ∅
  transactionsEvents := ∅
  txs := []

def genesis : SignedBlock := ⟨[],⟨0,"",[],[],0⟩,Inhabited.default⟩

-- SHA3-256 of the genesis proposal, of a first one on it and of a second one on that, and of
-- another first one with its staking actions and without, and of two second ones on the last.
def genesisDigest : H256 :=
  ByteVec.ofNat 32 0xdd65132c50b1b0b6d6f2ee368ef4b1446ab4b06e9cd5d9769bf4150196f19e58

def firstDigest : H256 :=
  ByteVec.ofNat 32 0x5eeba6ea8118d321f17a4b33b007bb73cf36590a4d733320db4fe3f4a4a51653

def secondDigest : H256 :=
  ByteVec.ofNat 32 0x981b4fa36f75b01ae2fe22c035ff7ec90ccc6f5ae56b19379eeced707b8310b6

def payingDigest : H256 :=
  ByteVec.ofNat 32 0xf17659caa3ce5929acfeaf71c6195946b428a7440f4b18f9853518e225c5bb7f

def paidDigest : H256 :=
  ByteVec.ofNat 32 0x9cd469033468dadb92d1bfaab9048d104a3a2caff5517d722e73f2584652e7f5

def inflatedDigest : H256 :=
  ByteVec.ofNat 32 0x0700a6d1f02a9ad321024f90ef2505e2b1f11e91e0264338a23e317375227985

def widenedDigest : H256 :=
  ByteVec.ofNat 32 0x8aa23211eaedc6ab8c41835a2e0fdcf07db2a4a0d0409a12ea9a09b34c4fa066

def first : ConsensusProposal := ⟨1,Bytes.hex genesisDigest.toList,[],[],0⟩

def second : ConsensusProposal := ⟨2,Bytes.hex firstDigest.toList,[],[],2⟩

/-- A proposal with a data proposal of the first validator, who pays for it. -/
def paying : ConsensusProposal where
  slot := 1
  parentHash := Bytes.hex genesisDigest.toList
  cut := [([1],"dp",10,⟨(toVec ("dp",(10 : LaneBytesSize))).toOption.getD [],[[1],[2]]⟩)]
  stakingActions := [.payFeesForDaDi [1] 10]
  timestamp := 1

def paid : ConsensusProposal := { paying with stakingActions := [] }

/-- A proposal after that one where the lane has grown without a new data proposal. -/
def inflated : ConsensusProposal :=
  ⟨2,Bytes.hex paidDigest.toList,[([1],"dp",1000,⟨[],[]⟩)],[],2⟩

/-- A proposal after that one that keeps the lane and has a first data proposal of another. -/
def widened : ConsensusProposal where
  slot := 2
  parentHash := Bytes.hex paidDigest.toList
  cut := paid.cut++
    [([2],"dq",5,⟨(toVec ("dq",(5 : LaneBytesSize))).toOption.getD [],[[1],[2]]⟩)]
  stakingActions := []
  timestamp := 2

/-- The module of one of the validators, with the messages that each of them has signed. -/
def consensus (signed : UInt8 → Bytes → Bool) (own : UInt8) : Consensus Bytes Bytes where
  crypto := .ofVoter signed own
  config := ⟨.full,1000,""⟩
  sha3 := ByteVec.lookup [(genesis.consensusProposal.preimage,genesisDigest),
    (first.preimage,firstDigest),(second.preimage,secondDigest),
    (paying.preimage,payingDigest),(paid.preimage,paidDigest),
    (inflated.preimage,inflatedDigest),(widened.preimage,widenedDigest)]
  stackDepth := 2

/-- The staking after the actions of the genesis block. -/
def acted : Staking :=
  (Staking.processEach Staking.processAction genesisBlock.stakingActions Staking.new).2

/-- The same with validators that are bonded, each with a stake of 100. -/
def bondedBy (bonded : List ValidatorPublicKey) : Staking :=
  { acted with bonded := bonded,totalBond := BitVec.ofNat 128 (100*bonded.length) }

def staked : Staking := bondedBy [[1],[2],[3],[4]]

theorem acted_stakes :
    (Staking.processEach Staking.processAction genesisBlock.stakingActions
      Staking.new).1.toOption=some () ∧
    acted.bonded=[] ∧ acted.totalBond=0 ∧
    ∀ v ∈ genesisBlock.newBoundedValidators,acted.getStake v=some 100 := by
  decide +kernel

/-- A validator that comes after the bonded ones joins them at the end. -/
theorem bond_bondedBy (bonded : List ValidatorPublicKey) (v : ValidatorPublicKey)
    (hv : v ∈ genesisBlock.newBoundedValidators) (fresh : v∉bonded)
    (sorted : (bonded++[v]).Pairwise fun v w => (compare v w).isLE=true) :
    (bondedBy bonded).bond v=.ok (bondedBy (bonded++[v])) := by
  have unknown : (bondedBy bonded).isBonded v=false := by
    simpa [Staking.isBonded,bondedBy] using fun w hw (he : w=v) => fresh (he ▸ hw)
  have stake : (bondedBy bonded).getStake v=some 100 := acted_stakes.2.2.2 v hv
  have enough : ¬(100 : U128)<MIN_STAKE := by decide
  have total : (bondedBy bonded).totalBond+100=(bondedBy (bonded++[v])).totalBond := by
    simp [bondedBy,Nat.mul_add,BitVec.ofNat_add]
  have order : ((bondedBy bonded).bonded++[v]).mergeSort (fun v w => (compare v w).isLE)=
      (bondedBy (bonded++[v])).bonded := List.mergeSort_of_pairwise sorted
  unfold Staking.bond
  rw [unknown,stake]
  simp only [Bool.false_eq_true,if_false,if_neg enough,total,order]
  rfl

theorem processBlock_genesisBlock : Staking.new.processBlock genesisBlock=(.ok (),staked) := by
  have actions : Staking.processEach Staking.processAction genesisBlock.stakingActions
      Staking.new=(.ok (),acted) := by
    refine Prod.ext ?_ rfl
    have returned := acted_stakes.1
    revert returned
    cases (Staking.processEach Staking.processAction genesisBlock.stakingActions Staking.new).1
    · simp [Except.toOption]
    · simp
  have none : acted=bondedBy [] := by
    have total : acted.totalBond=BitVec.ofNat 128 (100*0) := acted_stakes.2.2.1
    unfold bondedBy
    rw [List.length_nil,← total,← acted_stakes.2.1]
  have one := bond_bondedBy [] [1] (by decide) (by decide) (by decide)
  have two := bond_bondedBy [[1]] [2] (by decide) (by decide) (by decide)
  have three := bond_bondedBy [[1],[2]] [3] (by decide) (by decide) (by decide)
  have four := bond_bondedBy [[1],[2],[3]] [4] (by decide) (by decide)
    (by decide)
  have bonds : Staking.processEach (fun self validator => self.applied (self.bond validator))
      genesisBlock.newBoundedValidators (bondedBy [])=(.ok (),staked) := by
    simp only [genesisBlock,Staking.processEach,one,two,three,four,Staking.applied,
      List.nil_append,List.cons_append,staked]
  unfold Staking.processBlock
  rw [actions]
  exact none ▸ bonds

/-- The node once it has processed the genesis block. -/
def genesisNode : Node := freshNode.setRound fun round => { round with staking := staked }

def started (node : Consensus Bytes Bytes) : Node := (node.enterGenesis genesis genesisNode).2

theorem handleNodeStateEvent_genesisBlock :
    Node.handleNodeStateEvent genesisBlock freshNode=(.ok (),genesisNode) := by
  have staking : Node.updateStaking (fun staking => staking.processBlock genesisBlock)
      freshNode=(.ok (),genesisNode) := by
    have processed : freshNode.bftRoundState.staking.processBlock genesisBlock=(.ok (),staked) :=
      processBlock_genesisBlock
    simp only [Node.updateStaking,processed]
    rfl
  exact Handler.bind_of_ok staking

theorem run_started {node : Consensus Bytes Bytes}
    (h : (node.enterGenesis genesis genesisNode).1.toOption=some ()) : node.Run (started node) := by
  have entered : node.enterGenesis genesis genesisNode=(.ok (),started node) := by
    refine Prod.ext ?_ rfl
    revert h
    cases (node.enterGenesis genesis genesisNode).1
    · simp [Except.toOption]
    · simp
  refine .start (.genesis genesisBlock genesis _ ?_)
  have processed : (Node.handleNodeStateEvent genesisBlock >>= fun _ =>
      node.enterGenesis genesis) freshNode=node.enterGenesis genesis genesisNode :=
    Handler.bind_of_ok handleNodeStateEvent_genesisBlock
  exact processed.trans entered

/-- The leader of the first slot sends a proposal. -/
def prepareOf (proposal : ConsensusProposal) : ConsensusInput :=
  .netMessage [1] (.prepare proposal .genesis 0) 0

/-- The leader sends the certificate of the commit votes of three validators for a proposal. -/
def commitOf (digest : H256) : ConsensusInput :=
  .netMessage [1] (.commit
    ⟨⟨(toVec (Bytes.hex digest.toList)).toOption.getD [],[[1],[2],[3]]⟩,⟨⟩⟩
    (Bytes.hex digest.toList)) 0

/-- The module of the fourth validator where the other three sign everything. -/
def fourth : Consensus Bytes Bytes := consensus (fun v _ => v≠4) 4

/-- The same where nobody has signed anything. -/
def unsigned : Consensus Bytes Bytes := consensus (fun _ _ => false) 4

/-- The node has accepted the first proposal. -/
def prepared (node : Consensus Bytes Bytes) : Node :=
  node.after (prepareOf first) (started node)

def committed : Node := fourth.after (commitOf firstDigest) (prepared fourth)

/-- A certificate of a timeout that nobody has signed. -/
def noTimeout : TimeoutQC := ⟨Inhabited.default,⟨⟩⟩

/-- A proposal of the next slot under a made-up certificate. -/
def secondPrepare : ConsensusInput :=
  .netMessage [2] (.prepare second (.timeoutQC noTimeout .nilProposal) 1) 0

def forced : Node := unsigned.after secondPrepare (prepared unsigned)

/-- The certificate of a commit event. -/
def certificate : Deed → Option AggregateSignature
  | .emittedCommit committed => some committed.certificate
  | _ => none

def isVerifiedTc : Deed → Bool
  | .verifiedTc _ _ _ _ => true
  | _ => false

/-- The validators behind the first commit. -/
def signersOfCommit (log : List Entry) : Option (List ValidatorPublicKey) :=
  log.findSome? fun entry => (certificate entry.deed).map AggregateSignature.validators

def forcedIn (entry : Entry) : Bool :=
  match entry.deed with
  | .handled prepare => entry.round.forcedBy fourth.sha3 prepare
  | _ => false

theorem commits_and_forces :
    ((fourth.enterGenesis genesis genesisNode).1.toOption=some () ∧
      (fourth.handle 0 (prepareOf first) (started fourth)).1.panics=false ∧
      (fourth.handle 0 (commitOf firstDigest) (prepared fourth)).1.panics=false ∧
      signersOfCommit committed.log=some [[1],[2],[3]] ∧
      committed.log.any forcedIn=false) ∧
    (unsigned.enterGenesis genesis genesisNode).1.toOption=some () ∧
      (unsigned.handle 0 (prepareOf first) (started unsigned)).1.panics=false ∧
      (unsigned.handle 0 secondPrepare (prepared unsigned)).1.panics=false ∧
      signersOfCommit forced.log=some [] ∧
      forced.log.any (fun entry => isVerifiedTc entry.deed)=false := by
  decide +kernel

/-- The history of a commit in it. -/
theorem split_of_signersOfCommit {log : List Entry} {signers : List ValidatorPublicKey}
    (h : signersOfCommit log=some signers) :
    ∃ before entry after committed,log=before++entry::after ∧
      entry.deed=.emittedCommit committed ∧ committed.certificate.validators=signers := by
  obtain ⟨before,entry,after,hl,found,_⟩ := List.findSome?_eq_some_iff.mp h
  refine ⟨before,entry,after,?_⟩
  revert found
  cases hd : entry.deed with
  | emittedCommit committed => exact fun found => ⟨committed,hl,rfl,Option.some.inj found⟩
  | _ => simp [certificate]

theorem run_forced : unsigned.Run forced := by
  have facts := commits_and_forces.2
  exact ((run_started facts.1).after facts.2.1).after facts.2.2.1

theorem run_committed : fourth.Run committed := by
  have facts := commits_and_forces.1
  exact ((run_started facts.1).after facts.2.1).after facts.2.2.1

end FourValidators

open FourValidators in
/-- Three of the four validators have signed a commit vote. -/
theorem Consensus.commits_justified_committed : fourth.Run committed ∧
    ∃ before entry after commit,committed.log=before++entry::after ∧
      entry.deed=.emittedCommit commit ∧ commit.certificate.validators=[[1],[2],[3]] ∧
      fourth.Justified before entry := by
  have facts := commits_and_forces.1
  have free : fourth.Unforced committed := by
    intro entry he prepare hd
    have unforced := facts.2.2.2.2
    rw [List.any_eq_false] at unforced
    simpa [forcedIn,hd] using unforced entry he
  obtain ⟨before,entry,after,commit,hl,hd,signers⟩ := split_of_signersOfCommit facts.2.2.2.1
  exact ⟨run_committed,before,entry,after,commit,hl,hd,signers,
    commits_justified _ run_committed free before entry after hl⟩

open FourValidators in
/-- A proposal of the next slot under a certificate of a timeout that nobody has signed commits
the proposal of the slot before it. -/
theorem Consensus.not_commits_justified : ¬∀ n : Node,unsigned.Run n →
    ∀ before entry after,n.log=before++entry::after → unsigned.Justified before entry := by
  intro justified
  have facts := commits_and_forces.2
  obtain ⟨before,entry,after,commit,hl,hd,signers⟩ := split_of_signersOfCommit facts.2.2.2.1
  obtain verified|⟨earlier,he,qc,kind,view,tc,_⟩ := justified _ run_forced before entry after hl
    commit hd
  · -- Nobody is behind the certificate.
    obtain ⟨_,_,_,_,power⟩ :=
      (BFTRoundState.verifyQuorumCertificate_eq_ok _ _).mp verified
    exact Staking.quorum_ne_nil power signers
  · have none := facts.2.2.2.2
    rw [List.any_eq_false] at none
    apply none earlier (hl ▸ List.mem_append_left _ he)
    simp [isVerifiedTc,tc]

end TruthSeeker
