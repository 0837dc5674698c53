import Mathlib.Algebra.BigOperators.Group.Finset.Basic
import TruthSeeker.Consensus.CommitJustified
import TruthSeeker.Framework.Quorums
import TruthSeeker.Staking.TotalBond

namespace TruthSeeker

open Outcome Quorums

theorem toNat_sum {powers : List U128} (h : (powers.map BitVec.toNat).sum<2^128) :
    powers.sum.toNat=(powers.map BitVec.toNat).sum := by
  induction powers with
  | nil => rfl
  | cons power powers ih =>
    rw [List.map_cons,List.sum_cons] at h ⊢
    have rest := ih (by omega)
    rw [List.sum_cons,BitVec.toNat_add,rest,Nat.mod_eq_of_lt h]

namespace Staking

variable (self : Staking)

/-- The power of a validator as a number. -/
def held (validator : ValidatorPublicKey) : Nat := (self.power validator).toNat

/-- The cached total is what the bonded validators hold, and they hold less than 2^128. -/
structure Exact (staking : Staking) : Prop extends Accounted staking where
  fits : (staking.bonded.map staking.held).sum<2^128

variable {self}

theorem weight_toFinset (validators : List ValidatorPublicKey) :
    weight self.held validators.toFinset=(validators.dedup.map self.held).sum := by
  have once : validators.toFinset=validators.dedup.toFinset := by
    ext v
    simp
  rw [weight,once,List.sum_toFinset _ (List.nodup_dedup validators)]

theorem Exact.weight_bonded (h : self.Exact) :
    weight self.held self.bonded.toFinset=self.totalBond.toNat := by
  have powers : (self.bonded.map self.power).map BitVec.toNat=self.bonded.map self.held := by
    rw [List.map_map]
    rfl
  rw [weight_toFinset,h.nodup.dedup,h.totalBond,toNat_sum (powers ▸ h.fits),powers]

theorem Exact.toNat_votingPower (h : self.Exact) {validators : List ValidatorPublicKey}
    (known : ∀ v ∈ validators,v ∈ self.bonded) :
    (self.computeVotingPower validators).toNat=weight self.held validators.toFinset := by
  have powers : (validators.dedup.map self.power).map BitVec.toNat=
      validators.dedup.map self.held := by
    rw [List.map_map]
    rfl
  have part : validators.toFinset⊆self.bonded.toFinset := by
    intro v hv
    rw [List.mem_toFinset] at hv ⊢
    exact known v hv
  have bound : weight self.held validators.toFinset<2^128 := by
    have below : weight self.held validators.toFinset≤weight self.held self.bonded.toFinset :=
      weight_mono part
    rw [h.weight_bonded] at below
    exact below.trans_lt self.totalBond.isLt
  rw [computeVotingPower_eq,toNat_sum]
  · rw [powers,weight_toFinset]
  · rw [powers,← weight_toFinset]
    exact bound

theorem toNat_computeF : self.computeF.toNat=self.totalBond.toNat/3 := by
  simp [computeF,BitVec.toNat_udiv]

/-- The check of the power of a certificate asks for a quorum. -/
theorem Exact.isQuorum_iff (h : self.Exact) {validators : List ValidatorPublicKey}
    (known : ∀ v ∈ validators,v ∈ self.bonded) :
    2*self.computeF+1 ≤ self.computeVotingPower validators ↔
      IsQuorum self.held self.bonded.toFinset validators.toFinset := by
  have part : validators.toFinset⊆self.bonded.toFinset := by
    intro v hv
    rw [List.mem_toFinset] at hv ⊢
    exact known v hv
  have total := self.totalBond.isLt
  have threshold : (2*self.computeF+1 : U128).toNat=2*(self.totalBond.toNat/3)+1 := by
    rw [BitVec.toNat_add,BitVec.toNat_mul,toNat_computeF]
    simp only [BitVec.ofNat_eq_ofNat,BitVec.toNat_ofNat]
    omega
  rw [BitVec.le_def,threshold,h.toNat_votingPower known,IsQuorum,h.weight_bonded]
  exact ⟨fun enough => ⟨part,enough⟩,And.right⟩

end Staking

namespace BFTRoundState

variable {PublicKey BlstSignature T Marker : Type} {blst : Blst PublicKey BlstSignature}
variable {round : BFTRoundState} {signed : ValidatorPublicKey → Bytes → Prop}

/-- A certificate that passes the check was signed by a quorum. -/
theorem isQuorum_of_verified [Borsh T] {message : T} {qc : QuorumCertificate Marker}
    (unforgeable : blst.AggregatesUnforgeable signed) (exact : round.staking.Exact)
    (h : round.verifyQuorumCertificate blst message qc=.ok ()) :
    IsQuorum round.staking.held round.staking.bonded.toFinset qc.aggregate.validators.toFinset ∧
      ∃ encoded,toVec message=.ok encoded ∧
        ∀ v ∈ qc.aggregate.validators,signed v encoded := by
  obtain ⟨encoded,he,verifies,known,power⟩ := (verifyQuorumCertificate_eq_ok _ _).mp h
  exact ⟨(exact.isQuorum_iff known).mp power,encoded,he,unforgeable _ _ verifies⟩

end BFTRoundState

/-- The validator has signed the bytes of both hashes. -/
def SignedBoth (signed : ValidatorPublicKey → Bytes → Prop)
    (hash hash' : ConsensusProposalHash) (v : ValidatorPublicKey) : Prop :=
  ∃ encoded encoded',toVec hash=.ok encoded ∧ toVec hash'=.ok encoded' ∧
    signed v encoded ∧ signed v encoded'

namespace Consensus

variable {PublicKey BlstSignature : Type} {self other : Consensus PublicKey BlstSignature}

/-- What two nodes commit under the same staking, without force, was signed for both by bonded
validators with a third of the power, rounded down, and by more than that unless the power
leaves two over when it is divided by three. -/
theorem commits_share (signed : ValidatorPublicKey → Bytes → Prop) (n m : Node)
    (unforgeable : self.crypto.toBlst.AggregatesUnforgeable signed)
    (unforgeable' : other.crypto.toBlst.AggregatesUnforgeable signed)
    (run : self.Run n) (run' : other.Run m) (free : self.Unforced n) (free' : other.Unforced m)
    (entry entry' : Entry) (committed committed' : CommittedConsensusProposal)
    (he : entry ∈ n.log) (he' : entry' ∈ m.log) (hd : entry.deed=.emittedCommit committed)
    (hd' : entry'.deed=.emittedCommit committed')
    (same : entry.round.staking=entry'.round.staking) (exact : entry.round.staking.Exact) :
    ∃ signers : Finset ValidatorPublicKey,
      (∀ v ∈ signers,v ∈ entry.round.staking.bonded ∧
        SignedBoth signed (committed.consensusProposal.hashed self.sha3)
          (committed'.consensusProposal.hashed other.sha3) v) ∧
      entry.round.staking.totalBond.toNat/3≤weight entry.round.staking.held signers ∧
      (entry.round.staking.totalBond.toNat%3≠2 →
        entry.round.staking.totalBond.toNat/3<weight entry.round.staking.held signers) := by
  obtain ⟨first,encoded,hb,signs⟩ := BFTRoundState.isQuorum_of_verified unforgeable exact
    ((certified_of_run run free).commits entry he committed hd)
  obtain ⟨second,encoded',hb',signs'⟩ := BFTRoundState.isQuorum_of_verified unforgeable'
    (same ▸ exact) ((certified_of_run run' free').commits entry' he' committed' hd')
  rw [← same] at second
  rw [toVec_marked _ _ rfl] at hb hb'
  have total := exact.weight_bonded
  refine ⟨committed.certificate.validators.toFinset∩committed'.certificate.validators.toFinset,
    ?_,?_,?_⟩
  · intro v hv
    rw [Finset.mem_inter,List.mem_toFinset,List.mem_toFinset] at hv
    have bonded := first.1 (List.mem_toFinset.mpr hv.1)
    rw [List.mem_toFinset] at bonded
    exact ⟨bonded,encoded,encoded',hb,hb',signs v hv.1,signs' v hv.2⟩
  · rw [← total]
    exact first.third_le_inter second
  · rw [← total]
    exact first.third_lt_inter second

end Consensus

namespace FourValidators

open Consensus

/-- The bonded validators of a commit event, their total and what each of them holds. -/
def commitPower (log : List Entry) : Option (List ValidatorPublicKey × U128 × List U128) :=
  log.findSome? fun entry => (certificate entry.deed).map fun _ =>
    (entry.round.staking.bonded,entry.round.staking.totalBond,
      entry.round.staking.bonded.map entry.round.staking.power)

theorem commitPower_committed :
    commitPower committed.log=some ([[1],[2],[3],[4]],400,[100,100,100,100]) := by
  decide +kernel

theorem exact_committed : ∃ entry ∈ committed.log,∃ commit,entry.deed=.emittedCommit commit ∧
    entry.round.staking.totalBond=400 ∧ entry.round.staking.Exact := by
  obtain ⟨entry,he,found⟩ := List.exists_of_findSome?_eq_some commitPower_committed
  refine ⟨entry,he,?_⟩
  revert found
  cases hd : entry.deed with
  | emittedCommit commit =>
    intro found
    obtain ⟨bonded,rest⟩ := Prod.mk.inj (Option.some.inj found)
    obtain ⟨total,powers⟩ := Prod.mk.inj rest
    have held : entry.round.staking.bonded.map entry.round.staking.held=
        ([100,100,100,100] : List U128).map BitVec.toNat := by
      rw [← powers,List.map_map]
      rfl
    refine ⟨commit,rfl,total,⟨?_,?_⟩,?_⟩
    · rw [bonded]
      decide
    · rw [powers,total]
      decide
    · rw [held]
      decide
  | _ => simp [certificate]

end FourValidators

open FourValidators in
/-- More than a third of the power is behind what the fourth validator commits. -/
theorem Consensus.commits_share_committed : fourth.Run committed ∧
    ∃ entry ∈ committed.log,∃ commit,entry.deed=.emittedCommit commit ∧
      ∃ signers : Finset ValidatorPublicKey,
        133<weight entry.round.staking.held signers ∧
        ∀ v ∈ signers,v ∈ entry.round.staking.bonded := by
  have facts := commits_and_forces.1
  have free : fourth.Unforced committed := by
    intro entry he prepare hd
    have unforced := facts.2.2.2.2
    rw [List.any_eq_false] at unforced
    simpa [forcedIn,hd] using unforced entry he
  obtain ⟨entry,he,commit,hd,total,exact⟩ := exact_committed
  have unforgeable := Blst.ofVoters_aggregatesUnforgeable fun v _ => v≠4
  obtain ⟨signers,signed,_,more⟩ := commits_share _ committed committed unforgeable unforgeable
    run_committed run_committed free free entry entry commit commit he he hd hd rfl exact
  refine ⟨run_committed,entry,he,commit,hd,signers,?_,fun v hv => (signed v hv).1⟩
  rw [total] at more
  exact more (by decide)

namespace Staking

/-- The same stakes with other validators bonded. -/
def bondedAs (self : Staking) (bonded : List ValidatorPublicKey) (total : U128) : Staking :=
  { self with bonded := bonded,totalBond := total }

/-- A validator that comes after the bonded ones joins them at the end. -/
theorem call_bond_bondedAs {self : Staking} {bonded : List ValidatorPublicKey}
    {validator : ValidatorPublicKey} {stake : U128} (total : U128)
    (hs : self.getStake validator=some stake) (enough : ¬stake<MIN_STAKE)
    (fresh : validator∉bonded)
    (sorted : (bonded++[validator]).Pairwise fun v w => (compare v w).isLE=true) :
    (self.bondedAs bonded total).call (.bond validator)=
      self.bondedAs (bonded++[validator]) (total+stake) := by
  have unknown : (self.bondedAs bonded total).isBonded validator=false := by
    simpa [isBonded,bondedAs] using fun v hv (he : v=validator) => fresh (he ▸ hv)
  have known : (self.bondedAs bonded total).getStake validator=some stake := hs
  have order : ((self.bondedAs bonded total).bonded++[validator]).mergeSort
      (fun v w => (compare v w).isLE)=bonded++[validator] := List.mergeSort_of_pairwise sorted
  have bonds : (self.bondedAs bonded total).bond validator=
      .ok (self.bondedAs (bonded++[validator]) (total+stake)) := by
    unfold Staking.bond
    rw [unknown,known,order]
    simp only [Bool.false_eq_true,if_false,if_neg enough]
    rfl
  show ((self.bondedAs bonded total).applied ((self.bondedAs bonded total).bond validator)).2=_
  rw [bonds]
  rfl

/-- Three validators find delegators, the first one with a stake of f, the others of one more. -/
def delegatedCalls (f : Nat) : List Operation :=
  [.stake "a" (BitVec.ofNat 128 f),.stake "b" (BitVec.ofNat 128 (f+1)),
    .stake "c" (BitVec.ofNat 128 (f+1)),.delegateTo "a" [1],.delegateTo "b" [2],
    .delegateTo "c" [3]]

/-- They have been bonded. -/
def divided (f : Nat) : Staking :=
  run (delegatedCalls f++[.bond [1],.bond [2],.bond [3]])

theorem getStake_delegated (f : Nat) :
    (run (delegatedCalls f)).getStake [1]=some (BitVec.ofNat 128 f) ∧
    (run (delegatedCalls f)).getStake [2]=some (BitVec.ofNat 128 (f+1)) ∧
    (run (delegatedCalls f)).getStake [3]=some (BitVec.ofNat 128 (f+1)) := by
  have first : (run (delegatedCalls f)).getStake [1]=some (BitVec.ofNat 128 f+0) := rfl
  have second : (run (delegatedCalls f)).getStake [2]=some (BitVec.ofNat 128 (f+1)+0) := rfl
  have third : (run (delegatedCalls f)).getStake [3]=some (BitVec.ofNat 128 (f+1)+0) := rfl
  simpa using And.intro first (And.intro second third)

theorem divided_eq {f : Nat} (least : 32≤f) (fits : 3*f+2<2^128) :
    divided f=(run (delegatedCalls f)).bondedAs [[1],[2],[3]] (BitVec.ofNat 128 (3*f+2)) := by
  obtain ⟨first,second,third⟩ := getStake_delegated f
  have enough : ∀ stake,32 ≤ stake → stake<2^128 → ¬BitVec.ofNat 128 stake<MIN_STAKE := by
    intro stake above below
    rw [BitVec.lt_def,BitVec.toNat_ofNat,Nat.mod_eq_of_lt below]
    show ¬stake<32
    omega
  have total : 0+BitVec.ofNat 128 f+BitVec.ofNat 128 (f+1)+BitVec.ofNat 128 (f+1)=
      BitVec.ofNat 128 (3*f+2) := by
    rw [zero_add,← BitVec.ofNat_add,← BitVec.ofNat_add]
    congr 1
    omega
  have one := call_bond_bondedAs 0 first (enough f least (by omega))
    (List.not_mem_nil (a := [1])) (by decide)
  have two := call_bond_bondedAs (0+BitVec.ofNat 128 f) second
    (enough (f+1) (by omega) (by omega)) (by decide : [2]∉([[1]] : List ValidatorPublicKey)) (by decide)
  have three := call_bond_bondedAs (0+BitVec.ofNat 128 f+BitVec.ofNat 128 (f+1)) third
    (enough (f+1) (by omega) (by omega)) (by decide : [3]∉([[1],[2]] : List ValidatorPublicKey)) (by decide)
  have start : run (delegatedCalls f)=(run (delegatedCalls f)).bondedAs [] 0 := rfl
  have bonds : divided f=((((run (delegatedCalls f)).bondedAs [] 0).call (.bond [1])).call
      (.bond [2])).call (.bond [3]) := by
    rw [← start]
    rfl
  rw [bonds,one]
  exact (congrArg (fun staking => staking.call (.bond [3])) two).trans
    (three.trans (by rw [total]))

theorem bonded_divided {f : Nat} (least : 32≤f) (fits : 3*f+2<2^128) :
    (divided f).bonded=[[1],[2],[3]] := by
  rw [divided_eq least fits]
  rfl

theorem power_divided {f : Nat} (least : 32≤f) (fits : 3*f+2<2^128) :
    (divided f).held [1]=f ∧ (divided f).held [2]=f+1 ∧ (divided f).held [3]=f+1 := by
  obtain ⟨first,second,third⟩ := getStake_delegated f
  have stakes : ∀ v stake,(run (delegatedCalls f)).getStake v=some (BitVec.ofNat 128 stake) →
      stake<2^128 → (divided f).held v=stake := by
    intro v stake hs below
    have found : (divided f).getStake v=some (BitVec.ofNat 128 stake) := by
      rw [divided_eq least fits]
      exact hs
    unfold held power
    rw [found,Option.getD_some,BitVec.toNat_ofNat,Nat.mod_eq_of_lt below]
  exact ⟨stakes _ _ first (by omega),stakes _ _ second (by omega),stakes _ _ third (by omega)⟩

theorem exact_divided {f : Nat} (least : 32≤f) (fits : 3*f+2<2^128) : (divided f).Exact := by
  obtain ⟨first,second,third⟩ := power_divided least fits
  have bonded := bonded_divided least fits
  have total : (divided f).totalBond=BitVec.ofNat 128 (3*f+2) := by
    rw [divided_eq least fits]
    rfl
  have held : ((divided f).bonded.map (divided f).held).sum=3*f+2 := by
    rw [bonded]
    simp only [List.map_cons,List.map_nil,List.sum_cons,List.sum_nil,first,second,third]
    omega
  have powers : ((divided f).bonded.map (divided f).power).map BitVec.toNat=
      (divided f).bonded.map (divided f).held := by
    rw [List.map_map]
    rfl
  refine ⟨⟨?_,?_⟩,?_⟩
  · rw [bonded]
    decide
  · apply BitVec.eq_of_toNat_eq
    rw [toNat_sum (by rw [powers,held]; exact fits),powers,held,total,BitVec.toNat_ofNat,
      Nat.mod_eq_of_lt fits]
  · rw [held]
    exact fits

end Staking

/-- A quorum of commit votes makes an accepted certificate. -/
theorem BFTRoundState.exists_commitCertificate_of_votes {log : SigningLog}
    {round : BFTRoundState} {sha3 : Bytes → H256} (voters : List ValidatorPublicKey)
    (exact : round.staking.Exact) (known : ∀ v ∈ voters,v ∈ round.staking.bonded)
    (quorum : IsQuorum round.staking.held round.staking.bonded.toFinset voters.toFinset)
    (votes : ∀ v ∈ voters,
      (v,SignedMessage.confirmAck (round.currentProposal.hashed sha3)) ∈ log) :
    ∃ qc,round.verifyCommitQuorumCertificateAgainstCurrentProposal log.blst sha3 qc=.ok () := by
  rw [round.exists_commitCertificate_iff _ _ _ log.blst_ideal]
  exact ⟨voters,fun v hv => ⟨known v hv,Or.inl (votes v hv)⟩,(exact.isQuorum_iff known).mpr quorum⟩

/-- The commit votes of the first validator for both proposals, and of each other for one. -/
def splitLog (hash hash' : ConsensusProposalHash) : SigningLog :=
  [([1],.confirmAck hash),([2],.confirmAck hash),([1],.confirmAck hash'),([3],.confirmAck hash')]

theorem eq_of_signedHash_splitLog {hash hash' : ConsensusProposalHash} (differ : hash≠hash')
    {v : ValidatorPublicKey} (h : (splitLog hash hash').SignedHash v hash)
    (h' : (splitLog hash hash').SignedHash v hash') : v=[1] := by
  simp [SigningLog.SignedHash,splitLog,differ,differ.symm] at h h'
  obtain rfl|rfl := h
  · rfl
  · simp at h'

open Staking in
/-- The bound is met. Where the first of three validators holds a third of the power, rounded
down, and two are left over, it is the only one that has to sign two commits. -/
theorem commits_split (f : Nat) (least : 32≤f) (fits : 3*f+2<2^128) (sha3 : Bytes → H256)
    (round round' : BFTRoundState) (staking : round.staking=divided f)
    (staking' : round'.staking=divided f)
    (differ : round.currentProposal.hashed sha3≠round'.currentProposal.hashed sha3) :
    ∃ log : SigningLog,log.blst.Ideal log.Signed ∧
      (∃ qc,round.verifyCommitQuorumCertificateAgainstCurrentProposal log.blst sha3 qc=.ok ()) ∧
      (∃ qc,round'.verifyCommitQuorumCertificateAgainstCurrentProposal log.blst sha3 qc=.ok ()) ∧
      (divided f).Exact ∧ (divided f).held [1]=(divided f).totalBond.toNat/3 ∧
      ∀ v,log.SignedHash v (round.currentProposal.hashed sha3) →
        log.SignedHash v (round'.currentProposal.hashed sha3) → v=[1] := by
  have exact := exact_divided least fits
  have bonded := bonded_divided least fits
  obtain ⟨first,second,third⟩ := power_divided least fits
  obtain ⟨total,left,right,_⟩ := isQuorum_pair (divided f).held (x := [1]) (y := [2])
    (z := [3]) (by decide) (by decide) (by decide) first second third
  have all : (divided f).bonded.toFinset={[1],[2],[3]} := by
    rw [bonded]
    rfl
  refine ⟨splitLog (round.currentProposal.hashed sha3) (round'.currentProposal.hashed sha3),
    SigningLog.blst_ideal _,?_,?_,exact,?_,fun v => eq_of_signedHash_splitLog differ⟩
  · refine BFTRoundState.exists_commitCertificate_of_votes [[1],[2]]
      (staking ▸ exact) ?_ ?_ ?_
    · rw [staking,bonded]
      decide
    · rw [staking,all]
      exact left
    · simp [splitLog]
  · refine BFTRoundState.exists_commitCertificate_of_votes [[1],[3]]
      (staking' ▸ exact) ?_ ?_ ?_
    · rw [staking',bonded]
      decide
    · rw [staking',all]
      exact right
    · simp [splitLog]
  · rw [first,← exact.weight_bonded,all,total]
    omega

open FourValidators Staking in
/-- Two of three validators commit either of two proposals. -/
theorem commits_split_first : (divided 32).totalBond=98 ∧
    ∃ log : SigningLog,(∃ qc,
        BFTRoundState.verifyCommitQuorumCertificateAgainstCurrentProposal log.blst fourth.sha3
          { round with staking := divided 32,currentProposal := first } qc=.ok ()) ∧
      ∃ qc,BFTRoundState.verifyCommitQuorumCertificateAgainstCurrentProposal log.blst fourth.sha3
          { round with staking := divided 32,currentProposal := paying } qc=.ok () := by
  obtain ⟨log,_,accepted,accepted',_⟩ := commits_split 32 (by decide) (by decide) fourth.sha3
    { round with staking := divided 32,currentProposal := first }
    { round with staking := divided 32,currentProposal := paying } rfl rfl (by decide +kernel)
  refine ⟨?_,log,accepted,accepted'⟩
  rw [divided_eq (by decide) (by decide)]
  rfl

end TruthSeeker
