import TruthSeeker.Mempool.Cut
import TruthSeeker.Mempool.LaneChanges

namespace TruthSeeker

open Outcome BinarySearch

section
variable {PublicKey BlstSignature : Type}

namespace LanesStorage

section Genuine
variable (blst : Blst PublicKey BlstSignature)

/-- The signatures of an entry verify on its hash and size. They are in strict order, each by
another validator. -/
structure Genuine (hash : DataProposalHash) (metadata : LaneEntryMetadata) : Prop where
  valid : ∀ s ∈ metadata.signatures,
    s.msg=(hash,metadata.cumulSize) ∧ blst.verifySigned s=.ok true
  sorted : metadata.signatures.Pairwise fun s s' => ValidatorDAG.cmp s s'=.lt
  single : ∀ s ∈ metadata.signatures,∀ s' ∈ metadata.signatures,
    s.signature.validator=s'.signature.validator → s=s'

def AllGenuine (lanes : LanesStorage) : Prop :=
  ∀ laneId hash metadata,lanes.getMetadataByHash laneId hash=some metadata →
    Genuine blst hash metadata

/-- Each of the votes that can be added to an entry verifies, and its validator has given no
other. -/
def Adds (hash : DataProposalHash) (votes : List ValidatorDAG) (metadata : LaneEntryMetadata) :
    Prop :=
  ∀ vote ∈ votes,vote.msg=(hash,metadata.cumulSize) →
    blst.verifySigned vote=.ok true ∧
    ∀ s ∈ metadata.signatures++votes,s.msg=(hash,metadata.cumulSize) →
      s.signature.validator=vote.signature.validator → s=vote

/-- The same of the votes on an entry, if the lane has it. -/
def Welcome (lanes : LanesStorage) (laneId : LaneId) (hash : DataProposalHash)
    (votes : List ValidatorDAG) : Prop :=
  ∀ metadata,lanes.getMetadataByHash laneId hash=some metadata → Adds blst hash votes metadata

end Genuine

variable {blst : Blst PublicKey BlstSignature} {lanes : LanesStorage} {laneId : LaneId}
  {hash : DataProposalHash} {metadata : LaneEntryMetadata} {votes : List ValidatorDAG}

/-- Nobody is listed twice. -/
theorem Genuine.nodup (hg : Genuine blst hash metadata) :
    (metadata.signatures.map fun s => s.signature.validator).Nodup := by
  have distinct : metadata.signatures.Nodup := by
    refine hg.sorted.imp ?_
    intro s s' hlt heq
    have same : ValidatorDAG.cmp s' s'=.eq := Std.ReflCmp.compare_self
    rw [heq,same] at hlt
    exact absurd hlt (by decide)
  exact (List.nodup_map_iff_inj_on distinct).mpr fun s hs s' hs' => hg.single s hs s' hs'

theorem genuine_singleton {s : ValidatorDAG} {parent : Option DataProposalHash}
    {size : LaneBytesSize} (hm : s.msg=(hash,size)) (hv : blst.verifySigned s=.ok true) :
    Genuine blst hash ⟨parent,size,[s]⟩ := by
  refine ⟨?_,List.pairwise_singleton _ _,?_⟩
  · intro s' hs
    obtain rfl := List.mem_singleton.mp hs
    exact ⟨hm,hv⟩
  · intro s' hs s'' hs' _
    rw [List.mem_singleton.mp hs,List.mem_singleton.mp hs']

theorem Genuine.addSignature {vote : ValidatorDAG} (hg : Genuine blst hash metadata)
    (ha : Adds blst hash [vote] metadata) :
    Genuine blst hash (addSignature hash metadata vote) := by
  unfold LanesStorage.addSignature
  by_cases other : metadata.cumulSize≠vote.msg.2 ∨ hash≠vote.msg.1
  · rw [if_pos other]
    exact hg
  · rw [if_neg other]
    rw [not_or,not_not,not_not] at other
    have msg : vote.msg=(hash,metadata.cumulSize) := Prod.ext other.2.symm other.1.symm
    obtain ⟨verified,alone⟩ := ha vote (List.mem_singleton_self vote) msg
    have same : ∀ s ∈ metadata.signatures,
        s.signature.validator=vote.signature.validator → s=vote := by
      intro s hs
      exact alone s (List.mem_append_left _ hs) (hg.valid s hs).1
    refine ⟨?_,pairwise_insertBy hg.sorted,?_⟩
    · intro s hs
      obtain old|rfl := mem_insertBy hs
      · exact hg.valid s old
      · exact ⟨msg,verified⟩
    · intro s hs s' hs' hv
      obtain old|rfl := mem_insertBy hs
      · obtain old'|rfl := mem_insertBy hs'
        · exact hg.single s old s' old' hv
        · exact same s old hv
      · obtain old'|rfl := mem_insertBy hs'
        · exact (same s' old' hv.symm).symm
        · rfl

theorem Genuine.addSignatures (hg : Genuine blst hash metadata)
    (ha : Adds blst hash votes metadata) :
    Genuine blst hash (votes.foldl (LanesStorage.addSignature hash) metadata) := by
  induction votes generalizing metadata with
  | nil => exact hg
  | cons vote votes ih =>
    have size : (LanesStorage.addSignature hash metadata vote).cumulSize=metadata.cumulSize :=
      (addSignature_fields hash metadata [vote]).2
    have among : ∀ s ∈ (LanesStorage.addSignature hash metadata vote).signatures,
        s∈metadata.signatures++vote::votes := by
      intro s hs
      unfold LanesStorage.addSignature at hs
      split_ifs at hs
      · exact List.mem_append_left _ hs
      · obtain old|rfl := mem_insertBy hs
        · exact List.mem_append_left _ old
        · exact List.mem_append_right _ List.mem_cons_self
    refine ih (hg.addSignature ?_) ?_
    · intro v hv msg
      obtain rfl := List.mem_singleton.mp hv
      obtain ⟨verified,alone⟩ := ha v List.mem_cons_self msg
      refine ⟨verified,fun s hs => alone s ?_⟩
      obtain old|new := List.mem_append.mp hs
      · exact List.mem_append_left _ old
      · rw [List.mem_singleton.mp new]
        exact List.mem_append_right _ List.mem_cons_self
    · intro v hv msg
      rw [size] at msg ⊢
      obtain ⟨verified,alone⟩ := ha v (List.mem_cons_of_mem _ hv) msg
      refine ⟨verified,fun s hs => alone s ?_⟩
      obtain old|new := List.mem_append.mp hs
      · exact among s old
      · exact List.mem_append_right _ (List.mem_cons_of_mem _ new)

theorem AllGenuine.signed (hg : AllGenuine blst lanes) (hw : Welcome blst lanes laneId hash votes) :
    AllGenuine blst (lanes.signed laneId hash votes) := by
  intro laneId' h m hm
  rw [getMetadataByHash_signed] at hm
  split_ifs at hm with hk
  · obtain ⟨lem,hl,rfl⟩ := Option.map_eq_some_iff.mp hm
    obtain ⟨_,rfl⟩ := key_inj.mp hk
    have stored : lanes.getMetadataByHash laneId h=some lem := by
      unfold getMetadataByHash at hl ⊢
      rw [← hk]
      exact hl
    exact (hg _ _ _ hl).addSignatures (hw lem stored)
  · exact hg _ _ _ hm

theorem AllGenuine.putNoVerification {sha3 : Bytes → H256} {dp : DataProposal}
    (hg : AllGenuine blst lanes) (hn : Genuine blst (dp.hashed sha3) metadata) :
    AllGenuine blst (lanes.putNoVerification sha3 laneId (metadata,dp)) := by
  intro laneId' h m hm
  rw [getMetadataByHash_putNoVerification] at hm
  split_ifs at hm with hk
  · obtain rfl := Option.some.inj hm
    obtain ⟨_,rfl⟩ := key_inj.mp hk
    exact hn
  · exact hg _ _ _ hm

theorem AllGenuine.popped {tip : DataProposalHash} {entry : LaneEntryMetadata}
    (hg : AllGenuine blst lanes) : AllGenuine blst (lanes.popped laneId tip entry) := by
  intro laneId' h m hm
  rw [getMetadataByHash_popped] at hm
  split_ifs at hm
  exact hg _ _ _ hm

/-- Nobody has no voting power, and f is far from the largest number. -/
theorem filteredSignatures_ne_nil {staking : Staking} (hv : metadata.HasVotes staking) :
    metadata.filteredSignatures staking≠[] := by
  intro hn
  apply hv
  have none : staking.computeVotingPower (metadata.filteredValidators staking)=0 := by
    unfold LaneEntryMetadata.filteredValidators
    rw [hn]
    rfl
  rw [none]
  unfold Staking.computeF
  have bound := staking.totalBond.isLt
  have third : (staking.totalBond/3).toNat=staking.totalBond.toNat/3 := BitVec.toNat_udiv
  have next : (staking.totalBond/3+1).toNat=((staking.totalBond/3).toNat+1)%2^128 :=
    BitVec.toNat_add _ _
  rw [BitVec.lt_def,next,third]
  change 0<_
  omega

/-- Genuine signatures of the current validators aggregate. -/
theorem Genuine.aggregate {crypto : BlstCrypto PublicKey BlstSignature} {staking : Staking}
    (hg : Genuine crypto.toBlst hash metadata) (hc : crypto.Combines)
    (hv : metadata.HasVotes staking) :
    ∃ poda,crypto.aggregate (hash,metadata.cumulSize) (metadata.filteredSignatures staking)=
      .ok poda := by
  have kept : ∀ s ∈ metadata.filteredSignatures staking,
      s.msg=(hash,metadata.cumulSize) ∧ crypto.verifySigned s=.ok true :=
    fun s hs => hg.valid s (List.mem_of_mem_filter hs)
  obtain ⟨poda,he,_⟩ :=
    BlstCrypto.aggregate_of_verified hc (filteredSignatures_ne_nil hv) kept
  exact ⟨poda,he⟩

theorem AllGenuine.latestCarFrom_ne_error {crypto : BlstCrypto PublicKey BlstSignature}
    (hg : AllGenuine crypto.toBlst lanes) (hc : crypto.Combines) {staking : Staking}
    {previous : Option (LaneId × DataProposalHash × LaneBytesSize × PoDA)} {fuel : Nat}
    {e : Fault} : lanes.latestCarFrom crypto laneId staking previous fuel hash≠some (.error e) := by
  induction fuel generalizing hash with
  | zero => simp [latestCarFrom]
  | succ fuel ih =>
    unfold latestCarFrom
    cases hm : lanes.getMetadataByHash laneId hash with
    | none => simp
    | some le =>
      dsimp only
      cases previous.filter (fun car => car.2.1=hash) with
      | some car => simp
      | none =>
        dsimp only
        by_cases hv : le.HasVotes staking
        · obtain ⟨poda,he⟩ := (hg _ _ _ hm).aggregate hc hv
          rw [if_pos hv,he]
          simp
        · rw [if_neg hv]
          cases le.parentDataProposalHash with
          | none => simp
          | some parent => exact ih

end LanesStorage

namespace Mempool

open LanesStorage

/-- Every vote that is taken into an entry verifies and is the only one of its validator there,
and the entries of the replies come with such votes. -/
def GenuineRun (env : MempoolEnv PublicKey BlstSignature) (events : List Event) : Prop :=
  RunMeets env (fun _ _ _ _ => True)
    (fun _ _ metadata dp => Genuine env.crypto.toBlst (dp.hashed env.sha3) metadata)
    (Welcome env.crypto.toBlst) (fun _ _ _ => True) events

theorem keeps_genuine {env : MempoolEnv PublicKey BlstSignature}
    (own : env.crypto.SignsValidly (DataProposalHash × LaneBytesSize)) :
    Keeps env (fun _ _ _ _ => True)
      (fun _ _ metadata dp => Genuine env.crypto.toBlst (dp.hashed env.sha3) metadata)
      (Welcome env.crypto.toBlst) (fun _ _ _ => True) (AllGenuine env.crypto.toBlst) where
  appended lanes laneId metadata dp _ hg ha _ := by
    obtain ⟨signature,signs,hs⟩ := ha.signature
    obtain ⟨parent,size,signatures⟩ := metadata
    subst hs
    exact hg.putNoVerification (genuine_singleton (BlstCrypto.msg_of_sign signs) (own _ _ signs))
  replied _ _ _ _ _ hg _ hn := hg.putNoVerification hn
  signed _ _ _ _ _ hg hw := hg.signed hw
  popped _ _ _ _ _ hg _ _ := hg.popped
  tip_popped _ _ _ _ _ _ := trivial
  retipped _ _ _ _ _ hg _ _ := hg

/-- The signatures of an entry are valid votes on it, one a validator, so they always aggregate
and count for those that signed only. -/
structure GenuineVotes (env : MempoolEnv PublicKey BlstSignature)
    (signed : ValidatorPublicKey → Bytes → Prop) (lanes : LanesStorage) : Prop where
  valid : ∀ laneId hash metadata,lanes.getMetadataByHash laneId hash=some metadata →
    ∀ vdag ∈ metadata.signatures,
      vdag.msg=(hash,metadata.cumulSize) ∧ env.crypto.verifySigned vdag=.ok true
  single : ∀ laneId hash metadata,lanes.getMetadataByHash laneId hash=some metadata →
    (metadata.signatures.map fun vdag => vdag.signature.validator).Nodup
  aggregates : ∀ laneId staking previous fuel hash e,
    lanes.latestCarFrom env.crypto laneId staking previous fuel hash≠some (.error e)
  counted : ∀ laneId hash metadata,lanes.getMetadataByHash laneId hash=some metadata →
    ∀ staking,∀ v ∈ metadata.filteredValidators staking,
      ∃ encoded,toVec (hash,metadata.cumulSize)=.ok encoded ∧ signed v encoded

theorem genuineVotes_run (env : MempoolEnv PublicKey BlstSignature)
    (signed : ValidatorPublicKey → Bytes → Prop)
    (own : env.crypto.SignsValidly (DataProposalHash × LaneBytesSize))
    (unforgeable : env.crypto.Unforgeable signed) (combines : env.crypto.Combines)
    (events : List Event) (h : GenuineRun env events) :
    GenuineVotes env signed (run env events).lanes := by
  have empty : AllGenuine env.crypto.toBlst LanesStorage.empty := by
    intro laneId hash metadata hm
    simp [LanesStorage.empty,getMetadataByHash] at hm
  have genuine := (keeps_genuine own).of_run empty h
  constructor
  · intro laneId hash metadata hm
    exact (genuine _ _ _ hm).valid
  · intro laneId hash metadata hm
    exact (genuine _ _ _ hm).nodup
  · intro laneId staking previous fuel hash e
    exact genuine.latestCarFrom_ne_error combines
  · intro laneId hash metadata hm staking v hv
    obtain ⟨vdag,hf,rfl⟩ := List.mem_map.mp hv
    obtain ⟨msg,verified⟩ := (genuine _ _ _ hm).valid vdag (List.mem_of_mem_filter hf)
    obtain ⟨encoded,he,hs⟩ := unforgeable.signed_of_verifySigned verified
    rw [msg] at he
    exact ⟨encoded,he,hs⟩

end Mempool

end

namespace Mempool

open LanesStorage

namespace SmallLanes

def voteBytes : Bytes := (toVec (firstHash,(13 : LaneBytesSize))).toOption.getD []

/-- Validator 1 is the node. Validator 2 has signed a vote on the first data proposal, and the
others nothing. -/
def hasSigned (v : UInt8) (encoded : Bytes) : Bool := v=1 || (v=2 && encoded=voteBytes)

def voters : MempoolEnv Bytes Bytes where
  sha3 := sha3
  verifiers := env.verifiers
  crypto := BlstCrypto.ofVoter hasSigned 1

theorem voters_signsValidly :
    voters.crypto.SignsValidly (DataProposalHash × LaneBytesSize) :=
  BlstCrypto.ofVoter_signsValidly fun _ => rfl

/-- The first data proposal in the own lane of the node. -/
def stored : List Event := [.newDpTimer first.txs,.ownDataProposalPrepared]

def voteOf (v : UInt8) : ValidatorDAG := ⟨(firstHash,13),⟨voteBytes,[v]⟩⟩

/-- The first data proposal in a cut, with the vote of the node. -/
def car (laneId : LaneId) : LaneId × DataProposalHash × LaneBytesSize × PoDA :=
  (laneId,firstHash,13,⟨voteBytes,[[1]]⟩)

def secondBytes : Bytes := (toVec (secondHash,(26 : LaneBytesSize))).toOption.getD []

/-- The second data proposal in a cut, with the vote of the node. -/
def secondCar : LaneId × DataProposalHash × LaneBytesSize × PoDA :=
  ([1],secondHash,26,⟨secondBytes,[[1]]⟩)

def vote (v : UInt8) : Event := .netMessage [9] (.dataVote (voteOf v))

/-- The node puts a second data proposal on its lane. -/
def preparing : List Event := stored++[.newDpTimer second.txs]

def extended : List Event := preparing++[.ownDataProposalPrepared]

/-- A second validator, with less than f, leads the slot. -/
def withLeader : Staking :=
  { Staking.new with
    stakes := Staking.new.stakes.insertMany [("a",100),("b",20)]
    delegations := Staking.new.delegations.insertMany [([1],["a"]),([3],["b"])]
    bonded := [[1],[3]]
    totalBond := 120 }

/-- Validators 1 and 3 have the same stake. -/
def bothBonded : Staking :=
  { Staking.new with
    stakes := Staking.new.stakes.insertMany [("a",100),("b",100)]
    delegations := Staking.new.delegations.insertMany [([1],["a"]),([3],["b"])]
    bonded := [[1],[3]]
    totalBond := 200 }

end SmallLanes

open SmallLanes in
theorem genuineVotes_run_honest :
    GenuineVotes voters (fun key encoded => key.all fun v => hasSigned v encoded)
      (run voters (stored++[vote 2])).lanes := by
  have entry : (run voters stored).lanes.getMetadataByHash [1] firstHash=
      some ⟨none,13,[voteOf 1]⟩ := by decide +kernel
  refine genuineVotes_run voters _ voters_signsValidly (Blst.ofVoters_unforgeable _)
    (Blst.ofVoters_combines _) _ ?_
  have start : GenuineRun voters [.newDpTimer first.txs] := RunMeets.concat runMeets_nil trivial
  have quiet : GenuineRun voters stored := RunMeets.concat start fun _ _ _ _ => trivial
  refine quiet.concat ?_
  intro metadata hm v hv _
  have hm : (run voters stored).lanes.getMetadataByHash [1] firstHash=some metadata := hm
  rw [entry] at hm
  obtain rfl := Option.some.inj hm
  obtain rfl := List.mem_singleton.mp hv
  refine ⟨rfl,?_⟩
  intro s hs _ hsv
  obtain old|new := List.mem_append.mp hs
  · obtain rfl := List.mem_singleton.mp old
    exact absurd hsv (by decide)
  · exact List.mem_singleton.mp new

open SmallLanes in
/-- No one verifies the vote that a peer sends in the name of validator 3. It spoils the
aggregate of the entry, which is left out of every cut. -/
theorem not_genuineVotes_run :
    ¬GenuineVotes voters (fun key encoded => key.all fun v => hasSigned v encoded)
      (run voters (stored++[vote 3])).lanes ∧
    (run voters stored).lanes.getLatestCar voters.crypto [1] bothBonded none=
      some (some (firstHash,13,⟨voteBytes,[[1]]⟩)) ∧
    (run voters (stored++[vote 3])).lanes.getLatestCar voters.crypto [1] bothBonded none=
      some none := by
  refine ⟨?_,by decide +kernel,by decide +kernel⟩
  intro h
  have entry : (run voters (stored++[vote 3])).lanes.getMetadataByHash [1] firstHash=
      some ⟨none,13,[voteOf 1,voteOf 3]⟩ := by decide +kernel
  have forged := (h.valid _ _ _ entry (voteOf 3) (by simp)).2
  have fails : voters.crypto.verifySigned (voteOf 3)=.ok false := by rfl
  rw [fails] at forged
  simp at forged

end Mempool

end TruthSeeker
