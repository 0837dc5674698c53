import Mathlib.Data.List.Induction
import TruthSeeker.NodeState.BlockDiff
import TruthSeeker.NodeState.IdentityBinding

namespace TruthSeeker.NodeState

open OrderedTxMap

section Recorded
variable (env : Environment) (moment : Moment) (tx : UnsettledBlobTransaction)
  (result : SettlementResult)

/-- What the call adds to the verified blobs of the block. -/
def Moment.pushedBlobs : List (TxHash × BlobIndex × Option Nat) :=
  (moment.after env).block.verifiedBlobs.drop moment.work.block.verifiedBlobs.length

/-- The blob is settled with the proof at the place among its possible ones, or with no proof:
natively, or by `hyle`. -/
def SettledWith (blobIndex : BlobIndex) : Option Nat → Prop
  | some index => ∃ (position : Nat) (step : BlobStep) (proof : ProgramId × HyleOutput),
      tx.blobs.toList[position]?=some (blobIndex,step.metadata) ∧
      (moment.steps env)[position]?=some step ∧ step.proof=some proof ∧
      result.blobProofOutputIndices[position]?=some index ∧
      step.metadata.possibleProofs[index]?=some proof
  | none => ∀ (position : Nat) (step : BlobStep),
      tx.blobs.toList[position]?=some (blobIndex,step.metadata) →
      (moment.steps env)[position]?=some step → step.proof=none

/-- Each blob of the transaction has an entry, and all entries tell how their blobs are settled. -/
structure VerifiedAccurately : Prop where
  all : ∀ blobIndex,tx.blobsHash.contains blobIndex=true →
    ∃ index,(tx.hash,blobIndex,index)∈moment.pushedBlobs env
  settled : ∀ entry ∈ moment.pushedBlobs env,entry.1=tx.hash ∧
    SettledWith env moment tx result entry.2.1 entry.2.2

/-- All blobs wait for proofs: none of them was accepted natively, and none is for `hyle`. -/
structure OnlyProven : Prop where
  waiting : ∀ blobIndex,tx.blobsHash.contains blobIndex=true → tx.blobs.contains blobIndex=true
  other : ∀ metadata ∈ tx.blobValues,metadata.blob.contractName≠"hyle"

/-- The blobs that wait are blobs of the transaction, whose indices have no gaps. -/
structure Indexed : Prop where
  known : ∀ blobIndex,tx.blobs.contains blobIndex=true → tx.blobsHash.contains blobIndex=true
  initial : ∀ i j,tx.blobsHash.contains i=true → j≤ i → tx.blobsHash.contains j=true

end Recorded

section Pushed
variable {env : Environment} {bth : TxHash} {tx : UnsettledBlobTransaction}

theorem verifiedBlobs_recordBlobs {identity : Identity} {indices : List Nat}
    (entries : List (BlobIndex × UnsettledBlobMetadata)) (block : BlockUnderConstruction) :
    (entries.foldl (recordBlob bth identity indices) block).verifiedBlobs=
      block.verifiedBlobs++entries.map fun entry => (bth,entry.1,indices[entry.1.toNat]?) := by
  induction entries generalizing block with
  | nil => simp
  | cons entry entries ih =>
    have one : (recordBlob bth identity indices block entry).verifiedBlobs=
        block.verifiedBlobs++[(bth,entry.1,indices[entry.1.toNat]?)] := by
      unfold recordBlob
      dsimp only
      split
      · split <;> rfl
      · rfl
    rw [List.foldl_cons,ih,one,List.append_assoc]
    rfl

theorem verifiedBlobs_noted {block next : BlockUnderConstruction} (h : Noted block next) :
    next.verifiedBlobs=block.verifiedBlobs := by
  obtain ⟨_,_,_,_,_,rfl⟩ := h
  rfl

theorem verifiedBlobs_applyContractChange (work : Work)
    (change : ContractName × ModifiedContractData) :
    (applyContractChange bth work change).block.verifiedBlobs=work.block.verifiedBlobs := by
  obtain ⟨contractName,contract,⟨programId,state,verifier,timeoutWindow⟩,sideEffects⟩ := change
  cases contract with
  | some contract =>
    show (noteContract bth (¬work.store.contracts.contains contractName) contractName contract
      ⟨programId,state,verifier,timeoutWindow⟩ sideEffects work.block).verifiedBlobs=_
    generalize decide (¬work.store.contracts.contains contractName=true)=isNew
    cases isNew <;> cases programId <;> cases state <;> cases timeoutWindow <;> rfl
  | none =>
    exact List.foldlRecOn
      (motive := fun next : Work => next.block.verifiedBlobs=work.block.verifiedBlobs)
      _ _ rfl fun _ hnext _ _ => hnext

theorem verifiedBlobs_settleContracts (result : SettlementResult) (work : Work) :
    (settleContracts bth tx result work).block.verifiedBlobs=work.block.verifiedBlobs++
      tx.blobs.toList.map fun entry =>
        (bth,entry.1,result.blobProofOutputIndices[entry.1.toNat]?) := by
  have recorded := @verifiedBlobs_recordBlobs bth tx.identity result.blobProofOutputIndices
    tx.blobs.toList (work.pushEvent bth .settled).block
  refine List.foldlRecOn (motive := fun next : Work => next.block.verifiedBlobs=_) _ _ recorded ?_
  intro next hs change _
  rw [verifiedBlobs_applyContractChange,hs]

theorem verifiedBlobs_forceOutputs (work : Work) :
    (forceOutputs bth tx work).1.block.verifiedBlobs=work.block.verifiedBlobs := by
  refine List.foldlRecOn (motive := fun state : Work × TxHashSet =>
    state.1.block.verifiedBlobs=work.block.verifiedBlobs) _ _ rfl ?_
  intro state hs update _
  unfold applyNuke
  dsimp only
  split <;> exact hs

/-- A settlement pushes an entry for each blob that has waited, with what stands at the index of
the blob among the indices of the proofs. -/
theorem pushedBlobs_of_settled {moment : Moment} {result : SettlementResult}
    (h : moment.settled env=some (tx,result)) :
    moment.pushedBlobs env=tx.blobs.toList.map fun entry =>
      (tx.hash,entry.1,result.blobProofOutputIndices[entry.1.toNat]?) := by
  obtain ⟨bth,rest,hc,hr,ht⟩ := Moment.settled_eq_some h
  obtain ⟨order,work,call⟩ := moment
  obtain rfl : call=.settle bth := hc
  have hash : tx.hash=bth := work.pending.hash_eq _ tx (remove_eq_some hr).1
  have after : (settleTx env bth work).1.block.verifiedBlobs=work.block.verifiedBlobs++
      tx.blobs.toList.map fun entry =>
        (bth,entry.1,result.blobProofOutputIndices[entry.1.toNat]?) := by
    have step : (settleTx env bth work).1=
        (onSettledBlobTx bth tx (settling env bth work tx rest) (.ok result)).1 := by
      unfold settleTx
      rw [hr]
      dsimp only
      rw [ht]
      rfl
    rw [step]
    show (forceOutputs bth tx (settleContracts bth tx result _)).1.block.verifiedBlobs=_
    rw [verifiedBlobs_forceOutputs,verifiedBlobs_settleContracts]
    exact congrArg (·++_) (verifiedBlobs_noted ((Noted.locate _ _ _).trans (Noted.pushEvents _ _)))
  unfold Moment.pushedBlobs
  show (settleTx env bth work).1.block.verifiedBlobs.drop _=_
  rw [after,List.drop_left,hash]

end Pushed

section Positions

/-- A strictly increasing list without gaps counts up from zero. -/
theorem eq_range_of_initial {l : List Nat} (ho : l.Pairwise fun i j => i<j)
    (hi : ∀ i ∈ l,∀ j< i,j∈l) : l=List.range l.length := by
  induction l using List.reverseRecOn with
  | nil => rfl
  | append_singleton l m ih =>
    obtain ⟨before,_,below⟩ := List.pairwise_append.mp ho
    have less : ∀ i ∈ l,i< m := fun i hm => below i hm m (List.mem_singleton_self m)
    have initial : ∀ i ∈ l,∀ j< i,j∈l := by
      intro i hm j hj
      obtain old|new := List.mem_append.mp (hi i (List.mem_append_left _ hm) j hj)
      · exact old
      · have := less i hm
        have := List.mem_singleton.mp new
        omega
    have counts := ih before initial
    have last : m=l.length := by
      have above : ¬m<l.length := by
        intro small
        have listed : m∈l := by
          rw [counts]
          exact List.mem_range.mpr small
        exact absurd (less m listed) (Nat.lt_irrefl m)
      have under : ¬l.length< m := by
        intro large
        obtain old|new := List.mem_append.mp (hi m (by simp) l.length large)
        · rw [counts,List.mem_range] at old
          simp at old
        · have := List.mem_singleton.mp new
          omega
      omega
    rw [List.length_append,List.length_singleton,List.range_succ,← counts,← last]

/-- Where all smaller keys are there too, an entry stands at the position of its key. -/
theorem position_eq_toNat {m : Std.ExtTreeMap BlobIndex UnsettledBlobMetadata}
    (hi : ∀ i j,m.contains i=true → j≤ i → m.contains j=true) {position : Nat}
    {entry : BlobIndex × UnsettledBlobMetadata} (h : m.toList[position]?=some entry) :
    position=entry.1.toNat := by
  let keys := m.toList.map fun entry => entry.1.toNat
  have listed : ∀ i : BlobIndex,m.contains i=true ↔ i.toNat∈keys := by
    intro i
    rw [← Std.ExtTreeMap.mem_iff_contains,← Std.ExtTreeMap.mem_keys,
      ← Std.ExtTreeMap.map_fst_toList_eq_keys]
    simp only [keys,List.mem_map,UInt64.toNat_inj]
  have ordered : keys.Pairwise fun i j => i<j := by
    apply List.pairwise_map.mpr
    refine Std.ExtTreeMap.ordered_keys_toList.imp ?_
    intro a b less
    exact UInt64.lt_iff_toNat_lt.mp (Std.compare_eq_lt.mp less)
  have initial : ∀ i ∈ keys,∀ j< i,j∈keys := by
    intro i hm j hj
    obtain ⟨entry,he,rfl⟩ := List.mem_map.mp hm
    have same : (UInt64.ofNat j).toNat=j :=
      UInt64.toNat_ofNat_of_lt' (hj.trans entry.1.toNat_lt)
    rw [← same]
    refine (listed _).mp (hi entry.1 _ ((listed _).mpr hm) ?_)
    rw [UInt64.le_iff_toNat_le,same]
    omega
  have counts := eq_range_of_initial ordered initial
  have at_ : keys[position]?=some entry.1.toNat := by
    simp only [keys,List.getElem?_map,h,Option.map_some]
  have bound := (List.getElem?_eq_some_iff.mp at_).1
  rw [counts,List.getElem?_range bound] at at_
  exact Option.some.inj at_

end Positions

section Indices
variable {env : Environment} {contracts : Contracts}

theorem exists_blobStep {blobs : List UnsettledBlobMetadata} {indices : List Nat}
    {changes : ContractChanges} {position : Nat} {step : BlobStep}
    (h : (blobSteps env contracts changes blobs indices)[position]?=some step) :
    ∃ before metadata index,indices[position]?=some index ∧
      step=blobStep env contracts before metadata index := by
  induction blobs generalizing changes indices position with
  | nil => simp [blobSteps] at h
  | cons metadata blobs ih =>
    cases indices with
    | nil => simp [blobSteps] at h
    | cons index indices =>
      cases position with
      | zero => exact ⟨changes,metadata,index,rfl,(Option.some.inj h).symm⟩
      | succ position =>
        have tail : (blobSteps env contracts (blobStep env contracts changes metadata index).after
          blobs indices)[position]?=some step := h
        obtain ⟨before,found,i,hi,eq⟩ := ih tail
        exact ⟨before,found,i,hi,eq⟩

/-- The proof of a step is the one at the index. -/
theorem possibleProofs_of_blobStep {changes : ContractChanges} {metadata : UnsettledBlobMetadata}
    {index : Nat} {proof : ProgramId × HyleOutput}
    (h : (blobStep env contracts changes metadata index).proof=some proof) :
    (blobStep env contracts changes metadata index).metadata.possibleProofs[index]?=
      some proof := by
  unfold blobStep at h ⊢
  dsimp only at h ⊢
  split at h
  · cases h
  · next other =>
    rw [if_neg other]
    split at h
    · cases h
    · next found hf => 
      rw [hf]
      exact congrArg some (Option.some.inj h)

end Indices

section Invariant
variable {env : Environment}

theorem Indexed.pushProof {tx : UnsettledBlobTransaction} (h : Indexed tx) (index : BlobIndex)
    (proof : ProgramId × HyleOutput) : Indexed (tx.pushProof index proof) := by
  have blobsHash : (tx.pushProof index proof).blobsHash=tx.blobsHash := by
    unfold UnsettledBlobTransaction.pushProof
    split <;> rfl
  constructor
  · intro blobIndex hb
    rw [Std.ExtTreeMap.contains_eq_isSome_getElem?,Option.isSome_iff_exists] at hb
    obtain ⟨metadata,hm⟩ := hb
    obtain ⟨old,ho,_⟩ := tx.getElem?_pushProof hm
    rw [blobsHash]
    apply h.known
    rw [Std.ExtTreeMap.contains_eq_isSome_getElem?,ho]
    rfl
  · rw [blobsHash]
    exact h.initial

theorem contains_ofBlobs {blobs : List Blob} {blobIndex : BlobIndex} :
    (BlobsHashes.ofBlobs env.sha3 (IndexedBlobs.ofBlobs blobs)).contains blobIndex=true ↔
      ∃ blob,(blobIndex,blob)∈IndexedBlobs.ofBlobs blobs := by
  unfold BlobsHashes.ofBlobs
  rw [Std.ExtTreeMap.contains_ofList]
  simp

theorem indexed_unsettledBlobTransaction {store : NodeStateStore}
    {parentDpHash : DataProposalHash} {tx : BlobTransaction} {txContext : TxContext} :
    Indexed (unsettledBlobTransaction env store parentDpHash tx txContext) where
  known := by
    intro blobIndex hb
    rw [Std.ExtTreeMap.contains_eq_isSome_getElem?,Option.isSome_iff_exists] at hb
    obtain ⟨metadata,hm⟩ := hb
    obtain ⟨entry,he,hu⟩ := List.mem_filterMap.mp (mem_of_getElem?_ofList hm)
    have same : entry.1=blobIndex := by
      unfold unsettledBlob at hu
      split at hu
      · exact (Prod.mk.inj (Option.some.inj hu)).1
      · dsimp only at hu
        split_ifs at hu
        exact (Prod.mk.inj (Option.some.inj hu)).1
    exact contains_ofBlobs.mpr ⟨entry.2,same ▸ he⟩
  initial := by
    intro i j hi le
    obtain ⟨blob,hb⟩ := contains_ofBlobs.mp hi
    obtain ⟨⟨_,position⟩,hp,eq⟩ := List.mem_map.mp hb
    obtain ⟨index,_⟩ := Prod.mk.inj eq
    have bound := (List.getElem?_eq_some_iff.mp (List.mk_mem_zipIdx_iff_getElem?.mp hp)).1
    have small : i.toNat≤position := by
      rw [← index,UInt64.toNat_ofNat']
      exact Nat.mod_le _ _
    have inside : j.toNat<tx.blobs.length := by
      have := UInt64.le_iff_toNat_le.mp le
      omega
    refine contains_ofBlobs.mpr ⟨tx.blobs[j.toNat],?_⟩
    refine List.mem_map.mpr ⟨(tx.blobs[j.toNat],j.toNat),?_,?_⟩
    · exact List.mk_mem_zipIdx_iff_getElem?.mpr (List.getElem?_eq_getElem inside)
    · simp

theorem vetted_indexed (env : Environment) : Vetted env (fun _ => True) Indexed where
  sequenced _ _ _ _ _ _ _ := indexed_unsettledBlobTransaction
  proven _ _ _ _ _ _ _ _ h := h.pushProof _ _
  forced _ _ _ _ _ _ _ _ _ _ _ _ h _ := h.pushProof _ _

end Invariant

section Accuracy
variable {env : Environment} {moment : Moment} {tx : UnsettledBlobTransaction}
  {result : SettlementResult}

/-- The step of the blob at a position, with the index that is kept for it. -/
theorem exists_step_at (h : moment.settled env=some (tx,result)) {position : Nat}
    {entry : BlobIndex × UnsettledBlobMetadata} (he : tx.blobs.toList[position]?=some entry) :
    ∃ step index,(moment.steps env)[position]?=some step ∧ step.metadata=entry.2 ∧
      result.blobProofOutputIndices[position]?=some index ∧
      ∀ proof,step.proof=some proof → step.metadata.possibleProofs[index]?=some proof := by
  have listed := congrArg (fun l => l[position]?) (Moment.applied h).map_metadata
  simp only [UnsettledBlobTransaction.blobValues,List.getElem?_map,he,Option.map_some] at listed
  obtain ⟨step,hs,metadata⟩ := Option.map_eq_some_iff.mp listed
  have steps : moment.steps env=blobSteps env moment.work.store.contracts ∅ tx.blobValues
      result.blobProofOutputIndices := by
    unfold Moment.steps
    rw [h]
  have located := hs
  rw [steps] at located
  obtain ⟨before,found,index,hi,rfl⟩ := exists_blobStep located
  exact ⟨_,index,hs,metadata,hi,fun proof => possibleProofs_of_blobStep⟩

theorem onlyProven_of_accurate (h : moment.settled env=some (tx,result)) (hx : Indexed tx)
    (ha : VerifiedAccurately env moment tx result) : OnlyProven tx := by
  have pushed := pushedBlobs_of_settled h
  have waiting : ∀ blobIndex,tx.blobsHash.contains blobIndex=true →
      tx.blobs.contains blobIndex=true := by
    intro blobIndex hb
    obtain ⟨index,hm⟩ := ha.all blobIndex hb
    rw [pushed] at hm
    obtain ⟨entry,he,eq⟩ := List.mem_map.mp hm
    obtain ⟨rfl,_⟩ := Prod.mk.inj (Prod.mk.inj eq).2
    rw [Std.ExtTreeMap.contains_eq_isSome_getElem?,
      Std.ExtTreeMap.mem_toList_iff_getElem?_eq_some.mp he]
    rfl
  have initial : ∀ i j,tx.blobs.contains i=true → j≤ i → tx.blobs.contains j=true :=
    fun i j hi le => waiting j (hx.initial i j (hx.known i hi) le)
  refine ⟨waiting,?_⟩
  intro metadata hm hyle
  obtain ⟨entry,he,rfl⟩ := List.mem_map.mp hm
  obtain ⟨position,hp⟩ := List.getElem?_of_mem he
  obtain ⟨step,index,hs,metadata,hi,_⟩ := exists_step_at h hp
  have at_ := position_eq_toNat initial hp
  -- At the position of a blob to `hyle` there is an index, although no proof is used.
  have entered : (tx.hash,entry.1,some index)∈moment.pushedBlobs env := by
    rw [pushed]
    refine List.mem_map.mpr ⟨entry,he,?_⟩
    rw [← at_,hi]
  obtain ⟨_,other,found,proof,ho,hf,used,_⟩ := ha.settled _ entered
  have same := position_eq_toNat initial ho
  rw [← at_] at same
  subst same
  obtain rfl := Option.some.inj (hs.symm.trans hf)
  obtain ⟨_,notHyle,_⟩ := (Moment.applied h).of_proof (List.mem_of_getElem? hs) used
  rw [metadata] at notHyle
  exact notHyle hyle

theorem accurate_of_onlyProven (h : moment.settled env=some (tx,result)) (hx : Indexed tx)
    (ho : OnlyProven tx) : VerifiedAccurately env moment tx result := by
  have pushed := pushedBlobs_of_settled h
  have initial : ∀ i j,tx.blobs.contains i=true → j≤ i → tx.blobs.contains j=true :=
    fun i j hi le => ho.waiting j (hx.initial i j (hx.known i hi) le)
  constructor
  · intro blobIndex hb
    have waits := ho.waiting blobIndex hb
    rw [Std.ExtTreeMap.contains_eq_isSome_getElem?,Option.isSome_iff_exists] at waits
    obtain ⟨metadata,hm⟩ := waits
    rw [pushed]
    exact ⟨_,List.mem_map.mpr
      ⟨(blobIndex,metadata),Std.ExtTreeMap.mem_toList_iff_getElem?_eq_some.mpr hm,rfl⟩⟩
  · intro pushedEntry hm
    rw [pushed] at hm
    obtain ⟨entry,he,rfl⟩ := List.mem_map.mp hm
    obtain ⟨position,hp⟩ := List.getElem?_of_mem he
    obtain ⟨step,index,hs,metadata,hi,used⟩ := exists_step_at h hp
    have at_ := position_eq_toNat initial hp
    dsimp only
    rw [← at_,hi]
    refine ⟨rfl,position,step,?_⟩
    cases hproof : step.proof with
    | none =>
      obtain ⟨mem,hyle,_⟩ := (Moment.applied h).of_none (List.mem_of_getElem? hs) hproof
      exact absurd hyle (ho.other _ mem)
    | some proof =>
      refine ⟨proof,?_,hs,rfl,hi,used proof hproof⟩
      rw [metadata]
      exact hp

/-- The entries of a settled transaction tell how each of its blobs was settled if and only if
all its blobs were settled with proofs. -/
theorem verifiedAccurately_iff (env : Environment) (signedBlocks : List SignedBlock) :
    ∀ moment ∈ moments env signedBlocks,∀ tx result,moment.settled env=some (tx,result) →
      (VerifiedAccurately env moment tx result ↔ OnlyProven tx) := by
  intro moment hm tx result h
  obtain ⟨bth,rest,_,hr,_⟩ := Moment.settled_eq_some h
  have indexed : Indexed tx :=
    (((vetted_indexed env).moments (fun _ _ => trivial) moment hm).remove hr).1
  exact ⟨onlyProven_of_accurate h indexed,accurate_of_onlyProven h indexed⟩

end Accuracy

/-- The blobs that wait of the transactions that settle as successful in the run of one block,
with the names of their contracts, and the entries that are pushed. -/
def settledEntries (env : Environment) (signedBlock : SignedBlock) :
    List (List (BlobIndex × ContractName) × List (TxHash × BlobIndex × Option Nat)) :=
  (moments env [signedBlock]).filterMap fun moment =>
    (moment.settled env).map fun settled =>
      (settled.1.blobs.toList.map fun entry => (entry.1,entry.2.blob.contractName),
        moment.pushedBlobs env)

theorem exists_of_mem_settledEntries {env : Environment} {signedBlock : SignedBlock}
    {waiting : List (BlobIndex × ContractName)} {pushed : List (TxHash × BlobIndex × Option Nat)}
    (h : (waiting,pushed)∈settledEntries env signedBlock) :
    ∃ moment ∈ moments env [signedBlock],∃ tx result,moment.settled env=some (tx,result) ∧
      tx.blobs.toList.map (fun entry => (entry.1,entry.2.blob.contractName))=waiting ∧
      moment.pushedBlobs env=pushed := by
  obtain ⟨moment,hm,found⟩ := List.mem_filterMap.mp h
  obtain ⟨⟨tx,result⟩,settled,eq⟩ := Option.map_eq_some_iff.mp found
  obtain ⟨waits,pushes⟩ := Prod.mk.inj eq
  exact ⟨moment,hm,tx,result,settled,waits,pushes⟩

namespace MixedBlobs

open TwoContracts (register block proofTx)

def registerTx : BlobTransaction := ⟨"hyle@hyle",NativeIdentity.registerTx.blobs++[register "foo"]⟩

/-- A blob that is accepted natively, and one for a contract with proofs. -/
def tx : BlobTransaction :=
  ⟨"alice@sha3_256",(NativeIdentity.tx "alice@sha3_256").blobs++[⟨"foo",[]⟩]⟩

def digest : H256 :=
  ByteVec.ofNat 32 0xe05f73a6e7608344e24d92aa7a6cefaa8c8becb6b9360f3eb46ceb3d0cb9f937

def hash : TxHash := Bytes.hex digest.toList

/-- The proof of the second blob. -/
def entry : BlobProofOutput where
  blobTxHash := hash
  originalProofHash := ""
  hyleOutput := { TwoContracts.output with
    identity := "alice@sha3_256"
    index := 1
    txHash := hash }
  programId := [1]

def signedBlock : SignedBlock :=
  block [⟨1,.blob registerTx⟩,⟨1,.blob tx⟩,proofTx "foo" entry]

def blobDigests : List (Bytes × H256) :=
  NativeIdentity.blobDigests++
  [(utf8 "hyle"++(register "foo").data,
    ByteVec.ofNat 32 0x54a930b17902efbb70102a504c95620b28f2fea6cb8f112599cd9201233556c6),
   (utf8 "foo",
    ByteVec.ofNat 32 0x76d3bc41c9f588f7fcd0d5bf4718f8f84b1c41b20882703100b9eb9413807c01)]

def txDigests : List (Bytes × H256) :=
  let sha3 := ByteVec.lookup blobDigests
  [(Transaction.preimage sha3 (.blob registerTx),
    ByteVec.ofNat 32 0xeff80b000d7a0dfea8750c89c8f113699dfb54334588fbdc3c1a33d599141c51),
   (Transaction.preimage sha3 (.blob tx),digest),
   (entry.hyleOutput.preimage sha3,
    ByteVec.ofNat 32 0x62dc7b44e47347a4cd77e53b9b25d1aa2eae4699d0550eed777866178b2a8e18),
   (signedBlock.consensusProposal.preimage,
    ByteVec.ofNat 32 0x152058c4aded5c45e6c5b36c46c22faa4172e1829870023dacbcce408221b1c4)]

def entryDigests : List (Bytes × H256) :=
  [(entry.preimage (ByteVec.lookup txDigests),
    ByteVec.ofNat 32 0x96b664e023c4557e48e372964bf2491851da1912f80d9fd964099b1b767c191c)]

def proofDigests : List (Bytes × H256) :=
  let sha3 := ByteVec.lookup (blobDigests++txDigests++entryDigests)
  [(Transaction.preimage sha3 (proofTx "foo" entry).transactionData,
    ByteVec.ofNat 32 0x08a820499a2fd5cc25b531cd18ee8a1e7677c34d3b30710c6b7101ba8ecc99ec)]

/-- SHA3-256 at the byte strings that the block leads to. -/
def env : Environment :=
  let digests := blobDigests++txDigests++entryDigests++proofDigests
  { TwoContracts.env with sha3 := ByteVec.lookup digests }

end MixedBlobs

/-- A transaction whose only blob is proven, and one whose first blob is accepted natively. -/
theorem settledEntries_runs :
    ([(0,"foo")],[(Reregistered.hash "test",0,some 0)])∈
      settledEntries Reregistered.env (Reregistered.signedBlock "test") ∧
    ([(1,"foo")],[(MixedBlobs.hash,1,none)])∈
      settledEntries MixedBlobs.env MixedBlobs.signedBlock := by
  decide +kernel

open Reregistered in
theorem verifiedAccurately_iff_test :
    ∃ moment ∈ moments env [signedBlock "test"],∃ tx result,
      moment.settled env=some (tx,result) ∧
      moment.pushedBlobs env=[(Reregistered.hash "test",0,some 0)] ∧
      (VerifiedAccurately env moment tx result ↔ OnlyProven tx) := by
  obtain ⟨moment,hm,tx,result,settled,_,pushed⟩ :=
    exists_of_mem_settledEntries settledEntries_runs.1
  exact ⟨moment,hm,tx,result,settled,pushed,
    verifiedAccurately_iff env [signedBlock "test"] moment hm tx result settled⟩

open MixedBlobs in
/-- The only proof of the second blob is used, but no index is pushed for the blob. -/
theorem not_verifiedAccurately :
    ∃ moment ∈ moments env [signedBlock],∃ tx result,moment.settled env=some (tx,result) ∧
      (hash,1,none)∈moment.pushedBlobs env ∧ ¬SettledWith env moment tx result 1 none ∧
      ¬VerifiedAccurately env moment tx result := by
  obtain ⟨moment,hm,tx,result,settled,waiting,pushed⟩ :=
    exists_of_mem_settledEntries settledEntries_runs.2
  have listed : (hash,1,none)∈moment.pushedBlobs env := by
    rw [pushed]
    exact List.mem_singleton_self _
  have proven : ¬SettledWith env moment tx result 1 none := by
    intro without
    have first := congrArg (fun l => l[0]?) waiting
    rw [List.getElem?_map] at first
    obtain ⟨⟨index,metadata⟩,he,eq⟩ := Option.map_eq_some_iff.mp first
    obtain ⟨rfl,name⟩ := Prod.mk.inj eq
    obtain ⟨step,_,hs,same,_⟩ := exists_step_at settled he
    dsimp only at same name
    have noProof := without 0 step (same ▸ he) hs
    obtain ⟨_,hyle,_⟩ := (Moment.applied settled).of_none (List.mem_of_getElem? hs) noProof
    rw [same,name] at hyle
    exact absurd hyle (by decide)
  exact ⟨moment,hm,tx,result,settled,listed,proven,fun accurate =>
    proven (accurate.settled _ listed).2⟩

end TruthSeeker.NodeState
