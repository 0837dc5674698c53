import TruthSeeker.Model.Digest
import TruthSeeker.NodeState.Moments

namespace TruthSeeker.NodeState

open OrderedTxMap

/-- The output lists blobs of the transaction, each once, and counts all of them. -/
structure Covers (tx : BlobTransaction) (output : HyleOutput) : Prop where
  count : output.txBlobCount.toNat=tx.blobs.length
  nodup : (output.blobs.map Prod.fst).Nodup
  listed : ∀ entry ∈ output.blobs,tx.blobs[entry.1.toNat]?=some entry.2

/-- A contract that finds as many blobs as it is told has seen the whole transaction. -/
theorem Covers.complete {tx : BlobTransaction} {output : HyleOutput} (h : Covers tx output)
    (hl : output.blobs.length=output.txBlobCount.toNat) {i : Nat} {blob : Blob}
    (hb : tx.blobs[i]?=some blob) : ∃ entry ∈ output.blobs,entry.1.toNat=i ∧ entry.2=blob := by
  let indices := output.blobs.map fun entry => entry.1.toNat
  have nodup : indices.Nodup := by
    have toNat := h.nodup.map (f := UInt64.toNat) fun a b => UInt64.toNat_inj.mp
    rwa [List.map_map] at toNat
  have bounded : indices ⊆ List.range tx.blobs.length := by
    intro j hj
    obtain ⟨entry,he,rfl⟩ := List.mem_map.mp hj
    exact List.mem_range.mpr (List.getElem?_eq_some_iff.mp (h.listed entry he)).1
  have length : indices.length=(List.range tx.blobs.length).length := by
    rw [List.length_map,List.length_range,hl,h.count]
  have perm : indices.Perm (List.range tx.blobs.length) :=
    (List.subperm_of_subset nodup bounded).perm_of_length_le length.ge
  have mem : i∈indices :=
    perm.mem_iff.mpr (List.mem_range.mpr (List.getElem?_eq_some_iff.mp hb).1)
  obtain ⟨entry,he,hi⟩ := List.mem_map.mp mem
  have found := h.listed entry he
  rw [hi,hb] at found
  exact ⟨entry,he,hi,(Option.some.inj found).symm⟩

/-- What the checks of an output leave to the prover: the count, repeated indices, and where
the name of a listed blob ends. -/
structure Framed (tx : BlobTransaction) (output : HyleOutput) : Prop where
  count : output.txBlobCount.toNat=tx.blobs.length
  nodup : (output.blobs.map Prod.fst).Nodup
  names : ∀ entry ∈ output.blobs,∀ blob,tx.blobs[entry.1.toNat]?=some blob →
    entry.2.undigested=blob.undigested

section Accepted
variable {env : Environment} {tx : BlobTransaction} {unsettledTx : UnsettledBlobTransaction}
  {output : HyleOutput}

/-- What a pending transaction keeps of the one that was sequenced. -/
structure Records (env : Environment) (tx : BlobTransaction)
    (unsettledTx : UnsettledBlobTransaction) : Prop where
  hash : unsettledTx.hash=tx.hashed env.sha3
  blobsHash : unsettledTx.blobsHash=
    BlobsHashes.ofBlobs env.sha3 (IndexedBlobs.ofBlobs tx.blobs)

theorem Records.pushProof {index : BlobIndex} {proof : ProgramId × HyleOutput}
    (h : Records env tx unsettledTx) : Records env tx (unsettledTx.pushProof index proof) where
  hash := (unsettledTx.hash_pushProof index proof).trans h.hash
  blobsHash := by
    unfold UnsettledBlobTransaction.pushProof
    split <;> exact h.blobsHash

theorem includesAll_of_verifyHyleOutput {u : Unit}
    (h : verifyHyleOutput env unsettledTx output=.ok u) :
    unsettledTx.blobsHash.includesAll (BlobsHashes.ofBlobs env.sha3 output.blobs)=true := by
  unfold verifyHyleOutput at h
  by_contra hn
  split_ifs at h
  dsimp only at h
  rw [if_pos hn] at h
  cases h

/-- The blob of the transaction at the index of a listed one has its hash. -/
theorem hashed_of_includesAll (hr : Records env tx unsettledTx)
    (hs : tx.blobs.length≤UInt64.size) (hn : (output.blobs.map Prod.fst).Nodup)
    (h : unsettledTx.blobsHash.includesAll (BlobsHashes.ofBlobs env.sha3 output.blobs)=true)
    {entry : BlobIndex × Blob} (he : entry∈output.blobs) :
    ∃ blob,tx.blobs[entry.1.toNat]?=some blob ∧ blob.hashed env.sha3=entry.2.hashed env.sha3 := by
  have distinct : (output.blobs.map fun p => (p.1,p.2.hashed env.sha3)).Pairwise
      fun a b => ¬compare a.1 b.1=.eq := by
    rw [List.pairwise_map]
    exact (List.pairwise_map.mp hn).imp fun hne heq =>
      hne (Std.LawfulEqOrd.eq_of_compare heq)
  have listed : (BlobsHashes.ofBlobs env.sha3 output.blobs)[entry.1]?=
      some (entry.2.hashed env.sha3) :=
    Std.ExtTreeMap.getElem?_ofList_of_mem Std.ReflOrd.compare_self distinct
      (List.mem_map_of_mem (f := fun p : BlobIndex × Blob => (p.1,p.2.hashed env.sha3)) he)
  have included := List.all_eq_true.mp h _
    (Std.ExtTreeMap.mem_toList_iff_getElem?_eq_some.mpr listed)
  have found : unsettledTx.blobsHash[entry.1]?=some (entry.2.hashed env.sha3) := by
    simpa using included
  rw [hr.blobsHash] at found
  obtain ⟨p,hp,eq⟩ := List.mem_map.mp (mem_of_getElem?_ofList found)
  obtain ⟨q,hq,rfl⟩ := List.mem_map.mp hp
  obtain ⟨index,hash⟩ := Prod.mk.inj eq
  have at_ : tx.blobs[q.2]?=some q.1 := List.mk_mem_zipIdx_iff_getElem?.mp hq
  have bound : q.2<tx.blobs.length := (List.getElem?_eq_some_iff.mp at_).1
  have toNat : entry.1.toNat=q.2 := by
    rw [← index]
    exact UInt64.toNat_ofNat_of_lt' (by omega)
  exact ⟨q.1,by rw [toNat]; exact at_,hash⟩

/-- The listed blobs and those of the transaction, as their hashes read them. -/
def blobPreimages (tx : BlobTransaction) (output : HyleOutput) : Set Bytes :=
  {bytes | (∃ blob ∈ tx.blobs,blob.preimage=bytes) ∨
    ∃ entry ∈ output.blobs,entry.2.preimage=bytes}

/-- An output that passes the checks covers the transaction exactly if what they leave open
fits. -/
theorem covers_iff_framed (hr : Records env tx unsettledTx) (hs : tx.blobs.length≤UInt64.size)
    (hi : Set.InjOn env.sha3 (blobPreimages tx output)) {u : Unit}
    (h : verifyHyleOutput env unsettledTx output=.ok u) : Covers tx output ↔ Framed tx output := by
  constructor
  · intro hc
    refine ⟨hc.count,hc.nodup,?_⟩
    intro entry he blob hb
    rw [hc.listed entry he] at hb
    rw [Option.some.inj hb]
  · intro hf
    refine ⟨hf.count,hf.nodup,?_⟩
    intro entry he
    have includes := includesAll_of_verifyHyleOutput h
    obtain ⟨blob,hb,hash⟩ := hashed_of_includesAll hr hs hf.nodup includes he
    have ofTx : blob.preimage∈blobPreimages tx output :=
      Or.inl ⟨blob,List.mem_of_getElem? hb,rfl⟩
    have ofOutput : entry.2.preimage∈blobPreimages tx output := Or.inr ⟨entry,he,rfl⟩
    have lengths := (hf.names entry he blob hb).symm
    rw [hb,Blob.eq_of_hashed hi ofTx ofOutput lengths (congrArg utf8 hash)]

end Accepted

section Run
variable (env : Environment) (carried : TransactionData → Prop)

/-- A pending transaction is the record of one of the blocks. -/
def Recorded (unsettledTx : UnsettledBlobTransaction) : Prop :=
  ∃ tx,carried (.blob tx) ∧ Records env tx unsettledTx

theorem invariant_recorded : Invariant env carried (Recorded env carried) where
  sequenced _ _ tx _ ht _ := ⟨tx,ht,rfl,rfl⟩
  proven := by
    intro proofTx entry unsettledTx _ _ _ _ hr
    obtain ⟨tx,ht,records⟩ := hr
    exact ⟨tx,ht,records.pushProof⟩
  forced := by
    intro settledTx unsettledTx update _ hr _
    obtain ⟨tx,ht,records⟩ := hr
    exact ⟨tx,ht,records.pushProof⟩

end Run

theorem verifyHyleOutput_of_handleBlobProof {env : Environment} {proofTxHash : TxHash}
    {work : Work} {entry : BlobProofOutput} {next : Option TxHash}
    (h : (handleBlobProof env proofTxHash work entry).2=.ok next) :
    ∃ unsettledTx,work.pending.get entry.blobTxHash=some unsettledTx ∧
      verifyHyleOutput env unsettledTx entry.hyleOutput=.ok () := by
  unfold handleBlobProof at h
  dsimp only at h
  cases hg : work.pending.getForSettlement entry.blobTxHash with
  | none => simp [hg] at h
  | some found =>
    obtain ⟨unsettledTx,shouldSettle⟩ := found
    obtain ⟨tx,hf,hp⟩ := Option.map_eq_some_iff.mp hg
    obtain ⟨rfl,_⟩ := Prod.mk.inj hp
    simp only [hg] at h
    cases hv : verifyHyleOutput env tx entry.hyleOutput with
    | error e => simp [hv] at h
    | ok u => exact ⟨tx,hf,hv⟩

/-- Every output that is accepted in a run is for the record of a blob transaction, and it
covers that transaction exactly if what the checks leave to the prover fits. -/
theorem covers_iff (env : Environment) (signedBlocks : List SignedBlock)
    (hs : ∀ tx,Carried signedBlocks (.blob tx) → tx.blobs.length≤UInt64.size)
    (moment : Moment) (hm : moment∈moments env signedBlocks) (proofTxHash : TxHash)
    (entry : BlobProofOutput)
    (hi : ∀ tx,Carried signedBlocks (.blob tx) →
      Set.InjOn env.sha3 (blobPreimages tx entry.hyleOutput))
    (next : Option TxHash)
    (ha : (handleBlobProof env proofTxHash moment.work entry).2=.ok next) :
    ∃ unsettledTx,moment.work.pending.get entry.blobTxHash=some unsettledTx ∧
      (∃ tx,Carried signedBlocks (.blob tx) ∧ Records env tx unsettledTx) ∧
      ∀ tx,Carried signedBlocks (.blob tx) → Records env tx unsettledTx →
        (Covers tx entry.hyleOutput ↔ Framed tx entry.hyleOutput) := by
  have recorded : All (Recorded env (Carried signedBlocks)) moment.work.pending :=
    (Preserved.ofInvariant (invariant_recorded env (Carried signedBlocks))).moments
      (fun _ hb _ he => carried_of_mem hb he) moment hm
  obtain ⟨unsettledTx,hg,hv⟩ := verifyHyleOutput_of_handleBlobProof ha
  refine ⟨unsettledTx,hg,recorded entry.blobTxHash unsettledTx hg,?_⟩
  intro tx ht hr
  exact covers_iff_framed hr (hs tx ht) (hi tx ht) hv

namespace TwoContracts

/-- The proof of the first blob of the victim, with the given list and number of blobs. -/
def entryOf (blobs : IndexedBlobs) (txBlobCount : UInt64) : BlobProofOutput :=
  ⟨victimHash,"",{ output with blobs := blobs,txBlobCount := txBlobCount },[1]⟩

def complete : BlobProofOutput := entryOf [(0,⟨"foo",[]⟩),(1,⟨"bar",[]⟩)] 2

/-- One blob is listed twice, the other one never. -/
def duplicated : BlobProofOutput := entryOf [(0,⟨"foo",[]⟩),(0,⟨"foo",[]⟩)] 2

/-- The count tells of one blob only. -/
def lowered : BlobProofOutput := entryOf [(0,⟨"foo",[]⟩)] 1

/-- The last letter of a name has moved into the data of the blob. -/
def reframed : BlobProofOutput := entryOf [(0,⟨"fo",[0x6f]⟩),(1,⟨"bar",[]⟩)] 2

def provenTx (provenBlobs : List BlobProofOutput) : Transaction :=
  ⟨1,.verifiedProof ⟨"foo",none,"",0,provenBlobs,false⟩⟩

def provenBlock (provenBlobs : List BlobProofOutput) : SignedBlock :=
  block [⟨1,.blob registerTx⟩,⟨1,.blob victim⟩,provenTx provenBlobs]

def outputDigests : List (Bytes × H256) :=
  let sha3 := ByteVec.lookup (blobDigests++txDigests)
  [(complete.hyleOutput.preimage sha3,
    ByteVec.ofNat 32 0xaff0b08fc72e729d694c2e940fb4faf4734e2860d9647dab4633d9c508750f8f),
   (duplicated.hyleOutput.preimage sha3,
    ByteVec.ofNat 32 0x871808cc68fd16c1d8b203098339fda7ad0a9111a26041645bd2aa7fd6dcf2ce),
   (lowered.hyleOutput.preimage sha3,
    ByteVec.ofNat 32 0x0deef246894b45722642152399f76b854fc1497ab5b4da377cd08242405eac76)]

def provenDigests : List (Bytes × H256) :=
  let sha3 := ByteVec.lookup (blobDigests++txDigests++outputDigests)
  [(complete.preimage sha3,
    ByteVec.ofNat 32 0x0ae0937278bbf58d18a1596c540917a62582a7b4bae0498e3dee8468dbcefe94),
   (duplicated.preimage sha3,
    ByteVec.ofNat 32 0x3f6f28445575ed1d7b195a5ede960f763819d132480e92d495d5d6c45a344c37),
   (lowered.preimage sha3,
    ByteVec.ofNat 32 0x7586514f8ca63b8280bec2627973fe4fe41997b1426c37239cae5f40d9f7e85d)]

def provenTxDigests : List (Bytes × H256) :=
  let sha3 := ByteVec.lookup (blobDigests++txDigests++outputDigests++provenDigests)
  [(Transaction.preimage sha3 (provenTx [complete]).transactionData,
    ByteVec.ofNat 32 0xd745b1c0d3a5a5a853634d81821f544537567eee0a1ac5b3ce8fb6560e0f1cd2),
   (Transaction.preimage sha3 (provenTx [duplicated,lowered,reframed]).transactionData,
    ByteVec.ofNat 32 0x87ce6f3c2e0c928084108ceac2cf94226a800d98fc8d047ca2a8d8971f94972b)]

/-- SHA3-256 at the byte strings that these blocks lead to. -/
def provenEnv : Environment :=
  let digests := blobDigests++txDigests++outputDigests++provenDigests++provenTxDigests
  { env with sha3 := ByteVec.lookup digests }

/-- The proofs that are handled in the run of one block, and whether each is accepted. -/
def handledProofs (signedBlock : SignedBlock) : List (BlobProofOutput × Bool) :=
  (moments provenEnv [signedBlock]).filterMap fun moment =>
    match moment.call with
    | .prove proofTxHash entry =>
        some (entry,(handleBlobProof provenEnv proofTxHash moment.work entry).2.isOk)
    | _ => none

theorem runs_provenBlock :
    (handledProofs (provenBlock [complete])=[(complete,true)] ∧
      handledProofs (provenBlock [duplicated,lowered,reframed])=
        [(duplicated,true),(lowered,true),(reframed,true)]) ∧
    ((blobDigests++txDigests++outputDigests++provenDigests++provenTxDigests).map
      Prod.snd).Nodup ∧
    victimHash=victim.hashed provenEnv.sha3 := by
  decide +kernel

theorem exists_moment {signedBlock : SignedBlock} {entry : BlobProofOutput}
    (h : (entry,true)∈handledProofs signedBlock) :
    ∃ moment ∈ moments provenEnv [signedBlock],∃ proofTxHash next,
      (handleBlobProof provenEnv proofTxHash moment.work entry).2=.ok next := by
  obtain ⟨moment,hm,he⟩ := List.mem_filterMap.mp h
  split at he
  · next proofTxHash found _ =>
    obtain ⟨rfl,ok⟩ := Prod.mk.inj (Option.some.inj he)
    refine ⟨moment,hm,proofTxHash,?_⟩
    cases hp : (handleBlobProof provenEnv proofTxHash moment.work found).2 with
    | error e => simp [hp,Except.isOk,Except.toBool] at ok
    | ok next => exact ⟨next,rfl⟩
  · cases he

theorem carried_blob_provenBlock {provenBlobs : List BlobProofOutput} {tx : BlobTransaction}
    (h : Carried [provenBlock provenBlobs] (.blob tx)) : tx=registerTx ∨ tx=victim := by
  simpa [provenBlock,block,carried_singleton,provenTx] using h

theorem injOn_complete {tx : BlobTransaction} (h : tx=registerTx ∨ tx=victim) :
    Set.InjOn provenEnv.sha3 (blobPreimages tx complete.hyleOutput) := by
  have known : blobPreimages tx complete.hyleOutput ⊆
      {bytes | bytes∈(blobDigests++txDigests++outputDigests++provenDigests++
        provenTxDigests).map Prod.fst} := by
    intro bytes hb
    have listed : bytes∈blobDigests.map Prod.fst := by
      obtain rfl|rfl := h <;>
        simp [blobPreimages,registerTx,victim,complete,entryOf,register,Blob.preimage] at hb <;>
        simp [blobDigests,register] <;> tauto
    rw [Set.mem_ofPred_eq]
    simp only [List.map_append,List.mem_append]
    tauto
  exact (ByteVec.lookup_injOn _ runs_provenBlock.2.1).mono known

end TwoContracts

open TwoContracts in
theorem covers_iff_complete : Covers victim complete.hyleOutput ∧
    ∃ moment ∈ moments provenEnv [provenBlock [complete]],
    ∃ unsettledTx,moment.work.pending.get complete.blobTxHash=some unsettledTx ∧
      (∃ tx,Carried [provenBlock [complete]] (.blob tx) ∧ Records provenEnv tx unsettledTx) ∧
      ∀ tx,Carried [provenBlock [complete]] (.blob tx) → Records provenEnv tx unsettledTx →
        (Covers tx complete.hyleOutput ↔ Framed tx complete.hyleOutput) := by
  constructor
  · exact ⟨by decide,by decide,by decide⟩
  · have handled : (complete,true)∈handledProofs (provenBlock [complete]) := by
      rw [runs_provenBlock.1.1]
      exact List.mem_singleton_self _
    obtain ⟨moment,hm,proofTxHash,next,ha⟩ := exists_moment handled
    refine ⟨moment,hm,covers_iff provenEnv [provenBlock [complete]] ?_ moment hm proofTxHash
      complete ?_ next ha⟩
    · intro tx ht
      obtain rfl|rfl := carried_blob_provenBlock ht <;> decide
    · intro tx ht
      exact injOn_complete (carried_blob_provenBlock ht)

open TwoContracts in
/-- The proof of the entry is accepted for the victim and does not cover the blobs of it. -/
def HidesBlob (entry : BlobProofOutput) : Prop :=
  (∃ moment ∈ moments provenEnv [provenBlock [duplicated,lowered,reframed]],∃ proofTxHash next,
    (handleBlobProof provenEnv proofTxHash moment.work entry).2=.ok next) ∧
  entry.blobTxHash=victim.hashed provenEnv.sha3 ∧ ¬Covers victim entry.hyleOutput

open TwoContracts in
theorem hidesBlob_of_mem {entry : BlobProofOutput} (he : entry∈[duplicated,lowered,reframed])
    (hc : ¬Covers victim entry.hyleOutput) (hb : entry.blobTxHash=victimHash) :
    HidesBlob entry := by
  exact ⟨exists_moment (by rw [runs_provenBlock.1.2]; simpa using he),
    hb.trans runs_provenBlock.2.2,hc⟩

open TwoContracts in
/-- The prover chooses the list and the count freely enough to hide a blob. -/
theorem not_covers : HidesBlob duplicated ∧ HidesBlob lowered ∧ HidesBlob reframed := by
  have listed : ¬Covers victim reframed.hyleOutput := by
    intro h
    have first := h.listed (0,⟨"fo",[0x6f]⟩) (by decide)
    exact absurd first (by decide)
  exact ⟨hidesBlob_of_mem (by simp) (fun h => absurd h.nodup (by decide)) rfl,
    hidesBlob_of_mem (by simp) (fun h => absurd h.count (by decide)) rfl,
    hidesBlob_of_mem (by simp) listed rfl⟩

end TruthSeeker.NodeState
