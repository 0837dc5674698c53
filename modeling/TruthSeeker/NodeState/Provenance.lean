import TruthSeeker.NodeState.Pending

namespace TruthSeeker.NodeState

open OrderedTxMap

/-- The transactions of a sequence of blocks. -/
def Carried (signedBlocks : List SignedBlock) (data : TransactionData) : Prop :=
  ∃ signedBlock ∈ signedBlocks,∃ lane ∈ signedBlock.dataProposals,∃ dp ∈ lane.2,∃ tx ∈ dp.txs,
    tx.transactionData=data

theorem carried_of_mem {signedBlocks : List SignedBlock} {signedBlock : SignedBlock}
    {sha3 : Bytes → H256} {entry : LaneId × TxId × Transaction} (hb : signedBlock∈signedBlocks)
    (he : entry∈signedBlock.iterTxsWithId sha3) :
    Carried signedBlocks entry.2.2.transactionData := by
  simp only [SignedBlock.iterTxsWithId,SignedBlock.txsWithId,List.mem_flatMap,List.mem_map] at he
  obtain ⟨lane,hl,dp,hd,tx,ht,rfl⟩ := he
  exact ⟨signedBlock,hb,lane,hl,dp,hd,tx,ht,rfl⟩

theorem mem_of_mem_ofBlobs {blobs : List Blob} {index : BlobIndex} {blob : Blob}
    (h : (index,blob)∈IndexedBlobs.ofBlobs blobs) : blob∈blobs := by
  obtain ⟨p,hp,eq⟩ := List.mem_map.mp h
  have found := List.mem_of_getElem? (List.mk_mem_zipIdx_iff_getElem?.mp hp)
  rwa [(Prod.mk.inj eq).2] at found

/-- The three ways in which a proof of a blob comes into being. -/
inductive Genuine (env : Environment) (carried : TransactionData → Prop)
    (tx : UnsettledBlobTransaction) (index : BlobIndex) (blob : Blob) :
    ProgramId × HyleOutput → Prop where
  | proven (proofTx : VerifiedProofTransaction) (entry : BlobProofOutput)
      (listed : carried (.verifiedProof proofTx)) (claimed : entry∈proofTx.provenBlobs)
      (ofTx : entry.blobTxHash=tx.hash) (ofBlob : entry.hyleOutput.index=index)
      (verified : verifyHyleOutput env tx entry.hyleOutput=.ok ()) :
      Genuine env carried tx index blob (entry.programId,entry.hyleOutput)
  | native (blobTx : BlobTransaction) (verifier : NativeVerifiers)
      (listed : carried (.blob blobTx)) (ofTx : blobTx.hashed env.sha3=tx.hash)
      (ofBlob : (index,blob)∈IndexedBlobs.ofBlobs blobTx.blobs) :
      Genuine env carried tx index blob
        (verifier.programId,Native.verify env tx.hash index blobTx.blobs blob verifier)
  | nuked (nukeTx : BlobTransaction) (nukeBlob : Blob) (nuke : NukeTxAction)
      (outputs : List HyleOutput) (output : HyleOutput) (update : ProgramId × HyleOutput)
      (listed : carried (.blob nukeTx))
      (signed : HyleTld.validateHyleContractBlobs env nukeTx=.ok ())
      (inTx : nukeBlob∈nukeTx.blobs) (toHyle : nukeBlob.contractName="hyle")
      (parsed : BlobData.parse NukeTxAction nukeBlob.data=some nuke)
      (ofTx : nuke.txs[tx.hash]?=some outputs) (mem : output∈outputs)
      (ofBlob : output.index=index) (adapts : Adapts output update) :
      Genuine env carried tx index blob update

/-- Every proof of every blob of the pending transactions is genuine. -/
def NoForgedProofs (env : Environment) (carried : TransactionData → Prop)
    (store : NodeStateStore) : Prop :=
  ∀ (hash : TxHash) (tx : UnsettledBlobTransaction),
    store.unsettledTransactions.map[hash]?=some tx →
    ∀ (index : BlobIndex) (metadata : UnsettledBlobMetadata),tx.blobs[index]?=some metadata →
    ∀ proof ∈ metadata.possibleProofs,Genuine env carried tx index metadata.blob proof

/-- No accepted transaction names, in a blob to another contract than `hyle` that decodes as
a nuke, an output for a blob of a transaction of the run. -/
def NukesOnlyToHyle (env : Environment) (carried : TransactionData → Prop) : Prop :=
  ∀ nukeTx victim : BlobTransaction,carried (.blob nukeTx) → carried (.blob victim) →
    HyleTld.validateHyleContractBlobs env nukeTx=.ok () →
    ∀ blob ∈ nukeTx.blobs,∀ nuke,BlobData.parse NukeTxAction blob.data=some nuke →
    ∀ outputs,nuke.txs[victim.hashed env.sha3]?=some outputs →
    ∀ output ∈ outputs,(∃ victimBlob,(output.index,victimBlob)∈IndexedBlobs.ofBlobs victim.blobs) →
    blob.contractName="hyle"

section Pending
variable (env : Environment) (carried : TransactionData → Prop)

/-- A pending transaction keeps blobs of an accepted one. -/
def FromTx (tx : UnsettledBlobTransaction) (blobTx : BlobTransaction) : Prop :=
  carried (.blob blobTx) ∧ HyleTld.validateHyleContractBlobs env blobTx=.ok () ∧
    tx.hash=blobTx.hashed env.sha3 ∧
    ∀ (index : BlobIndex) (metadata : UnsettledBlobMetadata),tx.blobs[index]?=some metadata →
      (index,metadata.blob)∈IndexedBlobs.ofBlobs blobTx.blobs

structure Sourced (tx : UnsettledBlobTransaction) : Prop where
  fromTx : ∃ blobTx,FromTx env carried tx blobTx
  genuine : ∀ (index : BlobIndex) (metadata : UnsettledBlobMetadata),
    tx.blobs[index]?=some metadata →
    ∀ proof ∈ metadata.possibleProofs,Genuine env carried tx index metadata.blob proof

end Pending

section Run
variable {env : Environment} {carried : TransactionData → Prop}

/-- The check of an output reads nothing of the proofs that are already there. -/
theorem verifyHyleOutput_pushProof (tx : UnsettledBlobTransaction) (index : BlobIndex)
    (proof : ProgramId × HyleOutput) (output : HyleOutput) :
    verifyHyleOutput env (tx.pushProof index proof) output=verifyHyleOutput env tx output := by
  unfold UnsettledBlobTransaction.pushProof
  split
  · rfl
  · next metadata hm =>
    unfold verifyHyleOutput
    dsimp only
    by_cases hi : index=output.index
    · subst hi
      rw [Std.ExtTreeMap.getElem?_insert_self,hm]
    · rw [Std.ExtTreeMap.getElem?_insert,if_neg fun heq => hi (Std.LawfulEqOrd.eq_of_compare heq)]

theorem Genuine.pushProof {tx : UnsettledBlobTransaction} {index i : BlobIndex} {blob : Blob}
    {proof found : ProgramId × HyleOutput} (h : Genuine env carried tx i blob found) :
    Genuine env carried (tx.pushProof index proof) i blob found := by
  have hash := tx.hash_pushProof index proof
  cases h with
  | proven proofTx entry listed claimed ofTx ofBlob verified =>
    rw [← verifyHyleOutput_pushProof tx index proof] at verified
    exact .proven proofTx entry listed claimed (ofTx.trans hash.symm) ofBlob verified
  | native blobTx verifier listed ofTx ofBlob =>
    have native : Genuine env carried (tx.pushProof index proof) i blob
        (verifier.programId,Native.verify env (tx.pushProof index proof).hash i blobTx.blobs blob
          verifier) :=
      .native blobTx verifier listed (ofTx.trans hash.symm) ofBlob
    rwa [hash] at native
  | nuked nukeTx nukeBlob nuke outputs output update listed signed inTx toHyle parsed ofTx mem
      ofBlob adapts =>
    rw [← hash] at ofTx
    exact .nuked nukeTx nukeBlob nuke outputs output found listed signed inTx toHyle parsed ofTx
      mem ofBlob adapts

theorem Sourced.pushProof {tx : UnsettledBlobTransaction} {index : BlobIndex}
    {proof : ProgramId × HyleOutput} (h : Sourced env carried tx)
    (hp : ∀ metadata,tx.blobs[index]?=some metadata →
      Genuine env carried tx index metadata.blob proof) :
    Sourced env carried (tx.pushProof index proof) := by
  constructor
  · obtain ⟨blobTx,listed,valid,hash,blobs⟩ := h.fromTx
    refine ⟨blobTx,listed,valid,(tx.hash_pushProof index proof).trans hash,?_⟩
    intro i metadata hm
    obtain ⟨old,ho,hb,_⟩ := tx.getElem?_pushProof hm
    rw [hb]
    exact blobs i old ho
  · intro i metadata hm found hf
    obtain ⟨old,ho,hb,same|pushed⟩ := tx.getElem?_pushProof hm
    · rw [same] at hf
      rw [hb]
      exact (h.genuine i old ho found hf).pushProof
    · obtain ⟨rfl,proofs⟩ := pushed
      rw [proofs,List.mem_append,List.mem_singleton] at hf
      rw [hb]
      obtain hf|rfl := hf
      · exact (h.genuine i old ho found hf).pushProof
      · exact (hp old ho).pushProof

theorem foldl_insert_eq_some {κ ν : Type} [Ord κ] [Std.TransOrd κ] [Std.LawfulEqOrd κ]
    {entries : List (κ × ν)} {m : Std.ExtTreeMap κ ν} {k : κ} {v : ν}
    (h : (entries.foldl (fun m p => m.insert p.1 p.2) m)[k]?=some v) :
    m[k]?=some v ∨ (k,v)∈entries := by
  induction entries generalizing m with
  | nil => exact Or.inl h
  | cons entry entries ih =>
    obtain old|new := ih h
    · rw [Std.ExtTreeMap.getElem?_insert] at old
      split_ifs at old with heq
      · obtain rfl := Std.LawfulEqOrd.eq_of_compare heq
        obtain rfl := Option.some.inj old
        exact Or.inr List.mem_cons_self
      · exact Or.inl old
    · exact Or.inr (List.mem_cons_of_mem entry new)

/-- What is forced upon a transaction stands in a blob of the settled one. -/
theorem txsToNuke_eq_some {settledTx : UnsettledBlobTransaction} {hash : TxHash}
    {outputs : List HyleOutput} (h : (txsToNuke settledTx)[hash]?=some outputs) :
    ∃ metadata ∈ settledTx.blobValues,∃ nuke,
      BlobData.parse NukeTxAction metadata.blob.data=some nuke ∧ nuke.txs[hash]?=some outputs := by
  unfold txsToNuke at h
  revert h
  refine List.foldlRecOn (motive := fun nukes => nukes[hash]?=some outputs → _)
    settledTx.blobValues _ (by simp) ?_
  intro nukes ih metadata hm h
  cases hp : BlobData.parse NukeTxAction metadata.blob.data with
  | none =>
    simp only [hp] at h
    exact ih h
  | some nuke =>
    simp only [hp] at h
    obtain old|new := foldl_insert_eq_some h
    · exact ih old
    · exact ⟨metadata,hm,nuke,hp,Std.ExtTreeMap.mem_toList_iff_getElem?_eq_some.mp new⟩

theorem sourced_unsettledBlobTransaction {store : NodeStateStore} {tx : BlobTransaction}
    {parentDpHash : DataProposalHash} {txContext : TxContext} (ht : carried (.blob tx))
    (hv : HyleTld.validateHyleContractBlobs env tx=.ok ()) :
    Sourced env carried (unsettledBlobTransaction env store parentDpHash tx txContext) := by
  have entry : ∀ (index : BlobIndex) (metadata : UnsettledBlobMetadata),
      (unsettledBlobTransaction env store parentDpHash tx txContext).blobs[index]?=some metadata →
      (index,metadata.blob)∈IndexedBlobs.ofBlobs tx.blobs ∧
        ∀ proof ∈ metadata.possibleProofs,Genuine env carried
          (unsettledBlobTransaction env store parentDpHash tx txContext) index metadata.blob
          proof := by
    intro index metadata hm
    obtain ⟨⟨i,blob⟩,hb,hu⟩ := List.mem_filterMap.mp (mem_of_getElem?_ofList hm)
    unfold unsettledBlob at hu
    split at hu
    · obtain ⟨rfl,rfl⟩ := Prod.mk.inj (Option.some.inj hu)
      exact ⟨hb,by simp⟩
    · next verifier _ =>
      dsimp only at hu
      split_ifs at hu
      obtain ⟨rfl,rfl⟩ := Prod.mk.inj (Option.some.inj hu)
      refine ⟨hb,?_⟩
      intro proof hp
      obtain rfl := List.mem_singleton.mp hp
      exact .native tx verifier ht rfl hb
  constructor
  · exact ⟨tx,ht,hv,rfl,fun index metadata hm => (entry index metadata hm).1⟩
  · exact fun index metadata hm => (entry index metadata hm).2

/-- Under the condition on the nukes, all ways to add a proof keep the proofs genuine. -/
theorem invariant_sourced (hn : NukesOnlyToHyle env carried) :
    Invariant env carried (Sourced env carried) where
  sequenced _ _ _ _ ht hv := sourced_unsettledBlobTransaction ht hv
  proven := by
    intro proofTx entry tx ht he hash hv hs
    apply hs.pushProof
    intro metadata _
    exact .proven proofTx entry ht he hash rfl hv
  forced := by
    intro settledTx tx update settled hs forces
    apply hs.pushProof
    intro metadata hm
    obtain ⟨outputs,output,nukes,mem,adapts⟩ := forces
    obtain ⟨source,hsource,nuke,parsed,hnuke⟩ := txsToNuke_eq_some nukes
    obtain ⟨i,hi⟩ := settledTx.mem_blobValues.mp hsource
    obtain ⟨nukeTx,listed,signed,_,blobs⟩ := settled.fromTx
    obtain ⟨victim,victimListed,_,hash,victimBlobs⟩ := hs.fromTx
    have inTx : source.blob∈nukeTx.blobs := mem_of_mem_ofBlobs (blobs i source hi)
    have index : update.2.index=output.index := by
      obtain same|⟨_,state,same⟩ := adapts <;> rw [same]
    have toHyle : source.blob.contractName="hyle" := by
      apply hn nukeTx victim listed victimListed signed source.blob inTx nuke parsed outputs
      · rw [← hash]
        exact hnuke
      · exact mem
      · rw [← index]
        exact ⟨metadata.blob,victimBlobs _ metadata hm⟩
    exact .nuked nukeTx source.blob nuke outputs output update listed signed inTx toHyle parsed
      hnuke mem index.symm adapts

/-- No proof is forged in a run without nukes to other contracts. -/
theorem noForgedProofs (env : Environment) (signedBlocks : List SignedBlock)
    (hn : NukesOnlyToHyle env (Carried signedBlocks)) :
    NoForgedProofs env (Carried signedBlocks)
      (handleSignedBlocks env NodeStateStore.default signedBlocks) := by
  have sourced : All (Sourced env (Carried signedBlocks))
      (handleSignedBlocks env NodeStateStore.default signedBlocks).unsettledTransactions :=
    all_handleSignedBlocks (invariant_sourced hn) (fun _ hb _ he => carried_of_mem hb he) all_empty
  exact fun hash tx ht => (sourced hash tx ht).genuine

end Run

theorem carried_singleton {laneId : LaneId} {txs : List Transaction}
    {parent : Option DataProposalHash} {proposal : ConsensusProposal}
    {certificate : AggregateSignature} {data : TransactionData} :
    Carried [⟨[(laneId,[⟨parent,txs⟩])],proposal,certificate⟩] data ↔
      data∈txs.map Transaction.transactionData := by
  simp [Carried]

namespace TwoContracts

/-- Registers a contract of the test verifier, with the state 0 and the program 1. -/
def register (name : ContractName) : Blob :=
  ⟨"hyle",(Borsh.ser (⟨none,none,⟨"test",[1],[0],name,none,none⟩⟩ :
    StructuredBlobData RegisterContractAction)).getD []⟩

def registerTx : BlobTransaction := ⟨"hyle@hyle",[register "foo",register "bar"]⟩

def victim : BlobTransaction := ⟨"victim@foo",[⟨"foo",[]⟩,⟨"bar",[]⟩]⟩

def victimDigest : H256 :=
  ByteVec.ofNat 32 0xec36473d97964189605c2f9e390baeb9d81163696ba10ef48e8e7afdfcc908a2

def victimHash : TxHash := Bytes.hex victimDigest.toList

/-- The first blob of the victim moves `foo` from the state 0 to the state 7. -/
def output : HyleOutput where
  version := 1
  initialState := [0]
  nextState := [7]
  identity := "victim@foo"
  index := 0
  blobs := []
  txBlobCount := 2
  txHash := victimHash
  success := true
  stateReads := []
  txCtx := none
  onchainEffects := []
  programOutputs := []

/-- A blob for the contract `bar` whose data decode as a nuke of the victim. -/
def nukeBlob : Blob :=
  ⟨"bar",(Borsh.ser (⟨none,none,⟨.ofList ([(victimHash,[output])] : List (TxHash × _))⟩⟩ :
    StructuredBlobData NukeTxAction)).getD []⟩

def attack : BlobTransaction := ⟨"mallory@bar",[nukeBlob]⟩

def attackDigest : H256 :=
  ByteVec.ofNat 32 0x9413b3f2f89531d5137bbd433eb01ffb0c82146686b029895807d1ef62eb1bfd

def attackHash : TxHash := Bytes.hex attackDigest.toList

/-- The proof of the attacking blob leaves the state of `bar` as it is. -/
def attackOutput : HyleOutput :=
  { output with nextState := [0],identity := "mallory@bar",txHash := attackHash }

def proofTx (contractName : ContractName) (entry : BlobProofOutput) : Transaction :=
  ⟨1,.verifiedProof ⟨contractName,none,"",0,[entry],false⟩⟩

def block (txs : List Transaction) : SignedBlock :=
  ⟨[([1],[⟨none,txs⟩])],⟨1,"",[],[],0⟩,default⟩

def attackEntry : BlobProofOutput := ⟨attackHash,"",attackOutput,[1]⟩

def honestEntry : BlobProofOutput := ⟨victimHash,"",output,[1]⟩

def attackBlock : SignedBlock :=
  block [⟨1,.blob registerTx⟩,⟨1,.blob attack⟩,⟨1,.blob victim⟩,proofTx "bar" attackEntry]

def honestBlock : SignedBlock :=
  block [⟨1,.blob registerTx⟩,⟨1,.blob victim⟩,proofTx "foo" honestEntry]

def blobDigests : List (Bytes × H256) :=
  [(utf8 "hyle"++(register "foo").data,
    ByteVec.ofNat 32 0x54a930b17902efbb70102a504c95620b28f2fea6cb8f112599cd9201233556c6),
   (utf8 "hyle"++(register "bar").data,
    ByteVec.ofNat 32 0x9e300ad88c4313ba93cfea399f7df1b5e7ff7dbadf4d77eb338ac20c3bfbc892),
   (utf8 "foo",
    ByteVec.ofNat 32 0x76d3bc41c9f588f7fcd0d5bf4718f8f84b1c41b20882703100b9eb9413807c01),
   (utf8 "bar",
    ByteVec.ofNat 32 0xcceefd7e0545bcf8b6d19f3b5750c8a3ee8350418877bc6fb12e32de28137355),
   (utf8 "bar"++nukeBlob.data,
    ByteVec.ofNat 32 0x387fa545aa2d9d49b8949a80ed1d82c69c7f98e37f02b0772e52a61479c1a4ac)]

def txDigests : List (Bytes × H256) :=
  let sha3 := ByteVec.lookup blobDigests
  [(Transaction.preimage sha3 (.blob registerTx),
    ByteVec.ofNat 32 0xf4ca2603f5a15680ab6f1d72e5657208bf6e68d9b92085f90c0498a72c1681d8),
   (Transaction.preimage sha3 (.blob victim),victimDigest),
   (Transaction.preimage sha3 (.blob attack),attackDigest),
   (attackOutput.preimage sha3,
    ByteVec.ofNat 32 0xdc8406716614d5bc50bc5b49f9a1b1e443444756a03acba5b6d15e0ccc7a93aa),
   (output.preimage sha3,
    ByteVec.ofNat 32 0xfde33b0230ac7675c939e1ba3b3c2b0c77505328452c98135cfbbf9f95c9c99b),
   (attackBlock.consensusProposal.preimage,
    ByteVec.ofNat 32 0x152058c4aded5c45e6c5b36c46c22faa4172e1829870023dacbcce408221b1c4)]

def entryDigests : List (Bytes × H256) :=
  let sha3 := ByteVec.lookup txDigests
  [(attackEntry.preimage sha3,
    ByteVec.ofNat 32 0x1dc90d912a8d74576016b9bb22f95d86d61cab7864361e0f4c1b3031de8ff850),
   (honestEntry.preimage sha3,
    ByteVec.ofNat 32 0x338500088762796f72e84981a6dfcb8e0f4ec8d6795f9fdb5b5a097b915e6909)]

def proofDigests : List (Bytes × H256) :=
  let sha3 := ByteVec.lookup (txDigests++entryDigests)
  [(Transaction.preimage sha3 (proofTx "bar" attackEntry).transactionData,
    ByteVec.ofNat 32 0xaf1153e56cba81f3aa7f9bff04c4bab9eb31970248275920a1d048f1832a984d),
   (Transaction.preimage sha3 (proofTx "foo" honestEntry).transactionData,
    ByteVec.ofNat 32 0x9b6c506ca45a9a5f16d4ced59f57d2137e512f213f248950548bf698fc104960)]

/-- SHA3-256 at the byte strings that the two blocks lead to. The other functions are not
called. -/
def env : Environment where
  sha3 := ByteVec.lookup (blobDigests++txDigests++entryDigests++proofDigests)
  sha256 _ := ByteVec.zero 32
  PublicKey := Unit
  BlstSignature := Unit
  blst := ⟨fun _ => .error "",fun _ => [],fun _ => .error "",fun _ => [],fun _ => .error "",
    fun _ => .error "",fun _ _ _ => false⟩
  verifyEcdsa _ _ _ := .ok false
  hyliTldPubkey := none
  validateProgramId _ _ := .ok ()
  debug := ⟨id,id,fun _ => "",fun _ => "",fun _ => "",fun _ => "",fun _ => "",fun _ => "",
    fun _ => ""⟩

/-- The proofs that the first blob of the victim holds after a block. -/
def victimProofs (signedBlock : SignedBlock) : Option (List (ProgramId × HyleOutput)) :=
  let store := handleSignedBlocks env NodeStateStore.default [signedBlock]
  (store.unsettledTransactions.map[victimHash]?).bind fun tx =>
    (tx.blobs[(0 : BlobIndex)]?).map UnsettledBlobMetadata.possibleProofs

theorem exists_of_victimProofs {signedBlock : SignedBlock}
    {proofs : List (ProgramId × HyleOutput)} (h : victimProofs signedBlock=some proofs) :
    ∃ tx metadata,(handleSignedBlocks env NodeStateStore.default
        [signedBlock]).unsettledTransactions.map[victimHash]?=some tx ∧
      tx.blobs[(0 : BlobIndex)]?=some metadata ∧ metadata.possibleProofs=proofs := by
  obtain ⟨tx,ht,hb⟩ := Option.bind_eq_some_iff.mp h
  obtain ⟨metadata,hm,hp⟩ := Option.map_eq_some_iff.mp hb
  exact ⟨tx,metadata,ht,hm,hp⟩

theorem runs_twoContracts :
    (victimProofs attackBlock=some [([1],output)] ∧
      victimProofs honestBlock=some [([1],output)]) ∧
    (∀ name ∈ ["foo","bar"],(BlobData.parse NukeTxAction (register name).data).isNone) ∧
    attackEntry.blobTxHash≠victimHash := by
  decide +kernel

theorem carried_blob_honestBlock {tx : BlobTransaction} (h : Carried [honestBlock] (.blob tx)) :
    tx=registerTx ∨ tx=victim := by
  simpa [honestBlock,block,carried_singleton,proofTx] using h

theorem carried_blob_attackBlock {tx : BlobTransaction} (h : Carried [attackBlock] (.blob tx)) :
    tx=registerTx ∨ tx=attack ∨ tx=victim := by
  simpa [attackBlock,block,carried_singleton,proofTx] using h

theorem carried_verifiedProof_attackBlock {tx : VerifiedProofTransaction}
    (h : Carried [attackBlock] (.verifiedProof tx)) : tx.provenBlobs=[attackEntry] := by
  have eq : tx=⟨"bar",none,"",0,[attackEntry],false⟩ := by
    simpa [attackBlock,block,carried_singleton,proofTx] using h
  rw [eq]

end TwoContracts

open TwoContracts in
theorem noForgedProofs_honestBlock : victimProofs honestBlock=some [([1],output)] ∧
    NoForgedProofs env (Carried [honestBlock])
      (handleSignedBlocks env NodeStateStore.default [honestBlock]) := by
  refine ⟨runs_twoContracts.1.2,noForgedProofs env [honestBlock] ?_⟩
  intro nukeTx _ listed _ _ blob hb nuke parsed
  obtain rfl|rfl := carried_blob_honestBlock listed
  · simp only [registerTx,List.mem_cons,List.not_mem_nil,or_false] at hb
    obtain rfl|rfl := hb <;> exact fun _ _ _ _ _ => rfl
  · have none : BlobData.parse NukeTxAction blob.data=none := by
      simp only [victim,List.mem_cons,List.not_mem_nil,or_false] at hb
      obtain rfl|rfl := hb <;> rfl
    rw [none] at parsed
    cases parsed

open TwoContracts in
/-- A blob for `bar` gives the first blob of the victim a proof that nobody made. -/
theorem not_noForgedProofs : ¬NoForgedProofs env (Carried [attackBlock])
    (handleSignedBlocks env NodeStateStore.default [attackBlock]) := by
  intro h
  obtain ⟨tx,metadata,ht,hm,hp⟩ := exists_of_victimProofs runs_twoContracts.1.1
  have genuine := h victimHash tx ht 0 metadata hm ([1],output) (by simp [hp])
  have hash := (handleSignedBlocks env NodeStateStore.default
    [attackBlock]).unsettledTransactions.hash_eq victimHash tx ht
  generalize he : (([1],output) : ProgramId × HyleOutput)=entry at genuine
  cases genuine with
  | proven proofTx entry listed claimed ofTx ofBlob verified =>
    rw [carried_verifiedProof_attackBlock listed,List.mem_singleton] at claimed
    rw [claimed,hash] at ofTx
    exact runs_twoContracts.2.2 ofTx
  | native blobTx verifier listed ofTx ofBlob =>
    have program : [1]=verifier.programId := congrArg Prod.fst he
    cases verifier <;> exact absurd program (by decide)
  | nuked nukeTx nukeBlob nuke outputs output update listed signed inTx toHyle parsed =>
    obtain rfl|rfl|rfl := carried_blob_attackBlock listed
    · simp only [registerTx,List.mem_cons,List.not_mem_nil,or_false] at inTx
      have none : (BlobData.parse NukeTxAction nukeBlob.data).isNone := by
        obtain rfl|rfl := inTx
        · exact runs_twoContracts.2.1 "foo" (by simp)
        · exact runs_twoContracts.2.1 "bar" (by simp)
      rw [parsed] at none
      cases none
    · obtain rfl := List.mem_singleton.mp inTx
      exact absurd toHyle (by decide)
    · simp only [victim,List.mem_cons,List.not_mem_nil,or_false] at inTx
      obtain rfl|rfl := inTx <;> exact absurd toHyle (by decide)

end TruthSeeker.NodeState
