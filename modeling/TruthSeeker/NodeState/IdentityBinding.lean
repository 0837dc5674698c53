import TruthSeeker.Model.Actions
import TruthSeeker.NodeState.Vetted

namespace TruthSeeker.NodeState

open OrderedTxMap

/-- The contract on which an identity is proven: what follows its last at sign. -/
def providerOf (identity : Identity) : Option ContractName :=
  (rsplitOnce '@' identity).map Prod.snd

section Sequenced
variable (env : Environment)

/-- What the native verifier says of a blob, if the contract of the blob has one. -/
def nativeOutput (store : NodeStateStore) (tx : BlobTransaction) (entry : BlobIndex × Blob) :
    Option HyleOutput :=
  (nativeVerifier store entry.2).map fun verifier =>
    Native.verify env (tx.hashed env.sha3) entry.1 tx.blobs entry.2 verifier

/-- The call has accepted the transaction that is pending. -/
structure Sequences (sequencing : Moment) (blobTx : BlobTransaction)
    (tx : UnsettledBlobTransaction) : Prop where
  call : ∃ parentDpHash laneId,sequencing.call=.sequence parentDpHash laneId blobTx
  checked : checkBlobTx env sequencing.work.store blobTx=.ok ()
  hash : tx.hash=blobTx.hashed env.sha3
  identity : tx.identity=blobTx.identity

/-- The proof is that of a call of the run, for the blob, and has the identity. -/
def ProvenBy (run : List Moment) (tx : UnsettledBlobTransaction) (index : BlobIndex)
    (proof : ProgramId × HyleOutput) : Prop :=
  ∃ proving ∈ run,∃ proofTxHash claim,proving.call=.prove proofTxHash claim ∧
    claim.blobTxHash=tx.hash ∧ claim.hyleOutput.index=index ∧
    proof=(claim.programId,claim.hyleOutput) ∧ claim.hyleOutput.identity=tx.identity

/-- A native verifier has accepted the blob for the identity of the transaction. -/
def NativelyAttested (store : NodeStateStore) (blobTx : BlobTransaction)
    (entry : BlobIndex × Blob) : Prop :=
  ∃ hyleOutput ∈ nativeOutput env store blobTx entry,
    hyleOutput.success=true ∧ hyleOutput.identity=blobTx.identity

/-- A blob of the provider has attested the identity of the transaction that is settled. -/
def Attested (run : List Moment) (moment : Moment) (tx : UnsettledBlobTransaction) : Prop :=
  ∃ sequencing ∈ run,∃ blobTx,Sequences env sequencing blobTx tx ∧
    ∃ provider ∈ providerOf tx.identity,∃ entry ∈ IndexedBlobs.ofBlobs blobTx.blobs,
      entry.2.contractName=provider ∧
      ((∃ step ∈ moment.steps env,step.metadata.blob=entry.2 ∧
          ∃ proof,step.proof=some proof ∧ ProvenBy run tx entry.1 proof) ∨
        NativelyAttested env sequencing.work.store blobTx entry)

/-- Whenever the transaction of the hash settles as successful in the run, its identity is
attested. -/
def IdentityAttested (signedBlocks : List SignedBlock) (hash : TxHash) : Prop :=
  ∀ moment ∈ moments env signedBlocks,∀ tx result,moment.settled env=some (tx,result) →
    tx.hash=hash → Attested env (moments env signedBlocks) moment tx

/-- The provider is not `hyle`, and the native verifier accepts one of its blobs only for the
identity of the transaction. -/
def Attestable (store : NodeStateStore) (tx : BlobTransaction) : Prop :=
  ∃ provider ∈ providerOf tx.identity,provider≠"hyle" ∧
    ∃ entry ∈ IndexedBlobs.ofBlobs tx.blobs,entry.2.contractName=provider ∧
      ∀ hyleOutput ∈ nativeOutput env store tx entry,
        hyleOutput.success=true → hyleOutput.identity=tx.identity

/-- No successful output is forced upon a blob of the provider of the pending transaction. -/
def Moment.SparesProvider (hash : TxHash) (self : Moment) : Prop :=
  ∀ settled ∈ self.settled env,∀ outputs ∈ (txsToNuke settled.1)[hash]?,
    ∀ tx ∈ self.work.pending.map[hash]?,∀ hyleOutput ∈ outputs,hyleOutput.success=true →
    ∀ metadata ∈ tx.blobs[hyleOutput.index]?,some metadata.blob.contractName≠providerOf tx.identity

/-- The transaction of the hash can be attested if it is accepted, and is not forced. -/
def Moment.BindsIdentity (hash : TxHash) (self : Moment) : Prop :=
  match self.call with
  | .sequence _ _ tx =>
      tx.hashed env.sha3=hash → checkBlobTx env self.work.store tx=.ok () →
        Attestable env self.work.store tx
  | _ => self.SparesProvider env hash

def BindsIdentity (signedBlocks : List SignedBlock) (hash : TxHash) : Prop :=
  ∀ moment ∈ moments env signedBlocks,moment.BindsIdentity env hash

/-- The number of blobs that the call brings. -/
def Moment.blobCount (self : Moment) : Nat :=
  match self.call with
  | .sequence _ _ tx => tx.blobs.length
  | _ => 0

instance (store : NodeStateStore) : DecidablePred (Attestable env store) :=
  fun tx => inferInstanceAs (Decidable (∃ provider ∈ providerOf tx.identity,_))

instance (hash : TxHash) : DecidablePred (Moment.SparesProvider env hash) :=
  fun self => inferInstanceAs (Decidable (∀ settled ∈ self.settled env,_))

instance (hash : TxHash) : DecidablePred (Moment.BindsIdentity env hash)
  | ⟨_,work,.sequence _ _ tx⟩ => inferInstanceAs (Decidable (tx.hashed env.sha3=hash →
      checkBlobTx env work.store tx=.ok () → Attestable env work.store tx))
  | ⟨order,work,.prove proofTxHash entry⟩ => inferInstanceAs
      (Decidable (Moment.SparesProvider env hash ⟨order,work,.prove proofTxHash entry⟩))
  | ⟨order,work,.settle bth⟩ =>
      inferInstanceAs (Decidable (Moment.SparesProvider env hash ⟨order,work,.settle bth⟩))
  | ⟨order,work,.timeOut txHash⟩ =>
      inferInstanceAs (Decidable (Moment.SparesProvider env hash ⟨order,work,.timeOut txHash⟩))
  | ⟨order,work,.reschedule hashes⟩ =>
      inferInstanceAs (Decidable (Moment.SparesProvider env hash ⟨order,work,.reschedule hashes⟩))

instance (signedBlocks : List SignedBlock) (hash : TxHash) :
    Decidable (BindsIdentity env signedBlocks hash) :=
  inferInstanceAs (Decidable (∀ moment ∈ moments env signedBlocks,_))

end Sequenced

section Pending
variable {env : Environment} {run : List Moment}

/-- A blob that no native verifier has accepted waits for its proofs. -/
theorem getElem?_unsettledBlobTransaction {store : NodeStateStore}
    {parentDpHash : DataProposalHash} {tx : BlobTransaction} {txContext : TxContext}
    (hs : tx.blobs.length≤UInt64.size) {entry : BlobIndex × Blob}
    (he : entry∈IndexedBlobs.ofBlobs tx.blobs) {metadata : UnsettledBlobMetadata}
    (hu : unsettledBlob env store tx entry=some (entry.1,metadata)) :
    (unsettledBlobTransaction env store parentDpHash tx txContext).blobs[entry.1]?=
      some metadata := by
  have keyed : ∀ {e : BlobIndex × Blob} {p},unsettledBlob env store tx e=some p → p.1=e.1 := by
    intro e p hp
    unfold unsettledBlob at hp
    split at hp
    · exact (congrArg Prod.fst (Option.some.inj hp)).symm
    · dsimp only at hp
      split_ifs at hp
      exact (congrArg Prod.fst (Option.some.inj hp)).symm
  have distinct : ((IndexedBlobs.ofBlobs tx.blobs).filterMap
      (unsettledBlob env store tx)).Pairwise fun a b => ¬compare a.1 b.1=.eq := by
    refine List.Pairwise.filterMap _ ?_ (List.pairwise_map.mp (IndexedBlobs.nodup_ofBlobs hs))
    intro a b apart p hp q hq same
    rw [keyed hp,keyed hq] at same
    exact apart (Std.LawfulEqOrd.eq_of_compare same)
  exact Std.ExtTreeMap.getElem?_ofList_of_mem Std.ReflOrd.compare_self distinct
    (List.mem_filterMap.mpr ⟨entry,he,hu⟩)

theorem identity_of_verifyHyleOutput {tx : UnsettledBlobTransaction} {hyleOutput : HyleOutput}
    (h : verifyHyleOutput env tx hyleOutput=.ok ()) : hyleOutput.identity=tx.identity := by
  unfold verifyHyleOutput at h
  by_contra other
  rw [if_pos (Ne.symm other)] at h
  cases h

variable (env run)

/-- A pending transaction that settles as successful only with an attested identity. -/
def Bound (tx : UnsettledBlobTransaction) : Prop :=
  ∃ sequencing ∈ run,∃ blobTx,Sequences env sequencing blobTx tx ∧
    ∃ provider ∈ providerOf tx.identity,provider≠"hyle" ∧
    ∃ entry ∈ IndexedBlobs.ofBlobs blobTx.blobs,entry.2.contractName=provider ∧
      (NativelyAttested env sequencing.work.store blobTx entry ∨
        ∃ metadata,tx.blobs[entry.1]?=some metadata ∧ metadata.blob=entry.2 ∧
          ∀ proof ∈ metadata.possibleProofs,proof.2.success=true →
            ProvenBy run tx entry.1 proof)

variable {env run}

/-- The proofs of a blob of the provider come from calls of the run. -/
theorem Bound.pushProof {tx : UnsettledBlobTransaction} (h : Bound env run tx)
    {index : BlobIndex} {proof : ProgramId × HyleOutput}
    (hp : ∀ metadata,tx.blobs[index]?=some metadata →
      some metadata.blob.contractName=providerOf tx.identity → proof.2.success=true →
      ProvenBy run tx index proof) : Bound env run (tx.pushProof index proof) := by
  obtain ⟨sequencing,hs,blobTx,sequences,provider,hprovider,other,entry,he,name,attested⟩ := h
  have hash := tx.hash_pushProof index proof
  have identity := tx.identity_pushProof index proof
  have proven : ∀ {i p},ProvenBy run tx i p → ProvenBy run (tx.pushProof index proof) i p := by
    intro i p hproven
    unfold ProvenBy
    rw [hash,identity]
    exact hproven
  have still : Sequences env sequencing blobTx (tx.pushProof index proof) :=
    ⟨sequences.call,sequences.checked,hash.trans sequences.hash,identity.trans sequences.identity⟩
  rw [← identity] at hprovider
  refine ⟨sequencing,hs,blobTx,still,provider,hprovider,other,entry,he,name,?_⟩
  obtain native|⟨metadata,hm,blob,proofs⟩ := attested
  · exact Or.inl native
  · obtain ⟨next,hnext,same⟩ := @tx.getElem?_of_pushProof index proof _ _ hm
    refine Or.inr ⟨next,hnext,same.trans blob,?_⟩
    intro found hf success
    obtain ⟨old,ho,_,kept|⟨rfl,pushed⟩⟩ := tx.getElem?_pushProof hnext
    · obtain rfl := Option.some.inj (hm.symm.trans ho)
      rw [kept] at hf
      exact proven (proofs found hf success)
    · obtain rfl := Option.some.inj (hm.symm.trans ho)
      rw [pushed,List.mem_append,List.mem_singleton] at hf
      obtain hf|rfl := hf
      · exact proven (proofs found hf success)
      · refine proven (hp metadata hm ?_ success)
        rw [blob,name,← identity]
        exact hprovider.symm

theorem bound_unsettledBlobTransaction {sequencing : Moment} (hm : sequencing∈run)
    {parentDpHash : DataProposalHash} {laneId : LaneId} {tx : BlobTransaction}
    {txContext : TxContext} (hc : sequencing.call=.sequence parentDpHash laneId tx)
    (hs : tx.blobs.length≤UInt64.size)
    (checked : checkBlobTx env sequencing.work.store tx=.ok ())
    (ha : Attestable env sequencing.work.store tx) :
    Bound env run (unsettledBlobTransaction env sequencing.work.store parentDpHash tx
      txContext) := by
  obtain ⟨provider,hprovider,other,entry,he,name,accepts⟩ := ha
  refine ⟨sequencing,hm,tx,⟨⟨_,_,hc⟩,checked,rfl,rfl⟩,provider,hprovider,other,entry,he,name,?_⟩
  have waits := @getElem?_unsettledBlobTransaction env sequencing.work.store parentDpHash tx
    txContext hs entry he
  unfold unsettledBlob at waits
  unfold nativeOutput at accepts
  unfold NativelyAttested nativeOutput
  cases hv : nativeVerifier sequencing.work.store entry.2 with
  | none =>
    simp only [hv] at waits
    exact Or.inr ⟨_,waits rfl,rfl,by simp⟩
  | some verifier =>
    rw [hv] at accepts
    simp only [hv] at waits
    cases success : (Native.verify env (tx.hashed env.sha3) entry.1 tx.blobs entry.2
        verifier).success with
    | true => exact Or.inl ⟨_,rfl,success,accepts _ rfl success⟩
    | false =>
      rw [success] at waits
      refine Or.inr ⟨_,waits rfl,rfl,?_⟩
      intro proof hp succeeded
      obtain rfl := List.mem_singleton.mp hp
      rw [success] at succeeded
      cases succeeded

end Pending

section Runs
variable (env : Environment)

/-- A call of the run that binds the identity, with no more blobs than a vector can hold. -/
def BindingCall (run : List Moment) (hash : TxHash) (moment : Moment) : Prop :=
  moment∈run ∧ moment.BindsIdentity env hash ∧ moment.blobCount≤UInt64.size

theorem vetted_bound (run : List Moment) (hash : TxHash) :
    Vetted env (BindingCall env run hash) fun tx => tx.hash=hash → Bound env run tx where
  sequenced := by
    intro order work parentDpHash laneId tx fits checked same
    obtain ⟨mem,binds,few⟩ := fits
    exact bound_unsettledBlobTransaction mem rfl few checked (binds same checked)
  proven := by
    intro order work proofTxHash entry tx fits ht verified h same
    rw [tx.hash_pushProof] at same
    apply (h same).pushProof
    intro metadata _ _ _
    exact ⟨_,fits.1,proofTxHash,entry,rfl,(work.pending.hash_eq _ tx ht).symm,rfl,rfl,
      identity_of_verifyHyleOutput verified⟩
  forced := by
    intro order work bth settledTx result old tx update fits settled ho retains h forces same
    rw [tx.hash_pushProof] at same
    apply (h same).pushProof
    intro metadata hm provider success
    rw [same] at forces
    rw [← retains.hash,same] at ho
    obtain ⟨outputs,output,nukes,mem,adapts⟩ := forces
    obtain same|⟨failed,state,same⟩ := adapts
    · rw [same] at hm success
      obtain ⟨before,hb,eq⟩ := retains.blobs _ metadata hm
      rw [eq,retains.identity] at provider
      exact absurd provider (fits.2.1 (settledTx,result) settled outputs nukes old ho output mem
        success before hb)
    · rw [same] at success
      rw [failed] at success
      cases success

/-- If the calls of a run bind the identity of a transaction, it is attested by its provider
whenever the transaction settles as successful. -/
theorem identityAttested (signedBlocks : List SignedBlock) (hash : TxHash)
    (hs : ∀ moment ∈ moments env signedBlocks,moment.blobCount≤UInt64.size)
    (h : BindsIdentity env signedBlocks hash) : IdentityAttested env signedBlocks hash := by
  intro moment hm tx result settled same
  let run := moments env signedBlocks
  obtain ⟨bth,rest,_,hr,_⟩ := Moment.settled_eq_some settled
  have bound : Bound env run tx :=
    (((vetted_bound env run hash).moments (fun m hm => ⟨hm,h m hm,hs m hm⟩) moment hm).remove
      hr).1 same
  obtain ⟨sequencing,hseq,blobTx,sequences,provider,hprovider,other,entry,he,name,attested⟩ := bound
  refine ⟨sequencing,hseq,blobTx,sequences,provider,hprovider,entry,he,name,?_⟩
  obtain native|⟨metadata,hmeta,blob,proofs⟩ := attested
  · exact Or.inr native
  · have applied := Moment.applied settled
    have listed : metadata∈tx.blobValues := tx.mem_blobValues.mpr ⟨entry.1,hmeta⟩
    rw [← applied.map_metadata] at listed
    obtain ⟨step,hstep,rfl⟩ := List.mem_map.mp listed
    refine Or.inl ⟨step,hstep,blob,?_⟩
    cases hp : step.proof with
    | none =>
      obtain ⟨_,hyle,_⟩ := applied.of_none hstep hp
      rw [blob,name] at hyle
      exact absurd hyle other
    | some proof =>
      obtain ⟨_,_,used,success,_⟩ := applied.of_proof hstep hp
      exact ⟨proof,rfl,proofs proof used success⟩

end Runs

namespace NativeIdentity

open TwoContracts (block)

/-- Registers the contract of the native verifier. -/
def registerTx : BlobTransaction :=
  ⟨"hyle@hyle",[⟨"hyle",(Borsh.ser (⟨none,none,⟨"sha3_256",utf8 "sha3_256",[0],"sha3_256",none,
    none⟩⟩ : StructuredBlobData RegisterContractAction)).getD []⟩]⟩

def dataDigest : H256 :=
  ByteVec.ofNat 32 0xfd1780a6fc9ee0dab26ceb4b3941ab03e66ccd970d1db91612c66df4515b0a0a

/-- A transaction of Alice with the digest of some data, for any identity. -/
def tx (identity : Identity) : BlobTransaction :=
  ⟨"alice@sha3_256",[⟨"sha3_256",
    (Borsh.ser (⟨identity,[1,2,3],dataDigest.toList⟩ : ShaBlob)).getD []⟩]⟩

def digest (identity : Identity) : H256 :=
  if identity="alice@sha3_256" then
    ByteVec.ofNat 32 0x00fcac97689d97e612dc6210209b848310807819cc5d954261ddf3828df06465
  else ByteVec.ofNat 32 0x6692fceb5d2113d35303ba125685cd439a30167659c7671f6c821295a19b572c

def hash (identity : Identity) : TxHash := Bytes.hex (digest identity).toList

def signedBlock (identity : Identity) : SignedBlock :=
  block [⟨1,.blob registerTx⟩,⟨1,.blob (tx identity)⟩]

def blobsOf (tx : BlobTransaction) : Bytes :=
  tx.blobs.flatMap fun blob => utf8 blob.contractName++blob.data

def blobDigests : List (Bytes × H256) :=
  [([1,2,3],dataDigest),
   (blobsOf registerTx,
    ByteVec.ofNat 32 0x46ae5f3fa6a7bf421137c5c7101879bbd01b1deb0e5ad499ca2ca7cc3bf35c0c),
   (blobsOf (tx "alice@sha3_256"),
    ByteVec.ofNat 32 0x6d7428353fb3cd4dabefaa0f26644e13a290086392b9b8294a7f488c9c084a15),
   (blobsOf (tx "bob@sha3_256"),
    ByteVec.ofNat 32 0x010d15ef5086a2684335bb792181aea548c7966de23b7774c946f099575c2691)]

def txDigests : List (Bytes × H256) :=
  let sha3 := ByteVec.lookup blobDigests
  [(Transaction.preimage sha3 (.blob registerTx),
    ByteVec.ofNat 32 0x2bfd0397738abcb5fb0415c79ab04d5bd43e4a0875539abb6d8f66703184912d),
   (Transaction.preimage sha3 (.blob (tx "alice@sha3_256")),digest "alice@sha3_256"),
   (Transaction.preimage sha3 (.blob (tx "bob@sha3_256")),digest "bob@sha3_256"),
   ((signedBlock "alice@sha3_256").consensusProposal.preimage,
    ByteVec.ofNat 32 0x152058c4aded5c45e6c5b36c46c22faa4172e1829870023dacbcce408221b1c4)]

/-- SHA3-256 at the byte strings that the two blocks lead to. -/
def env : Environment :=
  { TwoContracts.env with sha3 := ByteVec.lookup (blobDigests++txDigests) }

/-- The hashes of the transactions that settle as successful in the block. -/
def settledHashes (identity : Identity) : List TxHash :=
  (moments env [signedBlock identity]).filterMap fun moment =>
    (moment.settled env).map fun settled => settled.1.hash

/-- Whether the call uses a proof, or brings a blob that is attested natively. -/
def attests (moment : Moment) : Bool :=
  (moment.steps env).any (fun step => step.proof.isSome) ||
    match moment.call with
    | .sequence _ _ tx => (IndexedBlobs.ofBlobs tx.blobs).any fun entry =>
        (nativeOutput env moment.work.store tx entry).any fun hyleOutput =>
          hyleOutput.success && hyleOutput.identity=tx.identity
    | _ => false

/-- Both transactions settle. That of Alice binds her identity, and nothing attests that of
Bob. -/
theorem runs_nativeIdentity :
    ((settledHashes "alice@sha3_256").contains (hash "alice@sha3_256") ∧
      (∀ moment∈moments env [signedBlock "alice@sha3_256"],moment.blobCount≤UInt64.size) ∧
      BindsIdentity env [signedBlock "alice@sha3_256"] (hash "alice@sha3_256")) ∧
    (settledHashes "bob@sha3_256").contains (hash "bob@sha3_256") ∧
      (moments env [signedBlock "bob@sha3_256"]).any attests=false := by
  decide +kernel

end NativeIdentity

open NativeIdentity in
theorem identityAttested_alice :
    (settledHashes "alice@sha3_256").contains (hash "alice@sha3_256") ∧
    IdentityAttested env [signedBlock "alice@sha3_256"] (hash "alice@sha3_256") :=
  have ⟨settled,counts,binds⟩ := runs_nativeIdentity.1
  ⟨settled,identityAttested env _ _ counts binds⟩

open NativeIdentity in
/-- The blob that settles the transaction of Alice is for the identity of Bob. -/
theorem not_identityAttested :
    ¬IdentityAttested env [signedBlock "bob@sha3_256"] (hash "bob@sha3_256") := by
  intro h
  have listed := List.contains_iff_mem.mp runs_nativeIdentity.2.1
  obtain ⟨moment,hm,hash⟩ := List.mem_filterMap.mp listed
  obtain ⟨⟨tx,result⟩,settled,hash⟩ := Option.map_eq_some_iff.mp hash
  have none := List.any_eq_false.mp runs_nativeIdentity.2.2
  obtain ⟨sequencing,hs,blobTx,sequences,provider,_,entry,he,_,attested⟩ :=
    h moment hm tx result settled hash
  obtain ⟨step,hstep,_,proof,used,_⟩|⟨hyleOutput,found,success,identity⟩ := attested
  · refine none moment hm ?_
    have some : (moment.steps env).any (fun step => step.proof.isSome)=true :=
      List.any_eq_true.mpr ⟨step,hstep,by simp [used]⟩
    simp [attests,some]
  · obtain ⟨parentDpHash,laneId,call⟩ := sequences.call
    refine none sequencing hs ?_
    have native : (nativeOutput env sequencing.work.store blobTx entry).any (fun hyleOutput =>
        hyleOutput.success && hyleOutput.identity=blobTx.identity)=true := by
      rw [Option.mem_def.mp found]
      simp [success,identity]
    have some : (IndexedBlobs.ofBlobs blobTx.blobs).any (fun entry =>
        (nativeOutput env sequencing.work.store blobTx entry).any fun hyleOutput =>
          hyleOutput.success && hyleOutput.identity=blobTx.identity)=true :=
      List.any_eq_true.mpr ⟨entry,he,native⟩
    simp [attests,call,some]

end TruthSeeker.NodeState
