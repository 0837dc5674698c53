import TruthSeeker.NodeState.Histories

namespace TruthSeeker.NodeState

/-- One blob of a transaction that is settled as successful: the proof that is used for it, none
for the contract `hyle`, and the changes before and after it. -/
structure BlobStep where
  metadata : UnsettledBlobMetadata
  proof : Option (ProgramId × HyleOutput)
  before : ContractChanges
  after : ContractChanges

section Steps
variable (env : Environment) (contracts : Contracts)

/-- The step of one blob with the proof at the index. -/
def blobStep (changes : ContractChanges) (metadata : UnsettledBlobMetadata) (index : Nat) :
    BlobStep :=
  let blob := metadata.blob
  if blob.contractName="hyle" then
    let next := HyleTld.handleBlobForHyleTld env contracts changes blob
    ⟨metadata,none,changes,next.toOption.getD changes⟩
  else
    match metadata.possibleProofs[index]? with
    | none => ⟨metadata,none,changes,changes⟩
    | some proof =>
        let next := processProof env contracts changes blob.contractName proof blob
        ⟨metadata,some proof,changes,next.toOption.getD changes⟩

/-- The steps of all blobs, with the indices of the proofs that were used. -/
def blobSteps : ContractChanges → List UnsettledBlobMetadata → List Nat → List BlobStep
  | changes,metadata::blobs,index::indices =>
      let step := blobStep env contracts changes metadata index
      step::blobSteps step.after blobs indices
  | _,_,_ => []

/-- The steps lead through the blobs from the first changes to the last. -/
inductive Applied : ContractChanges → List UnsettledBlobMetadata → List BlobStep →
    ContractChanges → Prop where
  | done (changes : ContractChanges) : Applied changes [] [] changes
  | hyle {changes next last : ContractChanges} {metadata : UnsettledBlobMetadata}
      {blobs : List UnsettledBlobMetadata} {steps : List BlobStep}
      (toHyle : metadata.blob.contractName="hyle")
      (handled : HyleTld.handleBlobForHyleTld env contracts changes metadata.blob=.ok next)
      (rest : Applied next blobs steps last) :
      Applied changes (metadata::blobs) (⟨metadata,none,changes,next⟩::steps) last
  | proven {changes next last : ContractChanges} {metadata : UnsettledBlobMetadata}
      {blobs : List UnsettledBlobMetadata} {steps : List BlobStep} {proof : ProgramId × HyleOutput}
      (other : metadata.blob.contractName≠"hyle") (mem : proof∈metadata.possibleProofs)
      (success : proof.2.success=true)
      (processed : processProof env contracts changes metadata.blob.contractName proof
        metadata.blob=.ok next)
      (rest : Applied next blobs steps last) :
      Applied changes (metadata::blobs) (⟨metadata,some proof,changes,next⟩::steps) last

end Steps

section Settle
variable {env : Environment} {contracts : Contracts}

theorem blobStep_hyle {changes next : ContractChanges} {metadata : UnsettledBlobMetadata}
    {index : Nat} (hc : metadata.blob.contractName="hyle")
    (h : HyleTld.handleBlobForHyleTld env contracts changes metadata.blob=.ok next) :
    blobStep env contracts changes metadata index=⟨metadata,none,changes,next⟩ := by
  simp [blobStep,hc,h,Except.toOption]

theorem blobStep_proven {changes next : ContractChanges} {metadata : UnsettledBlobMetadata}
    {index : Nat} {proof : ProgramId × HyleOutput} (hc : metadata.blob.contractName≠"hyle")
    (hp : metadata.possibleProofs[index]?=some proof)
    (h : processProof env contracts changes metadata.blob.contractName proof metadata.blob=
      .ok next) :
    blobStep env contracts changes metadata index=⟨metadata,some proof,changes,next⟩ := by
  simp [blobStep,hc,hp,h,Except.toOption]

/-- A success comes from a proof that settles, and with which the blobs after it settle. -/
theorem exists_of_tryProofs {carryOn : ContractChanges → Nat → Attempt}
    {changes : ContractChanges} {blob : Blob} {proofs : List (ProgramId × HyleOutput)}
    {start : Nat} {events : List TransactionStateEvent} {result : SettlementResult}
    (h : tryProofs env contracts carryOn changes blob start proofs=(events,some (.ok result))) :
    ∃ offset proof next events,proofs[offset]?=some proof ∧ proof.2.success=true ∧
      processProof env contracts changes blob.contractName proof blob=.ok next ∧
      carryOn next (start+offset)=(events,some (.ok result)) := by
  induction proofs generalizing start events with
  | nil => simp [tryProofs] at h
  | cons proof proofs ih =>
    have later : ∀ events,tryProofs env contracts carryOn changes blob (start+1) proofs=
        (events,some (.ok result)) → ∃ offset found next events,
          (proof::proofs)[offset]?=some found ∧ found.2.success=true ∧
          processProof env contracts changes blob.contractName found blob=.ok next ∧
          carryOn next (start+offset)=(events,some (.ok result)) := by
      intro events ht
      obtain ⟨offset,found,next,events,hf,hs,hp,hc⟩ := ih ht
      have shift : start+1+offset=start+(offset+1) := by omega
      exact ⟨offset+1,found,next,events,hf,hs,hp,shift ▸ hc⟩
    unfold tryProofs at h
    cases hp : processProof env contracts changes blob.contractName proof blob with
    | error msg =>
      simp only [hp] at h
      obtain ⟨_,tail⟩ := Prod.mk.inj h
      exact later _ (Prod.ext rfl tail)
    | ok next =>
      simp only [hp] at h
      by_cases hs : proof.2.success=true
      · rw [if_neg (not_not.mpr hs)] at h
        cases hc : carryOn next start with
        | mk before settled =>
          simp only [hc] at h
          cases settled with
          | none =>
            obtain ⟨_,tail⟩ := Prod.mk.inj h
            exact later _ (Prod.ext rfl tail)
          | some found =>
            obtain ⟨_,same⟩ := Prod.mk.inj h
            refine ⟨0,proof,next,before,rfl,hs,hp,?_⟩
            rw [Nat.add_zero,hc,same]
      · rw [if_pos hs] at h
        simp at h

/-- A success goes through all blobs, with the proofs at the indices that it returns. -/
theorem applied_of_settleBlobsRecursively {changes : ContractChanges}
    {blobs : List UnsettledBlobMetadata} {indices : List Nat}
    {events : List TransactionStateEvent} {result : SettlementResult}
    (h : settleBlobsRecursively env contracts changes blobs indices=
      (events,some (.ok result))) :
    ∃ used,result.blobProofOutputIndices=indices++used ∧
      Applied env contracts changes blobs (blobSteps env contracts changes blobs used)
        result.contractChanges := by
  induction blobs generalizing changes indices events with
  | nil =>
    obtain ⟨_,same⟩ := Prod.mk.inj h
    obtain rfl := Except.ok.inj (Option.some.inj same)
    exact ⟨[],(List.append_nil _).symm,.done changes⟩
  | cons metadata blobs ih =>
    unfold settleBlobsRecursively at h
    split_ifs at h with hc
    · cases hh : HyleTld.handleBlobForHyleTld env contracts changes metadata.blob with
      | error e => simp [hh] at h
      | ok next =>
        simp only [hh] at h
        obtain ⟨used,eq,applied⟩ := ih h
        refine ⟨0::used,by rw [eq,List.append_assoc]; rfl,?_⟩
        unfold blobSteps
        rw [blobStep_hyle hc hh]
        exact .hyle hc hh applied
    · obtain ⟨index,proof,next,_,hm,hs,hp,carried⟩ := exists_of_tryProofs h
      obtain ⟨used,eq,applied⟩ := ih carried
      rw [Nat.zero_add] at eq
      refine ⟨index::used,by rw [eq,List.append_assoc]; rfl,?_⟩
      unfold blobSteps
      rw [blobStep_proven hc hm hp]
      exact .proven hc (List.mem_of_getElem? hm) hs hp applied

end Settle

namespace Moment

variable (env : Environment) (self : Moment)

/-- The transaction that the call settles as successful, and the result. -/
def settled : Option (UnsettledBlobTransaction × SettlementResult) :=
  match self.call with
  | .settle bth =>
      match self.work.pending.remove bth with
      | none => none
      | some (tx,_) =>
          match (tryToSettleBlobTx env self.work.store bth tx).2 with
          | .ok (.ok result) => some (tx,result)
          | _ => none
  | _ => none

/-- The steps of the blobs of the transaction that the call settles as successful. -/
def steps : List BlobStep :=
  match self.settled env with
  | none => []
  | some (tx,result) =>
      blobSteps env self.work.store.contracts ∅ tx.blobValues result.blobProofOutputIndices

variable {env self} {tx : UnsettledBlobTransaction} {result : SettlementResult}

theorem settled_eq_some (h : self.settled env=some (tx,result)) :
    ∃ bth rest,self.call=.settle bth ∧ self.work.pending.remove bth=some (tx,rest) ∧
      (tryToSettleBlobTx env self.work.store bth tx).2=.ok (.ok result) := by
  unfold settled at h
  split at h
  · next bth hc =>
    split at h
    · cases h
    · next found rest hr =>
      split at h
      · next ht =>
        obtain ⟨rfl,rfl⟩ := Prod.mk.inj (Option.some.inj h)
        exact ⟨bth,rest,hc,hr,ht⟩
      · cases h
  · cases h

theorem settled_of_ok {order : List TxHash} {work : Work} {bth : TxHash}
    {rest : OrderedTxMap} (hr : work.pending.remove bth=some (tx,rest))
    (ht : (tryToSettleBlobTx env work.store bth tx).2=.ok (.ok result)) :
    (Moment.mk order work (.settle bth)).settled env=some (tx,result) := by
  simp only [settled,hr,ht]

end Moment

section Success
variable {env : Environment} {store : NodeStateStore} {bth : TxHash}
  {tx : UnsettledBlobTransaction} {result : SettlementResult}

theorem settlement_of_tryToSettleBlobTx
    (h : (tryToSettleBlobTx env store bth tx).2=.ok (.ok result)) :
    ∃ events,settlement env store.contracts tx=(events,some (.ok result)) := by
  unfold tryToSettleBlobTx at h
  split at h
  · simp at h
  · split at h
    · simp at h
    · simp at h
    · next events found hs =>
      split at h
      · obtain rfl := Except.ok.inj (Except.ok.inj h)
        exact ⟨events,hs⟩
      · simp at h

theorem applied_of_tryToSettleBlobTx
    (h : (tryToSettleBlobTx env store bth tx).2=.ok (.ok result)) :
    Applied env store.contracts ∅ tx.blobValues
      (blobSteps env store.contracts ∅ tx.blobValues result.blobProofOutputIndices)
      result.contractChanges := by
  obtain ⟨events,hs⟩ := settlement_of_tryToSettleBlobTx h
  unfold settlement at hs
  split at hs
  · simp at hs
  · obtain ⟨used,eq,applied⟩ := applied_of_settleBlobsRecursively hs
    rw [List.nil_append] at eq
    rwa [eq]

theorem Moment.applied {self : Moment} (h : self.settled env=some (tx,result)) :
    Applied env self.work.store.contracts ∅ tx.blobValues (self.steps env)
      result.contractChanges := by
  obtain ⟨bth,rest,_,_,ht⟩ := settled_eq_some h
  unfold steps
  rw [h]
  exact applied_of_tryToSettleBlobTx ht

/-- Whoever has a step has a settled transaction. -/
theorem Moment.exists_settled {self : Moment} {step : BlobStep} (h : step∈self.steps env) :
    ∃ tx result,self.settled env=some (tx,result) := by
  unfold steps at h
  split at h
  · simp at h
  · next tx result hs => exact ⟨tx,result,hs⟩

end Success

namespace Applied

variable {env : Environment} {contracts : Contracts} {changes last : ContractChanges}
  {blobs : List UnsettledBlobMetadata} {steps : List BlobStep}

/-- An invariant of the changes that each blob keeps. -/
theorem induct {I : ContractChanges → Prop}
    (hh : ∀ changes next,∀ metadata ∈ blobs,metadata.blob.contractName="hyle" →
      HyleTld.handleBlobForHyleTld env contracts changes metadata.blob=.ok next →
      I changes → I next)
    (hp : ∀ changes next,∀ metadata ∈ blobs,∀ proof ∈ metadata.possibleProofs,
      metadata.blob.contractName≠"hyle" →
      processProof env contracts changes metadata.blob.contractName proof metadata.blob=.ok next →
      I changes → I next)
    (h : Applied env contracts changes blobs steps last) (hi : I changes) :
    I last ∧ ∀ step ∈ steps,I step.before ∧ I step.after := by
  induction h with
  | done changes => exact ⟨hi,by simp⟩
  | hyle toHyle handled rest ih =>
    have next := hh _ _ _ List.mem_cons_self toHyle handled hi
    obtain ⟨last,steps⟩ := ih (fun _ _ m hm => hh _ _ m (List.mem_cons_of_mem _ hm))
      (fun _ _ m hm => hp _ _ m (List.mem_cons_of_mem _ hm)) next
    exact ⟨last,List.forall_mem_cons.mpr ⟨⟨hi,next⟩,steps⟩⟩
  | proven other mem success processed rest ih =>
    have next := hp _ _ _ List.mem_cons_self _ mem other processed hi
    obtain ⟨last,steps⟩ := ih (fun _ _ m hm => hh _ _ m (List.mem_cons_of_mem _ hm))
      (fun _ _ m hm => hp _ _ m (List.mem_cons_of_mem _ hm)) next
    exact ⟨last,List.forall_mem_cons.mpr ⟨⟨hi,next⟩,steps⟩⟩

/-- An invariant of the changes that each of the steps keeps. -/
theorem keeps {I : ContractChanges → Prop} (h : Applied env contracts changes blobs steps last)
    (hs : ∀ step ∈ steps,I step.before → I step.after) (hi : I changes) : I last := by
  induction h with
  | done changes => exact hi
  | hyle toHyle handled rest ih =>
    have next := hs _ List.mem_cons_self hi
    exact ih (fun step hm => hs step (List.mem_cons_of_mem _ hm)) next
  | proven other mem success processed rest ih =>
    have next := hs _ List.mem_cons_self hi
    exact ih (fun step hm => hs step (List.mem_cons_of_mem _ hm)) next

/-- A blob with a proof is for another contract than `hyle`, and its proof has settled. -/
theorem of_proof (h : Applied env contracts changes blobs steps last) {step : BlobStep}
    (hs : step∈steps) {proof : ProgramId × HyleOutput} (hp : step.proof=some proof) :
    step.metadata∈blobs ∧ step.metadata.blob.contractName≠"hyle" ∧
      proof∈step.metadata.possibleProofs ∧ proof.2.success=true ∧
      processProof env contracts step.before step.metadata.blob.contractName proof
        step.metadata.blob=.ok step.after := by
  induction h with
  | done changes => simp at hs
  | hyle toHyle handled rest ih =>
    obtain rfl|tail := List.mem_cons.mp hs
    · cases hp
    · obtain ⟨mem,facts⟩ := ih tail
      exact ⟨List.mem_cons_of_mem _ mem,facts⟩
  | proven other mem success processed rest ih =>
    obtain rfl|tail := List.mem_cons.mp hs
    · obtain rfl := Option.some.inj hp
      exact ⟨List.mem_cons_self,other,mem,success,processed⟩
    · obtain ⟨mem,facts⟩ := ih tail
      exact ⟨List.mem_cons_of_mem _ mem,facts⟩

/-- A blob without a proof is for the contract `hyle`. -/
theorem of_none (h : Applied env contracts changes blobs steps last) {step : BlobStep}
    (hs : step∈steps) (hp : step.proof=none) :
    step.metadata∈blobs ∧ step.metadata.blob.contractName="hyle" ∧
      HyleTld.handleBlobForHyleTld env contracts step.before step.metadata.blob=
        .ok step.after := by
  induction h with
  | done changes => simp at hs
  | hyle toHyle handled rest ih =>
    obtain rfl|tail := List.mem_cons.mp hs
    · exact ⟨List.mem_cons_self,toHyle,handled⟩
    · obtain ⟨mem,facts⟩ := ih tail
      exact ⟨List.mem_cons_of_mem _ mem,facts⟩
  | proven other mem success processed rest ih =>
    obtain rfl|tail := List.mem_cons.mp hs
    · cases hp
    · obtain ⟨mem,facts⟩ := ih tail
      exact ⟨List.mem_cons_of_mem _ mem,facts⟩

/-- The steps go through all blobs in order. -/
theorem map_metadata (h : Applied env contracts changes blobs steps last) :
    steps.map BlobStep.metadata=blobs := by
  induction h with
  | done changes => rfl
  | hyle toHyle handled rest ih => rw [List.map_cons,ih]
  | proven other mem success processed rest ih => rw [List.map_cons,ih]

end Applied

end TruthSeeker.NodeState
