import TruthSeeker.NodeState.BlockDiff
import TruthSeeker.NodeState.Vetted

namespace TruthSeeker

namespace Blob

/-- The blob carries the action that the effect is for. -/
def Declares (self : Blob) : OnchainEffect → Prop
  | .registerContract effect =>
      ∃ reg ∈ BlobData.parse RegisterContractAction self.data,reg.effect=effect
  | .deleteContract contractName =>
      ∃ delete ∈ BlobData.parse DeleteContractAction self.data,delete.contractName=contractName

/-- The output has no effect but one that the blob declares. -/
def DeclaresAll (self : Blob) (hyleOutput : HyleOutput) : Prop :=
  hyleOutput.onchainEffects.length≤1 ∧ ∀ effect ∈ hyleOutput.onchainEffects,self.Declares effect

/-- The number of effects that the blob declares. -/
def declared (self : Blob) : Nat :=
  if (BlobData.parse RegisterContractAction self.data).isSome ||
    (BlobData.parse DeleteContractAction self.data).isSome then 1 else 0

/-- The settlement refuses the output: it registers, and the blob has no such action. -/
def Refuses (self : Blob) (hyleOutput : HyleOutput) : Prop :=
  BlobData.parse RegisterContractAction self.data=none ∧
    ∃ effect ∈ hyleOutput.onchainEffects,match effect with
      | .registerContract _ => True
      | .deleteContract _ => False

variable (self : Blob)

instance : DecidablePred self.Declares
  | .registerContract effect => inferInstanceAs
      (Decidable (∃ reg ∈ BlobData.parse RegisterContractAction self.data,reg.effect=effect))
  | .deleteContract contractName => inferInstanceAs (Decidable
      (∃ delete ∈ BlobData.parse DeleteContractAction self.data,delete.contractName=contractName))

instance : DecidablePred self.DeclaresAll := fun _ => inferInstanceAs (Decidable (_ ∧ _))

instance : DecidablePred self.Refuses := fun hyleOutput =>
  have : DecidablePred fun effect : OnchainEffect => match effect with
      | .registerContract _ => True
      | .deleteContract _ => False := fun effect =>
    match effect with
    | .registerContract _ => inferInstanceAs (Decidable True)
    | .deleteContract _ => inferInstanceAs (Decidable False)
  inferInstanceAs (Decidable (_ ∧ ∃ effect ∈ hyleOutput.onchainEffects,_))

end Blob

namespace NodeState

open OrderedTxMap

section Accepted
variable {env : Environment}

/-- The check of a proof compares the first effect with the action of the blob. -/
theorem declares_head {blob : Blob} {hyleOutput : HyleOutput}
    (h : checkSideEffect blob hyleOutput=.ok ())
    (hl : hyleOutput.onchainEffects.length≤blob.declared) : blob.DeclaresAll hyleOutput := by
  have atMost : blob.declared≤1 := by
    unfold Blob.declared
    split <;> omega
  refine ⟨hl.trans atMost,?_⟩
  intro effect he
  unfold checkSideEffect at h
  unfold Blob.declared at hl
  cases effects : hyleOutput.onchainEffects with
  | nil =>
    rw [effects] at he
    cases he
  | cons first others =>
    rw [effects] at he hl h
    have single : others=[] := by
      rw [List.length_cons] at hl
      apply List.eq_nil_of_length_eq_zero
      split at hl <;> omega
    rw [single,List.mem_singleton] at he
    subst he
    cases hr : BlobData.parse RegisterContractAction blob.data with
    | some reg =>
      rw [hr] at h
      cases effect with
      | registerContract effect =>
        by_cases same : effect=reg.effect
        · exact ⟨reg,hr,same.symm⟩
        · simp [same] at h
      | deleteContract name => simp at h
    | none =>
      cases hd : BlobData.parse DeleteContractAction blob.data with
      | some del =>
        rw [hr,hd] at h
        cases effect with
        | registerContract effect => simp at h
        | deleteContract name =>
          by_cases same : name=del.contractName
          · exact ⟨del,hd,same.symm⟩
          · simp [same] at h
      | none => simp [hr,hd] at hl

theorem checkSideEffect_of_verifyHyleOutput {tx : UnsettledBlobTransaction}
    {hyleOutput : HyleOutput} {metadata : UnsettledBlobMetadata}
    (h : verifyHyleOutput env tx hyleOutput=.ok ())
    (hm : tx.blobs[hyleOutput.index]?=some metadata) :
    checkSideEffect metadata.blob hyleOutput=.ok () := by
  unfold verifyHyleOutput at h
  simp only [hm] at h
  split_ifs at h
  exact h

theorem parse_of_mem {contract : Contract} {blob : Blob} {effects : List OnchainEffect}
    {changes next : ContractChanges}
    (he : effects.foldlM (applyEffect env contract blob) changes=.ok next)
    {effect : RegisterContractEffect} (hm : .registerContract effect∈effects) :
    BlobData.parse RegisterContractAction blob.data≠none := by
  induction effects generalizing changes with
  | nil => cases hm
  | cons first effects ih =>
    rw [List.foldlM_cons] at he
    obtain ⟨mid,hf,hr⟩ := Outcome.bind_eq_ok.mp he
    obtain rfl|tail := List.mem_cons.mp hm
    · intro none
      unfold applyEffect at hf
      obtain ⟨_,_,hf⟩ := Outcome.bind_eq_ok.mp hf
      rw [none] at hf
      cases hf
    · exact ih hr tail

/-- What the settlement refuses is never applied. -/
theorem not_refuses {changes next : ContractChanges} {contracts : Contracts}
    {contractName : ContractName} {proof : ProgramId × HyleOutput} {blob : Blob}
    (h : processProof env contracts changes contractName proof blob=.ok next) :
    ¬blob.Refuses proof.2 := by
  intro refused
  obtain ⟨none,effect,he,registers⟩ := refused
  obtain ⟨_,_,_,_,_,_,effects,_⟩ := processProof_eq_ok h
  cases effect with
  | registerContract effect => exact parse_of_mem effects he none
  | deleteContract name => exact registers

end Accepted

section Runs
variable (env : Environment)

/-- An output that is accepted for a blob has no more effects than the blob declares, unless
it is a failure or the settlement refuses it. -/
def KeepsToAction (blob : Blob) (hyleOutput : HyleOutput) : Prop :=
  hyleOutput.success=true →
    hyleOutput.onchainEffects.length≤blob.declared ∨ blob.Refuses hyleOutput

/-- An output that is forced upon a blob has only effects that the blob declares. -/
def ForcedDeclared (blob : Blob) (hyleOutput : HyleOutput) : Prop :=
  hyleOutput.success=true → blob.DeclaresAll hyleOutput ∨ blob.Refuses hyleOutput

/-- The output of a proof keeps to the action of its blob if it is accepted. -/
def AcceptsDeclared (work : Work) (entry : BlobProofOutput) : Prop :=
  ∀ tx ∈ work.pending.map[entry.blobTxHash]?,verifyHyleOutput env tx entry.hyleOutput=.ok () →
    ∀ metadata ∈ tx.blobs[entry.hyleOutput.index]?,KeepsToAction metadata.blob entry.hyleOutput

/-- The outputs that a settled transaction forces upon pending ones are declared there. -/
def Moment.ForcesDeclared (self : Moment) : Prop :=
  ∀ settled ∈ self.settled env,∀ nuke ∈ (txsToNuke settled.1).toList,
    ∀ tx ∈ self.work.pending.map[nuke.1]?,∀ hyleOutput ∈ nuke.2,
    ∀ metadata ∈ tx.blobs[hyleOutput.index]?,ForcedDeclared metadata.blob hyleOutput

/-- The outputs that the call accepts or forces keep to the actions of their blobs. -/
def Moment.KeepsToActions (self : Moment) : Prop :=
  match self.call with
  | .prove _ entry => AcceptsDeclared env self.work entry
  | _ => self.ForcesDeclared env

/-- All proofs of a pending transaction have only effects that their blobs declare. -/
def DeclaredProofs (tx : UnsettledBlobTransaction) : Prop :=
  ∀ (index : BlobIndex) (metadata : UnsettledBlobMetadata),tx.blobs[index]?=some metadata →
    ∀ proof ∈ metadata.possibleProofs,ForcedDeclared metadata.blob proof.2

/-- Each effect that is applied in the run is declared by its blob, and no other one. -/
def EffectsDeclared (signedBlocks : List SignedBlock) : Prop :=
  ∀ moment ∈ moments env signedBlocks,∀ step ∈ moment.steps env,
    ∀ proof,step.proof=some proof → step.metadata.blob.DeclaresAll proof.2

def RunKeepsToActions (signedBlocks : List SignedBlock) : Prop :=
  ∀ moment ∈ moments env signedBlocks,moment.KeepsToActions env

instance (blob : Blob) : DecidablePred (KeepsToAction blob) :=
  fun _ => inferInstanceAs (Decidable (_ → _))

instance (blob : Blob) : DecidablePred (ForcedDeclared blob) :=
  fun _ => inferInstanceAs (Decidable (_ → _))

instance (work : Work) : DecidablePred (AcceptsDeclared env work) :=
  fun entry => inferInstanceAs (Decidable (∀ tx ∈ work.pending.map[entry.blobTxHash]?,_))

instance : DecidablePred (Moment.ForcesDeclared env) :=
  fun self => inferInstanceAs (Decidable (∀ settled ∈ self.settled env,_))

instance : DecidablePred (Moment.KeepsToActions env)
  | ⟨_,work,.prove _ entry⟩ => inferInstanceAs (Decidable (AcceptsDeclared env work entry))
  | ⟨order,work,.sequence parentDpHash laneId tx⟩ => inferInstanceAs
      (Decidable (Moment.ForcesDeclared env ⟨order,work,.sequence parentDpHash laneId tx⟩))
  | ⟨order,work,.settle bth⟩ =>
      inferInstanceAs (Decidable (Moment.ForcesDeclared env ⟨order,work,.settle bth⟩))
  | ⟨order,work,.timeOut txHash⟩ =>
      inferInstanceAs (Decidable (Moment.ForcesDeclared env ⟨order,work,.timeOut txHash⟩))
  | ⟨order,work,.reschedule hashes⟩ =>
      inferInstanceAs (Decidable (Moment.ForcesDeclared env ⟨order,work,.reschedule hashes⟩))

instance (signedBlocks : List SignedBlock) : Decidable (RunKeepsToActions env signedBlocks) :=
  inferInstanceAs (Decidable (∀ moment ∈ moments env signedBlocks,_))

variable {env}

theorem DeclaredProofs.pushProof {tx : UnsettledBlobTransaction} (h : DeclaredProofs tx)
    {index : BlobIndex} {proof : ProgramId × HyleOutput}
    (hp : ∀ metadata,tx.blobs[index]?=some metadata → ForcedDeclared metadata.blob proof.2) :
    DeclaredProofs (tx.pushProof index proof) := by
  intro i metadata hm found hf
  obtain ⟨old,ho,hb,same|⟨rfl,pushed⟩⟩ := tx.getElem?_pushProof hm
  · rw [same] at hf
    rw [hb]
    exact h i old ho found hf
  · rw [pushed,List.mem_append,List.mem_singleton] at hf
    rw [hb]
    obtain hf|rfl := hf
    · exact h i old ho found hf
    · exact hp old ho

/-- The outputs of native verifiers have no effects. -/
theorem declaredProofs_unsettledBlobTransaction {store : NodeStateStore}
    {parentDpHash : DataProposalHash} {tx : BlobTransaction} {txContext : TxContext} :
    DeclaredProofs (unsettledBlobTransaction env store parentDpHash tx txContext) := by
  intro index metadata hm proof hp
  obtain ⟨⟨i,blob⟩,_,hu⟩ := List.mem_filterMap.mp (mem_of_getElem?_ofList hm)
  unfold unsettledBlob at hu
  split at hu
  · obtain ⟨_,rfl⟩ := Prod.mk.inj (Option.some.inj hu)
    cases hp
  · dsimp only at hu
    split_ifs at hu with failed
    obtain ⟨_,rfl⟩ := Prod.mk.inj (Option.some.inj hu)
    obtain rfl := List.mem_singleton.mp hp
    exact fun success => absurd success failed

theorem vetted_declaredProofs (env : Environment) :
    Vetted env (Moment.KeepsToActions env) DeclaredProofs where
  sequenced _ _ _ _ _ _ _ := declaredProofs_unsettledBlobTransaction
  proven := by
    intro order work proofTxHash entry tx fits ht verified h
    apply h.pushProof
    intro metadata hm success
    obtain few|refused := fits tx ht verified metadata hm success
    · exact Or.inl (declares_head (checkSideEffect_of_verifyHyleOutput verified hm) few)
    · exact Or.inr refused
  forced := by
    intro order work bth settledTx result old tx update fits settled ho retains h forces
    apply h.pushProof
    intro metadata hm success
    obtain ⟨outputs,output,nukes,mem,adapts⟩ := forces
    obtain same|⟨failed,state,same⟩ := adapts
    · rw [same] at hm success ⊢
      obtain ⟨before,hb,eq⟩ := retains.blobs _ metadata hm
      rw [eq]
      rw [retains.hash] at nukes
      have listed := Std.ExtTreeMap.mem_toList_iff_getElem?_eq_some.mpr nukes
      exact fits (settledTx,result) settled (old.hash,outputs) listed old ho output mem before hb
        success
    · rw [same] at success
      rw [failed] at success
      cases success

/-- If all outputs keep to the actions of their blobs, only declared effects are applied. -/
theorem effectsDeclared (env : Environment) (signedBlocks : List SignedBlock)
    (h : RunKeepsToActions env signedBlocks) : EffectsDeclared env signedBlocks := by
  intro moment hm step hs proof hp
  obtain ⟨tx,result,settled⟩ := Moment.exists_settled hs
  obtain ⟨mem,_,used,success,processed⟩ := (Moment.applied settled).of_proof hs hp
  obtain ⟨bth,rest,_,hr,_⟩ := Moment.settled_eq_some settled
  have declared : DeclaredProofs tx :=
    (((vetted_declaredProofs env).moments h moment hm).remove hr).1
  obtain ⟨index,hi⟩ := tx.mem_blobValues.mp mem
  obtain all|refused := declared index step.metadata hi proof used success
  · exact all
  · exact absurd refused (not_refuses processed)

end Runs

namespace Undeclared

open TwoContracts (register block proofTx)

def tx : BlobTransaction := ⟨"bob@foo",[⟨"foo",[]⟩]⟩

def digest : H256 :=
  ByteVec.ofNat 32 0x76a59ebf432f12aca299ccc290436d334194469fcd1ef291aacad51a11471285

def hash : TxHash := Bytes.hex digest.toList

/-- The proof deletes the contract, and the blob carries no action. -/
def entry : BlobProofOutput where
  blobTxHash := hash
  originalProofHash := ""
  hyleOutput := { TwoContracts.output with
    nextState := [5]
    identity := "bob@foo"
    txBlobCount := 1
    txHash := hash
    onchainEffects := [.deleteContract "foo"] }
  programId := [1]

def signedBlock : SignedBlock :=
  block [⟨1,.blob Reregistered.registerTx⟩,⟨1,.blob tx⟩,proofTx "foo" entry]

def blobDigests : List (Bytes × H256) :=
  [(utf8 "hyle"++(register "foo").data,
    ByteVec.ofNat 32 0x54a930b17902efbb70102a504c95620b28f2fea6cb8f112599cd9201233556c6),
   (utf8 "foo",
    ByteVec.ofNat 32 0x76d3bc41c9f588f7fcd0d5bf4718f8f84b1c41b20882703100b9eb9413807c01)]

def txDigests : List (Bytes × H256) :=
  let sha3 := ByteVec.lookup blobDigests
  [(Transaction.preimage sha3 (.blob Reregistered.registerTx),
    ByteVec.ofNat 32 0xabbd0f5166f99b95c0f33127e5fc38c986757f0d9e40d95ffef9ebfedf7d6028),
   (Transaction.preimage sha3 (.blob tx),digest),
   (entry.hyleOutput.preimage sha3,
    ByteVec.ofNat 32 0xf8e5580e1a66d4dbe84d0b63b9a07dd5f75cdfade567e4fa64e5ed65c8b50c16),
   (signedBlock.consensusProposal.preimage,
    ByteVec.ofNat 32 0x152058c4aded5c45e6c5b36c46c22faa4172e1829870023dacbcce408221b1c4)]

def entryDigests : List (Bytes × H256) :=
  [(entry.preimage (ByteVec.lookup txDigests),
    ByteVec.ofNat 32 0x40df9b9b37736cf9a3e2ac7adf947694136724bc0c088aa58d4a565e4b3ff7d1)]

def proofDigests : List (Bytes × H256) :=
  let sha3 := ByteVec.lookup (blobDigests++txDigests++entryDigests)
  [(Transaction.preimage sha3 (proofTx "foo" entry).transactionData,
    ByteVec.ofNat 32 0x28afc90b89928a711b9af3090233aa39594d82ec35634a074f8a648761ea5a0e)]

/-- SHA3-256 at the byte strings that the block leads to. -/
def env : Environment :=
  let digests := blobDigests++txDigests++entryDigests++proofDigests
  { TwoContracts.env with sha3 := ByteVec.lookup digests }

end Undeclared

/-- The effects that are applied in the run of one block, with the blobs. -/
def appliedEffects (env : Environment) (signedBlock : SignedBlock) :
    List (Blob × List OnchainEffect) :=
  ((moments env [signedBlock]).flatMap (Moment.steps env)).filterMap fun step =>
    step.proof.map fun proof => (step.metadata.blob,proof.2.onchainEffects)

/-- The registration declares its effect, the other block applies one that is not declared. -/
theorem appliedEffects_blocks :
    ((appliedEffects Reregistered.env (Reregistered.signedBlock "test")).map Prod.snd=
        [[.registerContract (Reregistered.action "test").effect]] ∧
      RunKeepsToActions Reregistered.env [Reregistered.signedBlock "test"]) ∧
    appliedEffects Undeclared.env Undeclared.signedBlock=
      [(⟨"foo",[]⟩,[.deleteContract "foo"])] := by
  decide +kernel

theorem effectsDeclared_test :
    (appliedEffects Reregistered.env (Reregistered.signedBlock "test")).map Prod.snd=
      [[.registerContract (Reregistered.action "test").effect]] ∧
    EffectsDeclared Reregistered.env [Reregistered.signedBlock "test"] :=
  ⟨appliedEffects_blocks.1.1,effectsDeclared _ _ appliedEffects_blocks.1.2⟩

/-- The contract is deleted by the proof of a blob without any action. -/
theorem not_effectsDeclared : ¬EffectsDeclared Undeclared.env [Undeclared.signedBlock] := by
  intro h
  have listed : (⟨"foo",[]⟩,[.deleteContract "foo"])∈
      appliedEffects Undeclared.env Undeclared.signedBlock := by
    rw [appliedEffects_blocks.2]
    exact List.mem_singleton_self _
  obtain ⟨step,hs,eq⟩ := List.mem_filterMap.mp listed
  obtain ⟨moment,hm,hstep⟩ := List.mem_flatMap.mp hs
  obtain ⟨proof,hp,eq⟩ := Option.map_eq_some_iff.mp eq
  obtain ⟨blob,effects⟩ := Prod.mk.inj eq
  have declared := (h moment hm step hstep proof hp).2 (.deleteContract "foo") (by simp [effects])
  rw [blob] at declared
  obtain ⟨delete,parsed,_⟩ := declared
  cases parsed

end NodeState

end TruthSeeker
