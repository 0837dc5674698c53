import TruthSeeker.NodeState.ContractNames
import TruthSeeker.NodeState.Vetted

namespace TruthSeeker.NodeState

open OrderedTxMap

section Pending
variable {env : Environment}

/-- Only the identity of the TLD has blobs to `hyle` that need it. -/
def Authorized (tx : UnsettledBlobTransaction) : Prop :=
  ∀ (index : BlobIndex) (metadata : UnsettledBlobMetadata),tx.blobs[index]?=some metadata →
    metadata.blob.contractName="hyle" → HyleTld.isPrivileged metadata.blob.data=true →
    tx.identity=HyleTld.HYLI_TLD_ID

theorem Authorized.pushProof {tx : UnsettledBlobTransaction} (h : Authorized tx)
    (index : BlobIndex) (proof : ProgramId × HyleOutput) :
    Authorized (tx.pushProof index proof) := by
  intro i metadata hm hyle privileged
  obtain ⟨old,ho,hb,_⟩ := tx.getElem?_pushProof hm
  rw [hb] at hyle privileged
  rw [tx.identity_pushProof]
  exact h i old ho hyle privileged

/-- The blobs of a new pending transaction are those of the transaction, at their places. -/
theorem mem_of_unsettledBlobTransaction {store : NodeStateStore}
    {parentDpHash : DataProposalHash} {tx : BlobTransaction} {txContext : TxContext}
    {index : BlobIndex} {metadata : UnsettledBlobMetadata}
    (h : (unsettledBlobTransaction env store parentDpHash tx txContext).blobs[index]?=
      some metadata) : (index,metadata.blob)∈IndexedBlobs.ofBlobs tx.blobs := by
  obtain ⟨⟨i,blob⟩,hb,hu⟩ := List.mem_filterMap.mp (mem_of_getElem?_ofList h)
  unfold unsettledBlob at hu
  split at hu
  · obtain ⟨rfl,rfl⟩ := Prod.mk.inj (Option.some.inj hu)
    exact hb
  · dsimp only at hu
    split_ifs at hu
    obtain ⟨rfl,rfl⟩ := Prod.mk.inj (Option.some.inj hu)
    exact hb

/-- The check of a transaction lets only the identity of the TLD through. -/
theorem authorized_unsettledBlobTransaction {store : NodeStateStore}
    {parentDpHash : DataProposalHash} {tx : BlobTransaction} {txContext : TxContext}
    (hv : HyleTld.validateHyleContractBlobs env tx=.ok ()) :
    Authorized (unsettledBlobTransaction env store parentDpHash tx txContext) := by
  intro index metadata hm hyle privileged
  have valid := Outcome.forM_eq_ok.mp hv _ (mem_of_unsettledBlobTransaction hm)
  unfold HyleTld.validateHyleContractBlob at valid
  rw [if_neg (not_not.mpr hyle),if_pos privileged] at valid
  show tx.identity=HyleTld.HYLI_TLD_ID
  by_contra other
  rw [if_pos other] at valid
  cases valid

theorem vetted_authorized (env : Environment) : Vetted env (fun _ => True) Authorized where
  sequenced _ _ _ _ _ _ checked := authorized_unsettledBlobTransaction (checkBlobTx_eq_ok checked)
  proven _ _ _ _ _ _ _ _ h := h.pushProof _ _
  forced _ _ _ _ _ _ _ _ _ _ _ _ h _ := h.pushProof _ _

theorem authorized_moments {signedBlocks : List SignedBlock} :
    ∀ moment ∈ moments env signedBlocks,All Authorized moment.work.pending :=
  (vetted_authorized env).moments fun _ _ => trivial

end Pending

section Steps
variable {env : Environment} {contracts : Contracts}

/-- Nothing is changed but for a contract that is added under a name not registered before. -/
def AddsOnly (contracts : Contracts) (before after : ContractChanges) : Prop :=
  after=before ∨ ∃ contract fields sideEffects,contracts[contract.name]?=none ∧
    before[contract.name]?=none ∧
    after=before.insert contract.name (some contract,fields,sideEffects)

/-- The transaction has no blob to `hyle` that registers `hyle` anew. -/
def LeavesHyle (tx : UnsettledBlobTransaction) : Prop :=
  ∀ metadata ∈ tx.blobValues,metadata.blob.contractName="hyle" →
    ∀ reg ∈ BlobData.parse RegisterContractAction metadata.blob.data,reg.contractName≠"hyle"

instance (tx : UnsettledBlobTransaction) : Decidable (LeavesHyle tx) :=
  inferInstanceAs (Decidable (∀ metadata ∈ tx.blobValues,_))

theorem addsOnly_handleRegisterBlob {changes next : ContractChanges}
    {reg : RegisterContractAction} (hn : reg.contractName≠"hyle")
    (h : HyleTld.handleRegisterBlob env contracts changes reg=.ok next) :
    AddsOnly contracts changes next := by
  unfold HyleTld.handleRegisterBlob at h
  obtain ⟨_,_,h⟩ := Outcome.bind_eq_ok.mp h
  split_ifs at h with taken
  obtain ⟨absent,fresh⟩ := not_or.mp taken
  have unregistered : ¬contracts.contains reg.contractName := fun known => absent ⟨hn,known⟩
  rw [Std.ExtTreeMap.contains_eq_isSome_getElem?,Option.not_isSome_iff_eq_none]
    at unregistered fresh
  let contract : Contract := ⟨reg.contractName,reg.programId,reg.stateCommitment,reg.verifier,
    reg.timeoutWindow.getD TimeoutWindow.default⟩
  exact Or.inr ⟨contract,_,_,unregistered,fresh,(Except.ok.inj h).symm⟩

/-- Without the identity of the TLD, a blob to `hyle` can only add a contract. -/
theorem addsOnly_handleBlobForHyleTld {changes next : ContractChanges} {blob : Blob}
    (hp : HyleTld.isPrivileged blob.data=false)
    (hn : ∀ reg ∈ BlobData.parse RegisterContractAction blob.data,reg.contractName≠"hyle")
    (h : HyleTld.handleBlobForHyleTld env contracts changes blob=.ok next) :
    AddsOnly contracts changes next := by
  have privileged : ∀ {p q r : Bool},(p || q || r)=false → p=false ∧ q=false ∧ r=false := by
    decide
  obtain ⟨noUpdate,noDelete,noWindow⟩ := privileged hp
  rw [Option.isSome_eq_false_iff,Option.isNone_iff_eq_none] at noUpdate noDelete noWindow
  unfold HyleTld.handleBlobForHyleTld at h
  rw [noUpdate,noDelete,noWindow] at h
  split at h
  · next reg hr => exact addsOnly_handleRegisterBlob (hn reg hr) h
  · dsimp only at h
    split at h
    · exact Or.inl (Except.ok.inj h).symm
    · cases h

theorem AddsOnly.getElem?_eq {before after : ContractChanges} (h : AddsOnly contracts before after)
    {name : ContractName} {contract : Contract} (hc : contracts[name]?=some contract) :
    after[name]?=before[name]? := by
  obtain rfl|⟨added,_,_,absent,_,rfl⟩ := h
  · rfl
  · have apart : compare added.name name≠.eq := by
      intro same
      rw [Std.LawfulEqOrd.eq_of_compare same,hc] at absent
      cases absent
    rw [Std.ExtTreeMap.getElem?_insert,if_neg apart]

/-- What no step changes is as before at the end. -/
theorem Applied.getElem?_eq {changes last : ContractChanges} {blobs : List UnsettledBlobMetadata}
    {steps : List BlobStep} (h : Applied env contracts changes blobs steps last)
    {name : ContractName} (hs : ∀ step ∈ steps,step.after[name]?=step.before[name]?) :
    last[name]?=changes[name]? :=
  h.keeps (I := fun later => later[name]?=changes[name]?) (fun step hm eq => (hs step hm).trans eq) rfl

end Steps

section Runs

/-- The blobs to `hyle` of a settled transaction only add contracts; a registered contract that
changes is changed by the proof of a blob to another contract. -/
structure WithinAuthority (env : Environment) (moment : Moment) : Prop where
  addsOnly : ∀ step ∈ moment.steps env,step.proof=none →
    AddsOnly moment.work.store.contracts step.before step.after
  kept : ∀ (name : ContractName) (contract : Contract),
    moment.work.store.contracts[name]?=some contract →
    (∀ step ∈ moment.steps env,step.proof≠none → step.after[name]?=step.before[name]?) →
    (moment.after env).store.contracts[name]?=some contract

/-- In the run, no settled transaction but those of the TLD exceeds its authority. -/
def TldAuthority (env : Environment) (signedBlocks : List SignedBlock) : Prop :=
  ∀ moment ∈ moments env signedBlocks,∀ tx result,moment.settled env=some (tx,result) →
    tx.identity≠HyleTld.HYLI_TLD_ID → WithinAuthority env moment

/-- No settled transaction of the run registers `hyle` anew, but for those of the TLD. -/
def RunLeavesHyle (env : Environment) (signedBlocks : List SignedBlock) : Prop :=
  ∀ moment ∈ moments env signedBlocks,∀ tx result,moment.settled env=some (tx,result) →
    tx.identity≠HyleTld.HYLI_TLD_ID → LeavesHyle tx

variable {env : Environment}

instance (signedBlocks : List SignedBlock) : Decidable (RunLeavesHyle env signedBlocks) :=
  decidable_of_iff (∀ moment ∈ moments env signedBlocks,∀ entry ∈ moment.settled env,
    entry.1.identity≠HyleTld.HYLI_TLD_ID → LeavesHyle entry.1) (by simp [RunLeavesHyle])

theorem addsOnly_steps {moment : Moment} {tx : UnsettledBlobTransaction}
    {result : SettlementResult} (ha : Authorized tx) (hl : LeavesHyle tx)
    (hs : moment.settled env=some (tx,result)) (hi : tx.identity≠HyleTld.HYLI_TLD_ID) :
    ∀ step ∈ moment.steps env,step.proof=none →
      AddsOnly moment.work.store.contracts step.before step.after := by
  intro step hm hp
  obtain ⟨mem,hyle,handled⟩ := (Moment.applied hs).of_none hm hp
  obtain ⟨index,hindex⟩ := tx.mem_blobValues.mp mem
  have unprivileged : HyleTld.isPrivileged step.metadata.blob.data=false := by
    by_contra privileged
    exact hi (ha index step.metadata hindex hyle (by simpa using privileged))
  exact addsOnly_handleBlobForHyleTld unprivileged (hl step.metadata mem hyle) handled

theorem tldAuthority (env : Environment) (signedBlocks : List SignedBlock)
    (h : RunLeavesHyle env signedBlocks) : TldAuthority env signedBlocks := by
  intro moment hm tx result hs hi
  obtain ⟨bth,rest,_,hr,_⟩ := Moment.settled_eq_some hs
  have authorized : Authorized tx := ((authorized_moments moment hm).remove hr).1
  have adds := addsOnly_steps authorized (h moment hm tx result hs hi) hs hi
  refine ⟨adds,?_⟩
  intro name contract hc others
  have unchanged : ∀ step ∈ moment.steps env,step.after[name]?=step.before[name]? := by
    intro step hstep
    cases hp : step.proof with
    | none => exact (adds step hstep hp).getElem?_eq hc
    | some proof => exact others step hstep (by simp [hp])
  have none : result.contractChanges[name]?=none := by
    rw [(Moment.applied hs).getElem?_eq unchanged]
    exact Std.ExtTreeMap.getElem?_empty
  have named := (wellNamed_applied (wellNamed_moments moment hm) (Moment.applied hs)).1
  rw [contracts_after,hs]
  dsimp only
  rw [getElem?_foldl_toList named.changesNamed,none]
  exact hc

end Runs

namespace Mallory

open TwoContracts (block)

/-- Registers a contract of the name with the program 2 and the state 5. -/
def register (name : ContractName) : Blob :=
  ⟨"hyle",(Borsh.ser (⟨none,none,⟨"test",[2],[5],name,none,none⟩⟩ :
    StructuredBlobData RegisterContractAction)).getD []⟩

def tx (name : ContractName) : BlobTransaction := ⟨"mallory@hyle",[register name]⟩

def digest (name : ContractName) : H256 :=
  if name="hyle" then
    ByteVec.ofNat 32 0xad892bfd29bc42d165c88a4bf140fe0f772aebebc6d4cdfb423cbeaa47db0894
  else ByteVec.ofNat 32 0x27046e52a54568c57969309b49f248267ce48e3cd3d6381815a40fb08769e704

def hash (name : ContractName) : TxHash := Bytes.hex (digest name).toList

def signedBlock (name : ContractName) : SignedBlock := block [⟨1,.blob (tx name)⟩]

def blobDigests : List (Bytes × H256) :=
  [(utf8 "hyle"++(register "hyle").data,
    ByteVec.ofNat 32 0x2e193e35f3fa4c9156d5cc208cc37a57bcc2bdebc12cf3b4ff2c11fe63cb88dc),
   (utf8 "hyle"++(register "foo").data,
    ByteVec.ofNat 32 0x019034fa00c99f0a3c5cfed2397d80ed924ba3c30326212db1b300e2e39125fd)]

def txDigests : List (Bytes × H256) :=
  let sha3 := ByteVec.lookup blobDigests
  [(Transaction.preimage sha3 (.blob (tx "hyle")),digest "hyle"),
   (Transaction.preimage sha3 (.blob (tx "foo")),digest "foo"),
   ((signedBlock "hyle").consensusProposal.preimage,
    ByteVec.ofNat 32 0x152058c4aded5c45e6c5b36c46c22faa4172e1829870023dacbcce408221b1c4)]

/-- SHA3-256 at the byte strings that the two blocks lead to. -/
def env : Environment :=
  { TwoContracts.env with sha3 := ByteVec.lookup (blobDigests++txDigests) }

/-- The programs of `hyle` and of the contract of the name after the block. -/
def programs (name : ContractName) : Option ProgramId × Option ProgramId :=
  let store := handleSignedBlocks env NodeStateStore.default [signedBlock name]
  (store.contracts["hyle"]?.map Contract.programId,store.contracts[name]?.map Contract.programId)

/-- Whether the call settles a transaction that changes `hyle` without any proof. -/
def overwritesHyle (moment : Moment) : Bool :=
  match moment.settled env with
  | none => false
  | some (tx,_) =>
      tx.identity≠HyleTld.HYLI_TLD_ID ∧ (moment.steps env).all (fun step => step.proof.isNone) ∧
        moment.work.store.contracts["hyle"]?=some hyleContractDefinition ∧
        (moment.after env).store.contracts["hyle"]?≠some hyleContractDefinition

/-- A registration of `foo` leaves `hyle` alone, and one of `hyle` replaces it. -/
theorem runs_mallory :
    (programs "foo"=(some [0,0,0,0],some [2]) ∧ RunLeavesHyle env [signedBlock "foo"]) ∧
    (moments env [signedBlock "hyle"]).any overwritesHyle=true := by
  decide +kernel

end Mallory

open Mallory in
theorem tldAuthority_foo : programs "foo"=(some [0,0,0,0],some [2]) ∧
    TldAuthority env [signedBlock "foo"] :=
  ⟨runs_mallory.1.1,tldAuthority env [signedBlock "foo"] runs_mallory.1.2⟩

open Mallory in
/-- Anybody may register `hyle` anew. -/
theorem not_tldAuthority : ¬TldAuthority env [signedBlock "hyle"] := by
  intro h
  obtain ⟨moment,hm,overwrites⟩ := List.any_eq_true.mp runs_mallory.2
  unfold overwritesHyle at overwrites
  split at overwrites
  · cases overwrites
  · next tx result hs =>
    obtain ⟨identity,noProofs,before,after⟩ := of_decide_eq_true overwrites
    have kept := (h moment hm tx result hs identity).kept "hyle" hyleContractDefinition before
    refine after (kept ?_)
    intro step hstep proof
    have noProof := List.all_eq_true.mp noProofs step hstep
    exact absurd (Option.isNone_iff_eq_none.mp noProof) proof

end TruthSeeker.NodeState
