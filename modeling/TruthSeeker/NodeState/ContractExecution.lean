import TruthSeeker.Hyllar.Conservation
import TruthSeeker.NodeState.BlobCoverage
import TruthSeeker.NodeState.ContractHistory

namespace TruthSeeker.Sdk.ZkContract

open Borsh

variable {Contract : Type} (Z : ZkContract Contract) (quote : String → String)

def call (self : Contract) (calldata : Calldata) : Contract := (Z.execute self calldata).2

/-- The call succeeds with this output, for a contract that is committed to as a whole. -/
def Outputs (self : Contract) (calldata : Calldata) (output : HyleOutput) : Prop :=
  ∃ out,(Z.execute self calldata).1=.ok out ∧ out.2.1.calleesBlobs=[] ∧
    output=asHyleOutput quote (Z.commit self) (Z.commit (Z.call self calldata)) calldata (.ok out)

/-- Every call succeeds in the state that the earlier ones leave. -/
def Succeeds (self : Contract) : List Calldata → Prop
  | [] => True
  | calldata::rest =>
      (∃ out,(Z.execute self calldata).1=.ok out) ∧ Succeeds (Z.call self calldata) rest

/-- The states of the circuit over a batch. -/
def states (self : Contract) : List Calldata → List Contract
  | [] => [self]
  | calldata::rest => self::states (Z.settled self calldata) rest

/-- The states of the circuit in the proofs of some batches. -/
def proverStates [Borsh Contract] (proofs : List (Bytes × List Calldata)) : List Contract :=
  proofs.flatMap fun proof =>
    ((fromSlice Contract proof.1).map fun self => Z.states self proof.2).getD []

variable {Z quote} {self : Contract} {calldata : Calldata} {batch : List Calldata}
  {output : HyleOutput}

theorem mem_states_self (self : Contract) (batch : List Calldata) : self ∈ Z.states self batch := by
  cases batch with
  | nil => exact List.mem_singleton_self self
  | cons calldata rest => exact List.mem_cons_self

theorem settled_of_ok {out : Bytes × ExecutionContext × List OnchainEffect}
    (h : (Z.execute self calldata).1=.ok out) : Z.settled self calldata=Z.call self calldata := by
  rw [settled,h]
  rfl

theorem settled_of_error {fault : Fault} (h : (Z.execute self calldata).1=.error fault) :
    Z.settled self calldata=self := by
  rw [settled,h]

namespace Outputs

theorem initialState (h : Z.Outputs quote self calldata output) :
    output.initialState=Z.commit self := by
  obtain ⟨out,_,_,rfl⟩ := h
  exact asHyleOutput_initialState _ _ _ _ _

theorem nextState (h : Z.Outputs quote self calldata output) :
    output.nextState=Z.commit (Z.call self calldata) := by
  obtain ⟨out,_,consumed,rfl⟩ := h
  exact asHyleOutput_nextState_eq_iff.mpr (Or.inl consumed)

/-- An output tells what its call was for. -/
theorem reports (h : Z.Outputs quote self calldata output) :
    output.identity=calldata.identity ∧ output.txHash=calldata.txHash ∧
      output.index=calldata.index ∧ output.blobs=calldata.blobs ∧ output.txCtx=calldata.txCtx := by
  obtain ⟨⟨programOutput,ctx,effects⟩,_,consumed,rfl⟩ := h
  simp only [asHyleOutput]
  rw [if_neg fun left => left consumed]
  exact ⟨rfl,rfl,rfl,rfl,rfl⟩

end Outputs

/-- A success among the outputs of a batch is that of a call, between states of the circuit. -/
theorem exists_outputs_of_turns {outputs : List HyleOutput}
    (h : Guest.turns Z.fullStateRevert quote self (Z.commit self) batch=.ok outputs)
    (listed : output ∈ outputs) (success : output.success=true) :
    ∃ before ∈ Z.states self batch,∃ calldata,Z.Outputs quote before calldata output ∧
      Z.call before calldata ∈ Z.states self batch := by
  induction batch generalizing self outputs with
  | nil =>
    obtain rfl := Except.ok.inj h
    cases listed
  | cons calldata rest ih =>
    obtain ⟨first,after,next,tail,turned,others,rfl⟩ := Guest.turns_cons.mp h
    obtain ⟨moved,res,caught,same⟩ := Guest.turn_eq_ok.mp turned
    obtain ⟨out,went,rfl⟩|⟨m,failed,rfl⟩ := Outcome.caught_eq_ok.mp caught
    · have settles : Z.settled self calldata=Z.call self calldata := settled_of_ok went
      have succeeded : Guest.successor Z.fullStateRevert self (Z.commit self) calldata=
          (Z.commit (Z.call self calldata),Z.call self calldata) :=
        Guest.successor_of_ok (Z := Z.fullStateRevert) _ went
      rw [succeeded] at moved
      obtain ⟨rfl,rfl⟩ := Prod.mk.inj moved
      rw [states,settles]
      obtain rfl|later := List.mem_cons.mp listed
      · refine ⟨self,List.mem_cons_self,calldata,⟨out,went,?_,same⟩,
          List.mem_cons_of_mem _ (mem_states_self _ _)⟩
        by_contra left
        rw [same] at success
        simp only [asHyleOutput,ne_eq,left,not_false_eq_true,if_true] at success
        cases success
      · obtain ⟨before,hb,made,outputs,hn⟩ := ih others later
        exact ⟨before,List.mem_cons_of_mem _ hb,made,outputs,List.mem_cons_of_mem _ hn⟩
    · have settles : Z.settled self calldata=self := settled_of_error failed
      have restored : Guest.successor Z.fullStateRevert self (Z.commit self) calldata=
          (Z.commit self,self) :=
        Guest.successor_of_error (Z := Z.fullStateRevert) _ failed
      rw [restored] at moved
      obtain ⟨rfl,rfl⟩ := Prod.mk.inj moved
      rw [states,settles]
      obtain rfl|later := List.mem_cons.mp listed
      · rw [same] at success
        cases success
      · obtain ⟨before,hb,made,outputs,hn⟩ := ih others later
        exact ⟨before,List.mem_cons_of_mem _ hb,made,outputs,List.mem_cons_of_mem _ hn⟩

variable [Borsh Contract] {proofs : List (Bytes × List Calldata)}

theorem exists_outputs_of_execute {proof : Bytes × List Calldata} {outputs : List HyleOutput}
    (started : ∀ self,Z.initializeContract self=(.ok (),self)) (hp : proof ∈ proofs)
    (h : Guest.execute Z.fullStateRevert quote proof.1 proof.2=.ok outputs)
    (listed : output ∈ outputs) (success : output.success=true) :
    ∃ before ∈ Z.proverStates proofs,∃ calldata,Z.Outputs quote before calldata output ∧
      Z.call before calldata ∈ Z.proverStates proofs := by
  cases decoded : fromSlice Contract proof.1 with
  | none =>
    simp only [Guest.execute,decoded,Outcome.fromOption,bind,Except.bind] at h
    cases h
  | some self =>
    rw [Guest.execute_started (Z := Z.fullStateRevert) decoded (started self)] at h
    have within : ∀ state ∈ Z.states self proof.2,state ∈ Z.proverStates proofs := by
      intro state hs
      refine List.mem_flatMap.mpr ⟨proof,hp,?_⟩
      rw [decoded]
      exact hs
    obtain ⟨before,hb,calldata,made,hn⟩ := exists_outputs_of_turns h listed success
    exact ⟨before,within before hb,calldata,made,within _ hn⟩

end TruthSeeker.Sdk.ZkContract

namespace TruthSeeker.NodeState

open Sdk OrderedTxMap

/-- The proof that settles a blob of the contract. -/
def ContractEvent.proof? : ContractEvent → Option (ProgramId × HyleOutput)
  | .proved proof _ => some proof
  | _ => none

/-- The event leaves the program of the contract, and the state but for a proof. -/
def ContractEvent.Plain : ContractEvent → Prop
  | .proved _ effects => effects=[]
  | .updatedTimeoutWindow _ => True
  | _ => False

section Events
variable {State : Type} {Z : ZkContract State} {quote : String → String}
  {known : Set State} {programId : ProgramId}

/-- From a contract in the state of a program, the proofs of this program lead to the state after
the calls that they report. -/
theorem state_of_legal (injective : Set.InjOn Z.commit known) {name : ContractName}
    {events : List ContractEvent} {contract : Contract} {state : State}
    (legal : Trace.Legal (ContractEvent.Enabled name) ContractEvent.apply (some contract) events)
    (plain : ∀ event ∈ events,event.Plain) (program : contract.programId=programId)
    (committed : contract.state=Z.commit state) (hs : state ∈ known)
    (proved : ∀ event ∈ events,∀ proof,event.proof?=some proof → proof.1=programId →
      ∃ before ∈ known,∃ calldata,Z.Outputs quote before calldata proof.2 ∧
        Z.call before calldata ∈ known) :
    ∃ calls,List.Forall₂ (fun calldata proof =>
          proof.1=programId ∧ ∃ before,Z.Outputs quote before calldata proof.2) calls
        (events.filterMap ContractEvent.proof?) ∧
      Z.Succeeds state calls ∧
      (events.foldl ContractEvent.apply (some contract)).map Contract.state=
        some (Z.commit (calls.foldl Z.call state)) := by
  induction events generalizing contract state with
  | nil => exact ⟨[],.nil,trivial,congrArg some committed⟩
  | cons event events ih =>
    obtain ⟨enabled,legal⟩ := legal
    have rest := fun event hm => plain event (List.mem_cons_of_mem _ hm)
    have others := fun event hm => proved event (List.mem_cons_of_mem _ hm)
    cases event with
    | proved proof effects =>
      obtain rfl : effects=[] := plain _ List.mem_cons_self
      obtain ⟨current,held,_,starts,ofProgram⟩ := enabled
      obtain rfl := Option.some.inj held
      obtain ⟨before,hb,calldata,made,hn⟩ :=
        proved _ List.mem_cons_self proof rfl (ofProgram.trans program)
      have same : before=state := by
        apply injective hb hs
        rw [← made.initialState,starts,committed]
      subst same
      obtain ⟨calls,reported,succeeds,reached⟩ :=
        ih legal rest program (made.nextState) hn others
      have succeeded : ∃ out,(Z.execute before calldata).1=.ok out := made.imp fun _ out => out.1
      exact ⟨calldata::calls,.cons ⟨ofProgram.trans program,before,made⟩ reported,
        ⟨succeeded,succeeds⟩,reached⟩
    | updatedTimeoutWindow timeoutWindow => exact ih legal rest program committed hs others
    | registered owner fresh => exact (plain _ List.mem_cons_self).elim
    | deleted owner => exact (plain _ List.mem_cons_self).elim
    | updatedProgramId fresh => exact (plain _ List.mem_cons_self).elim

end Events

section Settled
variable (env : Environment) (name : ContractName)

/-- The blobs of the contract that the call settles, with their transaction. -/
def Moment.executions (moment : Moment) : List (UnsettledBlobTransaction × BlobStep) :=
  match moment.settled env with
  | none => []
  | some (tx,_) =>
      ((moment.steps env).filter fun step => step.metadata.blob.contractName=name).map (tx,·)

/-- All settled blobs of the contract, in the order of the settlement. -/
def executions (signedBlocks : List SignedBlock) : List (UnsettledBlobTransaction × BlobStep) :=
  (moments env signedBlocks).flatMap (Moment.executions env name)

/-- The call is one of the blob of the transaction that the step settles. -/
structure SettledCall (calldata : Calldata) (tx : UnsettledBlobTransaction) (step : BlobStep) :
    Prop where
  blob : tx.blobs[calldata.index]?=some step.metadata
  sender : calldata.identity=tx.identity
  hash : calldata.txHash=tx.hash
  context : ∀ txCtx ∈ calldata.txCtx,txCtx=tx.txContext
  blobs : tx.blobsHash.includesAll (BlobsHashes.ofBlobs env.sha3 calldata.blobs)=true

variable {env name}

theorem exists_settled_of_mem {moment : Moment} {execution : UnsettledBlobTransaction × BlobStep}
    (h : execution ∈ moment.executions env name) :
    ∃ result,moment.settled env=some (execution.1,result) ∧ execution.2 ∈ moment.steps env ∧
      execution.2.metadata.blob.contractName=name := by
  unfold Moment.executions at h
  split at h
  · cases h
  · next tx result hs =>
    obtain ⟨step,kept,rfl⟩ := List.mem_map.mp h
    obtain ⟨hstep,own⟩ := List.mem_filter.mp kept
    exact ⟨result,hs,hstep,of_decide_eq_true own⟩

theorem proofs_tldEvents (data : BlobData) :
    (tldEvents name data).filterMap ContractEvent.proof?=[] := by
  unfold tldEvents
  repeat' split
  all_goals rfl

theorem proofs_events (contracts : Contracts) (step : BlobStep) :
    (BlobStep.events contracts name step).filterMap ContractEvent.proof?=
      if step.metadata.blob.contractName=name then step.proof.toList else [] := by
  unfold BlobStep.events
  cases step.proof with
  | none =>
    rw [proofs_tldEvents]
    split_ifs <;> rfl
  | some proof =>
    dsimp only
    split_ifs with own
    · rfl
    · rw [List.filterMap_eq_nil_iff]
      intro event listed
      obtain ⟨effect,_,rfl⟩ := List.mem_map.mp listed
      cases effect <;> rfl

theorem proofs_moment (moment : Moment) :
    (moment.events env name).filterMap ContractEvent.proof?=
      (moment.executions env name).filterMap fun execution => execution.2.proof := by
  unfold Moment.events Moment.executions
  cases hs : moment.settled env with
  | none =>
    have none : moment.steps env=[] := by
      unfold Moment.steps
      rw [hs]
    rw [none]
    rfl
  | some settled =>
    obtain ⟨tx,result⟩ := settled
    dsimp only
    induction moment.steps env with
    | nil => rfl
    | cons step steps ih =>
      rw [List.flatMap_cons,List.filterMap_append,ih,proofs_events,List.filter_cons]
      by_cases own : step.metadata.blob.contractName=name
      · rw [if_pos own,if_pos (by simpa using own)]
        cases hp : step.proof <;> simp [hp]
      · rw [if_neg own,if_neg (by simpa using own)]
        rfl

theorem proofs_history (env : Environment) (name : ContractName)
    (signedBlocks : List SignedBlock) :
    (contractHistory env name signedBlocks).filterMap ContractEvent.proof?=
      (executions env name signedBlocks).filterMap fun execution => execution.2.proof := by
  unfold contractHistory executions
  induction moments env signedBlocks with
  | nil => rfl
  | cons moment rest ih =>
    rw [List.flatMap_cons,List.flatMap_cons,List.filterMap_append,List.filterMap_append,ih,
      proofs_moment]

/-- No transaction of the run forces outputs upon others. -/
def Unforced (carried : TransactionData → Prop) : Prop :=
  ∀ tx,carried (.blob tx) → ∀ blob ∈ tx.blobs,BlobData.parse NukeTxAction blob.data=none

variable {signedBlocks : List SignedBlock}

/-- Without force, a proof that settles a blob of the contract came in a transaction of the run
and has passed the checks, unless it is one of a native verifier. -/
theorem exists_entry (unforced : Unforced (Carried signedBlocks)) (other : name≠"hyle")
    {execution : UnsettledBlobTransaction × BlobStep}
    (listed : execution ∈ executions env name signedBlocks) :
    ∃ proof,execution.2.proof=some proof ∧ proof.2.success=true ∧
      ((∃ verifier : NativeVerifiers,proof.1=verifier.programId) ∨
        ∃ proofTx entry,Carried signedBlocks (.verifiedProof proofTx) ∧
          entry ∈ proofTx.provenBlobs ∧ proof=(entry.programId,entry.hyleOutput) ∧
          execution.1.blobs[entry.hyleOutput.index]?=some execution.2.metadata ∧
          verifyHyleOutput env execution.1 entry.hyleOutput=.ok ()) := by
  obtain ⟨moment,hm,listed⟩ := List.mem_flatMap.mp listed
  obtain ⟨tx,step⟩ := execution
  obtain ⟨result,hs,hstep,named⟩ := exists_settled_of_mem listed
  have applied := Moment.applied hs
  cases hp : step.proof with
  | none => exact absurd (named.symm.trans (applied.of_none hstep hp).2.1) other
  | some proof =>
    obtain ⟨mem,_,possible,success,_⟩ := applied.of_proof hstep hp
    refine ⟨proof,rfl,success,?_⟩
    have free : NukesOnlyToHyle env (Carried signedBlocks) := by
      intro nukeTx victim hn _ _ blob hb nuke parsed
      rw [unforced nukeTx hn blob hb] at parsed
      cases parsed
    have sourced : All (Sourced env (Carried signedBlocks)) moment.work.pending :=
      (Preserved.ofInvariant (invariant_sourced free)).moments
        (fun _ hb _ he => carried_of_mem hb he) moment hm
    obtain ⟨bth,rest,_,hr,_⟩ := Moment.settled_eq_some hs
    obtain ⟨index,hi⟩ := tx.mem_blobValues.mp mem
    have genuine := (sourced.remove hr).1.genuine index step.metadata hi proof possible
    cases genuine with
    | proven proofTx entry carried claimed ofTx ofBlob verified =>
      refine Or.inr ⟨proofTx,entry,carried,claimed,rfl,?_,verified⟩
      rw [ofBlob]
      exact hi
    | native blobTx verifier carried ofTx ofBlob => exact Or.inl ⟨verifier,rfl⟩
    | nuked nukeTx nukeBlob nuke outputs output update carried signed inTx toHyle parsed =>
      rw [unforced nukeTx carried nukeBlob inTx] at parsed
      cases parsed

/-- What the checks of an output say about the call that it reports. -/
theorem settledCall_of_verified {State : Type} {Z : ZkContract State} {quote : String → String}
    {state : State} {calldata : Calldata} {output : HyleOutput} {tx : UnsettledBlobTransaction}
    {step : BlobStep} (h : Z.Outputs quote state calldata output)
    (verified : verifyHyleOutput env tx output=.ok ())
    (blob : tx.blobs[output.index]?=some step.metadata) : SettledCall env calldata tx step := by
  obtain ⟨identity,txHash,index,blobs,txCtx⟩ := h.reports
  have included := includesAll_of_verifyHyleOutput verified
  unfold verifyHyleOutput at verified
  split_ifs at verified with sender hash context
  rw [identity,not_not] at sender
  rw [txHash,not_not] at hash
  rw [txCtx] at context
  rw [index] at blob
  rw [blobs] at included
  refine ⟨blob,sender.symm,hash,?_,included⟩
  intro ctx held
  by_contra apart
  rw [Option.mem_def.mp held] at context
  exact context (decide_eq_true apart)

end Settled

section Lists
variable {α β γ : Type} {f : α → Option β} {as : List α}

theorem filterMap_drop_of_isSome (h : ∀ a ∈ as,∃ b,f a=some b) (n : Nat) :
    (as.drop n).filterMap f=(as.filterMap f).drop n := by
  induction as generalizing n with
  | nil => simp
  | cons a as ih =>
    obtain ⟨b,hb⟩ := h a List.mem_cons_self
    rw [List.filterMap_cons_some hb]
    cases n with
    | zero => rw [List.drop_zero,List.drop_zero,List.filterMap_cons_some hb]
    | succ n => exact ih (fun a ha => h a (List.mem_cons_of_mem _ ha)) n

theorem forall₂_of_filterMap {R : γ → β → Prop} {Q : γ → α → Prop} {cs : List γ}
    (h : ∀ a ∈ as,∃ b,f a=some b ∧ ∀ c,R c b → Q c a)
    (hf : List.Forall₂ R cs (as.filterMap f)) : List.Forall₂ Q cs as := by
  induction as generalizing cs with
  | nil =>
    cases hf
    exact .nil
  | cons a as ih =>
    obtain ⟨b,hb,leads⟩ := h a List.mem_cons_self
    rw [List.filterMap_cons_some hb] at hf
    cases hf with
    | cons related rest =>
      exact .cons (leads _ related) (ih (fun a ha => h a (List.mem_cons_of_mem _ ha)) rest)

end Lists

section Runs
variable {State : Type} [Borsh State]

/-- The proofs of a program in the blocks are proofs of its circuit, for some batches. -/
def Vouched (Z : ZkContract State) (quote : String → String) (proofs : List (Bytes × List Calldata))
    (programId : ProgramId) (carried : TransactionData → Prop) : Prop :=
  ∀ proofTx,carried (.verifiedProof proofTx) →
    ∀ entry ∈ proofTx.provenBlobs,entry.programId=programId →
      ∃ proof ∈ proofs,∃ outputs,
        Guest.execute Z.fullStateRevert quote proof.1 proof.2=.ok outputs ∧
          entry.hyleOutput ∈ outputs

/-- From its last registration on, a contract has the state that its program leaves after the
calls of the blobs that are settled for it, one by one in the order of the settlement. -/
theorem state_eq_commit_calls (env : Environment) (name : ContractName)
    (signedBlocks : List SignedBlock) (Z : ZkContract State) (quote : String → String)
    (proofs : List (Bytes × List Calldata)) (genesis : State) (owner : ContractName)
    (contract : Contract) (before after : List ContractEvent) (other : name≠"hyle")
    (started : ∀ self,Z.initializeContract self=(.ok (),self))
    (unforced : Unforced (Carried signedBlocks))
    (foreign : ∀ verifier : NativeVerifiers,verifier.programId≠contract.programId)
    (vouched : Vouched Z quote proofs contract.programId (Carried signedBlocks))
    (injective : Set.InjOn Z.commit {state | state=genesis ∨ state ∈ Z.proverStates proofs})
    (history : contractHistory env name signedBlocks=before++.registered owner contract::after)
    (committed : contract.state=Z.commit genesis) (plain : ∀ event ∈ after,event.Plain) :
    ∃ calls,Z.Succeeds genesis calls ∧
      List.Forall₂ (fun calldata execution => SettledCall env calldata execution.1 execution.2) calls
        ((executions env name signedBlocks).drop
          (before.filterMap ContractEvent.proof?).length) ∧
      ((handleSignedBlocks env NodeStateStore.default signedBlocks).contracts[name]?).map
        Contract.state=some (Z.commit (calls.foldl Z.call genesis)) := by
  obtain ⟨_,_,explained⟩ := (maintained_explains env name).run
    ⟨fun _ _ h => h,fun _ _ _ h => h⟩ (fun _ _ _ _ h => h)
    (fun _ => ⟨wellNamed_default,.nil _⟩) signedBlocks
  have legal : Trace.Legal (ContractEvent.Enabled name) ContractEvent.apply
      NodeStateStore.default.contracts[name]? (contractHistory env name signedBlocks) :=
    explained.2
  have reached : (contractHistory env name signedBlocks).foldl ContractEvent.apply
      NodeStateStore.default.contracts[name]?=
        (handleSignedBlocks env NodeStateStore.default signedBlocks).contracts[name]? :=
    explained.1
  have listed := proofs_history env name signedBlocks
  rw [history] at legal reached listed
  rw [List.filterMap_append,List.filterMap_cons_none rfl] at listed
  have proved : ∀ proof ∈ (executions env name signedBlocks).filterMap
      fun execution => execution.2.proof,proof.1=contract.programId →
      ∃ state ∈ {state | state=genesis ∨ state ∈ Z.proverStates proofs},∃ calldata,
        Z.Outputs quote state calldata proof.2 ∧
          Z.call state calldata ∈ {state | state=genesis ∨ state ∈ Z.proverStates proofs} := by
    intro proof hp ofProgram
    obtain ⟨execution,he,found⟩ := List.mem_filterMap.mp hp
    obtain ⟨same,hs,success,native|⟨proofTx,entry,carried,claimed,rfl,_,_⟩⟩ :=
      exists_entry unforced other he
    · obtain rfl := Option.some.inj (hs.symm.trans found)
      obtain ⟨verifier,hv⟩ := native
      exact absurd (hv.symm.trans ofProgram) (foreign verifier)
    · obtain rfl := Option.some.inj (hs.symm.trans found)
      obtain ⟨proof,hp,outputs,ran,mem⟩ := vouched proofTx carried entry claimed ofProgram
      obtain ⟨state,hb,calldata,made,hn⟩ :=
        ZkContract.exists_outputs_of_execute started hp ran mem success
      exact ⟨state,Or.inr hb,calldata,made,Or.inr hn⟩
  obtain ⟨calls,reported,succeeds,last⟩ :=
    state_of_legal injective (Trace.legal_append.mp legal).2.2 plain rfl committed (Or.inl rfl)
      fun event he proof hp => proved proof (by
        rw [← listed]
        exact List.mem_append_right _ (List.mem_filterMap.mpr ⟨event,he,hp⟩))
  refine ⟨calls,succeeds,?_,?_⟩
  · have all : ∀ execution ∈ executions env name signedBlocks,∃ proof,
        execution.2.proof=some proof := by
      intro execution he
      obtain ⟨proof,hp,_⟩ := exists_entry unforced other he
      exact ⟨proof,hp⟩
    have later : after.filterMap ContractEvent.proof?=
        ((executions env name signedBlocks).drop
          (before.filterMap ContractEvent.proof?).length).filterMap
            fun execution => execution.2.proof := by
      rw [filterMap_drop_of_isSome all,← listed,List.drop_left]
    rw [later] at reported
    refine forall₂_of_filterMap ?_ reported
    intro execution he
    obtain ⟨proof,hp,_,native|⟨proofTx,entry,_,_,rfl,blob,verified⟩⟩ :=
      exists_entry unforced other (List.mem_of_mem_drop he)
    · refine ⟨proof,hp,?_⟩
      intro calldata made
      obtain ⟨verifier,hv⟩ := native
      exact absurd (hv.symm.trans made.1) (foreign verifier)
    · refine ⟨_,hp,?_⟩
      intro calldata made
      obtain ⟨_,state,made⟩ := made
      exact settledCall_of_verified made verified blob
  · rw [← reached,List.foldl_append]
    exact last

end Runs

/-- The state of the token on the chain is that of a run of the token, each call of which succeeds:
its balances add up to the supply, and no spender has moved more than was last approved. -/
theorem hyllar_on_chain (env : Environment) (name : ContractName)
    (signedBlocks : List SignedBlock) (sha256 : Bytes → H256) (quote : String → String)
    (proofs : List (Bytes × List Calldata)) (faucetId : String) (owner : ContractName)
    (contract : Contract) (before after : List ContractEvent) (other : name≠"hyle")
    (unforced : Unforced (Carried signedBlocks))
    (foreign : ∀ verifier : NativeVerifiers,verifier.programId≠contract.programId)
    (vouched : Vouched (hyllar sha256) quote proofs contract.programId (Carried signedBlocks))
    (injective : Set.InjOn (Hyllar.commit · sha256)
      {token | token=.custom faucetId ∨ token ∈ (hyllar sha256).proverStates proofs})
    (history : contractHistory env name signedBlocks=before++.registered owner contract::after)
    (committed : contract.state=(Hyllar.custom faucetId).commit sha256)
    (plain : ∀ event ∈ after,event.Plain) :
    ∃ calls,(hyllar sha256).Succeeds (.custom faucetId) calls ∧
      List.Forall₂ (fun calldata execution => SettledCall env calldata execution.1 execution.2) calls
        ((executions env name signedBlocks).drop
          (before.filterMap ContractEvent.proof?).length) ∧
      ((handleSignedBlocks env NodeStateStore.default signedBlocks).contracts[name]?).map
        Contract.state=some ((Hyllar.run faucetId calls).commit sha256) ∧
      (Hyllar.run faucetId calls).sumOfBalances=Hyllar.TOTAL_SUPPLY.toNat ∧
      ∀ owner spender,
        (Hyllar.spending owner spender (Hyllar.history faucetId calls)).2+
          (Hyllar.run faucetId calls).remaining owner spender=
            (Hyllar.spending owner spender (Hyllar.history faucetId calls)).1 := by
  obtain ⟨calls,succeeds,settled,reached⟩ :=
    state_eq_commit_calls env name signedBlocks (hyllar sha256)
    quote proofs (.custom faucetId) owner contract before after other (fun _ => rfl) unforced
    foreign vouched injective history committed plain
  obtain ⟨conserved,metered⟩ := Hyllar.run_invariant faucetId calls
  exact ⟨calls,succeeds,settled,reached,
    conserved.balances.trans (congrArg _ conserved.totalSupply),metered⟩

namespace FirstTransfer

open TwoContracts (block proofTx)

def faucetId : String := "faucet@hyllar"

def genesis : Hyllar := .custom faucetId

def action : HyllarAction := .transfer "bob@hyllar" 5

/-- The token after the transfer. -/
def transferred : Hyllar := genesis.move faucetId "bob@hyllar" 5

def stateDigests : List (Bytes × H256) :=
  [(genesis.preimage,
    ByteVec.ofNat 32 0xc2ebf2cc5dc580462257889ae5da41e93e6d0bd5f723bbff11a78a676fa45a8d),
   (transferred.preimage,
    ByteVec.ofNat 32 0xccc5fef04ec0bb9ed958b6c77d04310378f1b24cab000a686005c5d04cf6e138)]

def sha256 : Bytes → H256 := ByteVec.lookup stateDigests

def register : Blob :=
  ⟨"hyle",(Borsh.ser (⟨none,none,⟨"test",[1],genesis.commit sha256,"hyllar",none,none⟩⟩ :
    StructuredBlobData RegisterContractAction)).getD []⟩

def registerTx : BlobTransaction := ⟨"hyle@hyle",[register]⟩

def transfer : Blob :=
  ⟨"hyllar",(Borsh.ser (⟨none,none,action⟩ : StructuredBlobData HyllarAction)).getD []⟩

def transferTx : BlobTransaction := ⟨faucetId,[transfer]⟩

def transferDigest : H256 :=
  ByteVec.ofNat 32 0x3dfdd1a7beb681e0cad26704936a4f4cd5f1adaec22afefaa6e4a392c7b9f531

def calldata : Calldata where
  txHash := Bytes.hex transferDigest.toList
  identity := faucetId
  blobs := [(0,transfer)]
  txBlobCount := 1
  index := 0
  txCtx := none
  privateInput := []

/-- A batch of the one transfer. -/
def proofs : List (Bytes × List Calldata) := [((Borsh.ser genesis).getD [],[calldata])]

def outputs : List HyleOutput :=
  ((hyllar sha256).outputs id genesis [calldata]).toOption.getD []

def entry : BlobProofOutput :=
  ⟨Bytes.hex transferDigest.toList,"",outputs.headD TwoContracts.output,[1]⟩

def signedBlock : SignedBlock :=
  block [⟨1,.blob registerTx⟩,⟨1,.blob transferTx⟩,proofTx "hyllar" entry]

def blobDigests : List (Bytes × H256) :=
  [(register.preimage,
    ByteVec.ofNat 32 0xcf34bc1c8b2c8defaec22b9df561d2f2bd6d9537ed1215583adfc0a5e0a19733),
   (transfer.preimage,
    ByteVec.ofNat 32 0x44ed56244f624073963df51bd75a4a70e9c941c8a066900f15018a0e5ecbf2ae),
   (signedBlock.consensusProposal.preimage,
    ByteVec.ofNat 32 0x152058c4aded5c45e6c5b36c46c22faa4172e1829870023dacbcce408221b1c4)]

def txDigests : List (Bytes × H256) :=
  let sha3 := ByteVec.lookup blobDigests
  [(Transaction.preimage sha3 (.blob registerTx),
    ByteVec.ofNat 32 0xd4f97e083c61103821b4275e0c86aea1866e1e6aab01a5c5ee7e0cdd5dd53176),
   (Transaction.preimage sha3 (.blob transferTx),transferDigest),
   (entry.hyleOutput.preimage sha3,
    ByteVec.ofNat 32 0xc4cdef62328c13636703ae92bad9899cc8190ffc164321c5bb1d06e204cc0549)]

def entryDigests : List (Bytes × H256) :=
  [(entry.preimage (ByteVec.lookup txDigests),
    ByteVec.ofNat 32 0xb7cf008788f7f788b6487927db28f310bf1abd2cefea319dd1e365ab9c806377)]

def proofDigests : List (Bytes × H256) :=
  [(Transaction.preimage (ByteVec.lookup entryDigests) (proofTx "hyllar" entry).transactionData,
    ByteVec.ofNat 32 0x5c85aee4980011edbbe2b117477de247c168f81d4f0b71d82018697d33f5bfaf)]

/-- SHA3-256 at the byte strings that the block leads to. -/
def env : Environment :=
  let digests := blobDigests++txDigests++entryDigests++proofDigests
  { TwoContracts.env with sha3 := ByteVec.lookup digests }

theorem runs_signedBlock :
    contractHistory env "hyllar" [signedBlock]=
      [.registered "hyle" ⟨"hyllar",[1],genesis.commit sha256,"test",TimeoutWindow.default⟩,
        .proved ([1],entry.hyleOutput) []] ∧
    Guest.execute (hyllar sha256).fullStateRevert id (proofs.headD default).1 [calldata]=
      .ok outputs ∧
    entry.hyleOutput ∈ outputs ∧ genesis.commit sha256≠transferred.commit sha256 ∧
    ∀ tx ∈ [registerTx,transferTx],∀ blob ∈ tx.blobs,
      (BlobData.parse NukeTxAction blob.data).isNone := by
  decide +kernel

theorem carried_signedBlock {data : TransactionData} (h : Carried [signedBlock] data) :
    data=.blob registerTx ∨ data=.blob transferTx ∨
      data=(proofTx "hyllar" entry).transactionData := by
  simpa [signedBlock,block,carried_singleton] using h

theorem unforced : Unforced (Carried [signedBlock]) := by
  intro tx carried blob hb
  have listed : tx ∈ [registerTx,transferTx] := by
    obtain same|same|same := carried_signedBlock carried
    · obtain rfl := TransactionData.blob.inj same
      simp
    · obtain rfl := TransactionData.blob.inj same
      simp
    · cases same
  exact Option.isNone_iff_eq_none.mp (runs_signedBlock.2.2.2.2 tx listed blob hb)

theorem foreign (verifier : NativeVerifiers) : verifier.programId≠[1] := by
  cases verifier <;> decide

theorem vouched : Vouched (hyllar sha256) id proofs [1] (Carried [signedBlock]) := by
  intro tx carried other listed _
  obtain same|same|same := carried_signedBlock carried
  · cases same
  · cases same
  · obtain rfl := TransactionData.verifiedProof.inj same
    obtain rfl := List.mem_singleton.mp listed
    exact ⟨_,List.mem_singleton_self _,outputs,runs_signedBlock.2.1,runs_signedBlock.2.2.1⟩

theorem injective : Set.InjOn (Hyllar.commit · sha256)
    {token | token=genesis ∨ token ∈ (hyllar sha256).proverStates proofs} := by
  have written : ∃ bytes,Borsh.ser genesis=some bytes := by
    have some : (Borsh.ser genesis).isSome := by decide +kernel
    exact Option.isSome_iff_exists.mp some
  obtain ⟨bytes,hs⟩ := written
  have moved : (hyllar sha256).settled genesis calldata=transferred := by
    have went : ((hyllar sha256).execute genesis calldata).1=
        .ok (utf8 "Transferred 5 to bob@hyllar",⟨[],faucetId,"hyllar"⟩,[]) := by decide +kernel
    rw [ZkContract.settled_of_ok went]
    rfl
  have within : ∀ token,token=genesis ∨ token ∈ (hyllar sha256).proverStates proofs →
      token=genesis ∨ token=transferred := by
    intro token h
    obtain same|visited := h
    · exact Or.inl same
    · simp only [ZkContract.proverStates,proofs,hs,Option.getD_some,Borsh.fromSlice_ser hs,
        List.flatMap_cons,List.flatMap_nil,List.append_nil,Option.map_some,ZkContract.states,
        moved,List.mem_cons,List.not_mem_nil,or_false] at visited
      exact visited
  have apart := runs_signedBlock.2.2.2.1
  intro token ht token' ht' same
  obtain rfl|rfl := within token ht
  · obtain rfl|rfl := within token' ht'
    · rfl
    · exact absurd same apart
  · obtain rfl|rfl := within token' ht'
    · exact absurd same.symm apart
    · rfl

end FirstTransfer

open FirstTransfer in
/-- The token after the block with its first transfer. -/
theorem state_eq_commit_calls_transferred :
    ∃ calls,(hyllar sha256).Succeeds genesis calls ∧
      List.Forall₂ (fun calldata execution => SettledCall env calldata execution.1 execution.2)
        calls (executions env "hyllar" [signedBlock]) ∧
      ((handleSignedBlocks env NodeStateStore.default [signedBlock]).contracts["hyllar"]?).map
        Contract.state=some ((hyllar sha256).commit (calls.foldl (hyllar sha256).call genesis)) :=
  state_eq_commit_calls env "hyllar" [signedBlock] (hyllar sha256) id proofs genesis "hyle" _ []
    _ (by decide) (fun _ => rfl) unforced foreign vouched injective runs_signedBlock.1 rfl
    (by simp [ContractEvent.Plain])

open FirstTransfer in
theorem hyllar_on_chain_transferred :
    ∃ calls,(hyllar sha256).Succeeds genesis calls ∧
      List.Forall₂ (fun calldata execution => SettledCall env calldata execution.1 execution.2)
        calls (executions env "hyllar" [signedBlock]) ∧
      ((handleSignedBlocks env NodeStateStore.default [signedBlock]).contracts["hyllar"]?).map
        Contract.state=some ((Hyllar.run faucetId calls).commit sha256) ∧
      (Hyllar.run faucetId calls).sumOfBalances=Hyllar.TOTAL_SUPPLY.toNat ∧
      ∀ owner spender,
        (Hyllar.spending owner spender (Hyllar.history faucetId calls)).2+
          (Hyllar.run faucetId calls).remaining owner spender=
            (Hyllar.spending owner spender (Hyllar.history faucetId calls)).1 :=
  hyllar_on_chain env "hyllar" [signedBlock] sha256 id proofs faucetId "hyle" _ [] _ (by decide)
    unforced foreign vouched injective runs_signedBlock.1 rfl (by simp [ContractEvent.Plain])

end TruthSeeker.NodeState
