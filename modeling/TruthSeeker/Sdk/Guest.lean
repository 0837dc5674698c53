import TruthSeeker.Sdk.Utils

namespace TruthSeeker.Sdk

open Borsh Bytes

/-- What a contract returns for one blob. A panic of the contract is none of these values. -/
abbrev RunResult := Except String (Bytes × ExecutionContext × List OnchainEffect)

/-- A contract as the circuit runs it. -/
structure ZkContract (Contract : Type) where
  execute : Contract → Calldata → Outcome (Bytes × ExecutionContext × List OnchainEffect) × Contract
  commit : Contract → StateCommitment
  initializeContract : Contract → Outcome Unit × Contract

/-- A contract that can be taken back to the state before a failed execution. -/
structure TransactionalZkContract (Contract : Type) extends ZkContract Contract where
  State : Type
  initialState : Contract → State
  revert : Contract → State → Contract
  onSuccess : Contract → StateCommitment × Contract
  commit_revert : ∀ contract changed : Contract,
    commit (revert changed (initialState contract))=commit contract

def fail (calldata : Calldata) (initialStateCommitment : StateCommitment) (message : String) :
    HyleOutput where
  version := 1
  initialState := initialStateCommitment
  nextState := initialStateCommitment
  identity := calldata.identity
  index := calldata.index
  blobs := calldata.blobs
  txBlobCount := calldata.txBlobCount
  success := false
  txHash := calldata.txHash
  stateReads := []
  txCtx := calldata.txCtx
  onchainEffects := []
  programOutputs := utf8 message

section
variable (quote : String → String)

/-- `Debug` of a blob, where `quote` is `Debug` of a string. -/
def debugBlob (blob : Blob) : String :=
  let data := if blob.data.length>20 then hex (blob.data.take 20)++"..." else hex blob.data
  "Blob \x7b contract_name: ContractName("++quote blob.contractName++"), data: BlobData("++data++
    ") \x7d"

def debugBlobs (blobs : List Blob) : String :=
  "["++String.intercalate ", " (blobs.map (debugBlob quote))++"]"

def asHyleOutput (initialStateCommitment nextStateCommitment : StateCommitment)
    (calldata : Calldata) (res : RunResult) : HyleOutput :=
  match res with
  | .ok (programOutput,executionContext,onchainEffects) =>
    if executionContext.calleesBlobs≠[] then
      fail calldata initialStateCommitment
        ("Execution context has not been fully consumed "++
          debugBlobs quote executionContext.calleesBlobs)
    else
      { version := 1
        initialState := initialStateCommitment
        nextState := nextStateCommitment
        identity := calldata.identity
        index := calldata.index
        blobs := calldata.blobs
        txBlobCount := calldata.txBlobCount
        success := true
        txHash := calldata.txHash
        stateReads := []
        txCtx := calldata.txCtx
        onchainEffects := onchainEffects
        programOutputs := programOutput }
  | .error message => fail calldata initialStateCommitment message



end

@[simp] theorem asHyleOutput_error (quote : String → String) (initial next : StateCommitment)
    (calldata : Calldata) (message : String) :
    asHyleOutput quote initial next calldata (.error message)=fail calldata initial message :=
  rfl

@[simp] theorem fail_initialState (calldata : Calldata) (initial : StateCommitment)
    (message : String) : (fail calldata initial message).initialState=initial := rfl

@[simp] theorem fail_nextState (calldata : Calldata) (initial : StateCommitment)
    (message : String) : (fail calldata initial message).nextState=initial := rfl

@[simp] theorem asHyleOutput_initialState (quote : String → String)
    (initial next : StateCommitment) (calldata : Calldata) (res : RunResult) :
    (asHyleOutput quote initial next calldata res).initialState=initial := by
  cases res with
  | error message => rfl
  | ok out =>
    simp only [asHyleOutput]
    split_ifs with h
    · rfl
    · rfl

theorem asHyleOutput_of_failure {quote : String → String} {initial next : StateCommitment}
    {calldata : Calldata} {res : RunResult}
    (h : (asHyleOutput quote initial next calldata res).success=false) :
    (asHyleOutput quote initial next calldata res).nextState=initial := by
  cases res with
  | error message => rfl
  | ok out =>
    simp only [asHyleOutput] at h ⊢
    split_ifs at h ⊢
    rfl

/-- A success with callees that were not consumed is turned into a failure. -/
theorem asHyleOutput_nextState_eq_iff {quote : String → String}
    {initial next : StateCommitment} {calldata : Calldata}
    {out : Bytes × ExecutionContext × List OnchainEffect} :
    (asHyleOutput quote initial next calldata (.ok out)).nextState=next ↔
      out.2.1.calleesBlobs=[] ∨ next=initial := by
  simp only [asHyleOutput]
  split_ifs with h
  · simp [h,eq_comm]
  · simp only [ne_eq,not_not] at h
    simp [h]

/-- The outputs settle one after the other from the given state. -/
def Chained (state : StateCommitment) (outputs : List HyleOutput) : Prop :=
  (∀ output∈outputs.head?,output.initialState=state) ∧
  List.IsChain (fun output next => output.nextState=next.initialState) outputs ∧
  ∀ output∈outputs,output.success=false → output.nextState=output.initialState

instance (state : StateCommitment) (outputs : List HyleOutput) :
    Decidable (Chained state outputs) :=
  inferInstanceAs (Decidable (_ ∧ _ ∧ _))

theorem chained_nil (state : StateCommitment) : Chained state [] := by
  simp [Chained]

theorem chained_cons {state : StateCommitment} {output : HyleOutput}
    {outputs : List HyleOutput} :
    Chained state (output::outputs) ↔ output.initialState=state ∧
      (output.success=false → output.nextState=output.initialState) ∧
      Chained output.nextState outputs := by
  cases outputs with
  | nil => simp [Chained]
  | cons next outputs =>
    simp only [Chained,List.head?_cons,Option.mem_some_iff,forall_eq',List.isChain_cons_cons,
      List.forall_mem_cons]
    constructor
    · intro ⟨hi,⟨hn,hc⟩,hf,hs⟩
      exact ⟨hi,hf,hn.symm,hc,hs⟩
    · intro ⟨hi,hf,hn,hc,hs⟩
      exact ⟨hi,⟨hn.symm,hc⟩,hf,hs⟩

namespace Guest

variable {Contract : Type} (Z : TransactionalZkContract Contract) (quote : String → String)

/-- One turn of the loop: the output, the contract after it and its commitment. -/
def turn (contract : Contract) (initialStateCommitment : StateCommitment)
    (calldata : Calldata) : Outcome (HyleOutput × Contract × StateCommitment) := do
  let initialContract := Z.initialState contract
  let (res,contract) := Z.execute contract calldata
  let res ← Outcome.caught res
  let (nextStateCommitment,contract) := match res with
    | .error _ => (initialStateCommitment,Z.revert contract initialContract)
    | .ok _ => Z.onSuccess contract
  return (asHyleOutput quote initialStateCommitment nextStateCommitment calldata res,
    contract,nextStateCommitment)

def turns (contract : Contract) (initialStateCommitment : StateCommitment) :
    List Calldata → Outcome (List HyleOutput)
  | [] => .ok []
  | calldata::rest => do
    let (output,contract,nextStateCommitment) ← turn Z quote contract initialStateCommitment calldata
    let outputs ← turns contract nextStateCommitment rest
    return output::outputs

/-- The function that the circuit proves: all the calldata on one decoded contract. -/
def execute [Borsh Contract] (commitmentMetadata : Bytes) (calldata : List Calldata) :
    Outcome (List HyleOutput) := do
  let contract ← Outcome.fromOption (fromSlice Contract commitmentMetadata)
    (.panic "Failed to decode commitment metadata")
  let initialStateCommitment := Z.commit contract
  let (initialized,contract) := Z.initializeContract contract
  match ← Outcome.caught initialized with
  | .error e => return calldata.map (fun calldata =>
      asHyleOutput quote initialStateCommitment initialStateCommitment calldata (.error e))
  | .ok _ => turns Z quote contract initialStateCommitment calldata

variable {Z quote}

/-- The commitment that the contract reports after one blob, and the contract then. -/
def successor (Z : TransactionalZkContract Contract) (contract : Contract)
    (commitment : StateCommitment) (calldata : Calldata) : StateCommitment × Contract :=
  match (Z.execute contract calldata).1 with
  | .error _ => (commitment,Z.revert (Z.execute contract calldata).2 (Z.initialState contract))
  | .ok _ => Z.onSuccess (Z.execute contract calldata).2

theorem successor_of_ok {contract : Contract} {calldata : Calldata}
    {out : Bytes × ExecutionContext × List OnchainEffect} (commitment : StateCommitment)
    (h : (Z.execute contract calldata).1=.ok out) :
    successor Z contract commitment calldata=Z.onSuccess (Z.execute contract calldata).2 := by
  rw [successor,h]

theorem successor_of_error {contract : Contract} {calldata : Calldata} {fault : Fault}
    (commitment : StateCommitment) (h : (Z.execute contract calldata).1=.error fault) :
    successor Z contract commitment calldata=
      (commitment,Z.revert (Z.execute contract calldata).2 (Z.initialState contract)) := by
  rw [successor,h]

theorem turn_eq_ok {contract after : Contract} {initial next : StateCommitment}
    {calldata : Calldata} {output : HyleOutput} :
    turn Z quote contract initial calldata=.ok (output,after,next) ↔
      (next,after)=successor Z contract initial calldata ∧
      ∃ res,Outcome.caught (Z.execute contract calldata).1=.ok res ∧
        output=asHyleOutput quote initial next calldata res := by
  simp only [turn,Outcome.bind_eq_ok,Outcome.pure_eq_ok,Prod.mk.injEq,Outcome.caught_eq_ok]
  constructor
  · rintro ⟨res,⟨out,hx,rfl⟩|⟨message,hx,rfl⟩,ho,ha,hn⟩
    · rw [successor_of_ok initial hx]
      refine ⟨Prod.ext hn.symm ha.symm,_,Or.inl ⟨out,hx,rfl⟩,?_⟩
      rw [← ho,← hn]
    · rw [successor_of_error initial hx]
      refine ⟨Prod.ext hn.symm ha.symm,_,Or.inr ⟨message,hx,rfl⟩,?_⟩
      exact ho.symm
  · rintro ⟨hs,res,⟨out,hx,rfl⟩|⟨message,hx,rfl⟩,ho⟩
    · rw [successor_of_ok initial hx] at hs
      refine ⟨_,Or.inl ⟨out,hx,rfl⟩,?_,(congrArg Prod.snd hs).symm,(congrArg Prod.fst hs).symm⟩
      have hn : (Z.onSuccess (Z.execute contract calldata).2).1=next := (congrArg Prod.fst hs).symm
      rw [ho]
      exact congrArg (fun next => asHyleOutput quote initial next calldata (.ok out)) hn
    · rw [successor_of_error initial hx] at hs
      refine ⟨_,Or.inr ⟨message,hx,rfl⟩,?_,(congrArg Prod.snd hs).symm,(congrArg Prod.fst hs).symm⟩
      exact ho.symm

theorem turn_of_ok {contract changed : Contract} {initial : StateCommitment}
    {calldata : Calldata} {out : Bytes × ExecutionContext × List OnchainEffect}
    (h : Z.execute contract calldata=(.ok out,changed)) :
    turn Z quote contract initial calldata=
      .ok (asHyleOutput quote initial (Z.onSuccess changed).1 calldata (.ok out),
        (Z.onSuccess changed).2,(Z.onSuccess changed).1) := by
  simp only [turn,h,Outcome.caught,bind,Except.bind]
  rfl

theorem turn_of_err {contract changed : Contract} {initial : StateCommitment}
    {calldata : Calldata} {m : String}
    (h : Z.execute contract calldata=(.error (.err m),changed)) :
    turn Z quote contract initial calldata=
      .ok (fail calldata initial m,Z.revert changed (Z.initialState contract),initial) := by
  simp only [turn,h,Outcome.caught,bind,Except.bind]
  rfl

theorem turn_of_panic {contract changed : Contract} {initial : StateCommitment}
    {calldata : Calldata} {m : String}
    (h : Z.execute contract calldata=(.error (.panic m),changed)) :
    turn Z quote contract initial calldata=Outcome.panic m := by
  simp only [turn,h,Outcome.caught,bind,Except.bind]
  rfl

/-- Callees left over by a success are reported as a failure, so the commitment must
not have moved. -/
def InStep (Z : TransactionalZkContract Contract) (contract : Contract)
    (commitment : StateCommitment) (calldata : Calldata) : Prop :=
  ∀ out,(Z.execute contract calldata).1=.ok out → out.2.1.calleesBlobs=[] ∨
    (successor Z contract commitment calldata).1=commitment

/-- Every blob but the last one is in step. -/
def Paced (Z : TransactionalZkContract Contract) (contract : Contract)
    (commitment : StateCommitment) : List Calldata → Prop
  | [] => True
  | calldata::rest => (rest≠[] → InStep Z contract commitment calldata) ∧
      Paced Z (successor Z contract commitment calldata).2
        (successor Z contract commitment calldata).1 rest

theorem turn_nextState_eq_iff {contract after : Contract} {initial next : StateCommitment}
    {calldata : Calldata} {output : HyleOutput}
    (h : turn Z quote contract initial calldata=.ok (output,after,next)) :
    output.nextState=next ↔ InStep Z contract initial calldata := by
  obtain ⟨hs,res,hr,rfl⟩ := turn_eq_ok.mp h
  have hn : next=(successor Z contract initial calldata).1 := congrArg Prod.fst hs
  rcases Outcome.caught_eq_ok.mp hr with ⟨out,hx,rfl⟩ | ⟨message,hx,rfl⟩
  · rw [asHyleOutput_nextState_eq_iff,hn]
    constructor
    · intro hc other ho
      rw [hx] at ho
      obtain rfl := Except.ok.inj ho
      exact hc
    · intro hc
      exact hc out hx
  · have hi : next=initial := by
      rw [hn,successor]
      rcases hp : Z.execute contract calldata with ⟨res,changed⟩
      rw [hp] at hx
      obtain rfl : res=_ := hx
      rfl
    constructor
    · intro _ out ho
      rw [hx] at ho
      cases ho
    · intro _
      rw [asHyleOutput_error,fail_nextState,hi]

/-- Every turn settles on the state that it starts from. -/
theorem turn_settles {contract after : Contract} {initial next : StateCommitment}
    {calldata : Calldata} {output : HyleOutput}
    (h : turn Z quote contract initial calldata=.ok (output,after,next)) :
    output.initialState=initial ∧
      (output.success=false → output.nextState=output.initialState) := by
  obtain ⟨_,res,_,rfl⟩ := turn_eq_ok.mp h
  refine ⟨asHyleOutput_initialState _ _ _ _ _,?_⟩
  intro hf
  rw [asHyleOutput_initialState]
  exact asHyleOutput_of_failure hf

theorem turns_cons {contract : Contract} {initial : StateCommitment} {calldata : Calldata}
    {rest : List Calldata} {outputs : List HyleOutput} :
    turns Z quote contract initial (calldata::rest)=.ok outputs ↔
      ∃ output after next tail,turn Z quote contract initial calldata=.ok (output,after,next) ∧
        turns Z quote after next rest=.ok tail ∧ outputs=output::tail := by
  simp only [turns,Outcome.bind_eq_ok,Outcome.pure_eq_ok]
  constructor
  · intro h
    obtain ⟨⟨output,after,next⟩,ht,tail,hr,ho⟩ := h
    exact ⟨output,after,next,tail,ht,hr,ho.symm⟩
  · intro h
    obtain ⟨output,after,next,tail,ht,hr,ho⟩ := h
    exact ⟨(output,after,next),ht,tail,hr,ho.symm⟩

/-- The first output of a nonempty run starts at the state of the run. -/
theorem chained_state {contract : Contract} {initial state : StateCommitment}
    {calldata : List Calldata} {outputs : List HyleOutput}
    (h : turns Z quote contract initial calldata=.ok outputs) (hne : calldata≠[])
    (hc : Chained state outputs) : state=initial := by
  cases calldata with
  | nil => exact absurd rfl hne
  | cons calldata rest =>
    obtain ⟨output,after,next,tail,ht,_,rfl⟩ := turns_cons.mp h
    rw [← (chained_cons.mp hc).1]
    exact (turn_settles ht).1

theorem turns_nil {contract : Contract} {initial : StateCommitment} {outputs : List HyleOutput} :
    turns Z quote contract initial []=.ok outputs ↔ outputs=[] := by
  simp [turns,eq_comm]

theorem turns_chained_iff {contract : Contract} {initial : StateCommitment}
    {calldata : List Calldata} {outputs : List HyleOutput}
    (h : turns Z quote contract initial calldata=.ok outputs) :
    Chained initial outputs ↔ Paced Z contract initial calldata := by
  induction calldata generalizing contract initial outputs with
  | nil =>
    obtain rfl := turns_nil.mp h
    exact ⟨fun _ => trivial,fun _ => chained_nil initial⟩
  | cons calldata rest ih =>
    obtain ⟨output,after,next,tail,ht,hr,rfl⟩ := turns_cons.mp h
    have hs := (turn_eq_ok.mp ht).1
    have settles := turn_settles ht
    have tails := ih hr
    rw [chained_cons,Paced,← hs,← tails]
    constructor
    · intro ⟨_,_,hc⟩
      by_cases hne : rest=[]
      · subst hne
        obtain rfl := turns_nil.mp hr
        exact ⟨fun h => absurd rfl h,chained_nil next⟩
      · have hn := chained_state hr hne hc
        rw [hn] at hc
        exact ⟨fun _ => (turn_nextState_eq_iff ht).mp hn,hc⟩
    · intro ⟨hp,hc⟩
      refine ⟨settles.1,settles.2,?_⟩
      by_cases hne : rest=[]
      · subst hne
        obtain rfl := turns_nil.mp hr
        exact chained_nil _
      · rw [(turn_nextState_eq_iff ht).mpr (hp hne)]
        exact hc

/-- A contract that starts without a check runs through the calldata. -/
theorem execute_started [Borsh Contract] {commitmentMetadata : Bytes} {contract : Contract}
    (hm : fromSlice Contract commitmentMetadata=some contract)
    (hs : Z.initializeContract contract=(.ok (),contract)) (calldata : List Calldata) :
    execute Z quote commitmentMetadata calldata=
      turns Z quote contract (Z.commit contract) calldata := by
  simp only [execute,hm,Outcome.fromOption,hs,Outcome.caught,bind,Except.bind]

theorem turns_single {contract : Contract} {initial : StateCommitment} {calldata : Calldata}
    {output : HyleOutput} :
    turns Z quote contract initial [calldata]=.ok [output] ↔
      ∃ after next,turn Z quote contract initial calldata=.ok (output,after,next) := by
  rw [turns_cons]
  constructor
  · intro ⟨_,after,next,tail,ht,_,ho⟩
    obtain ⟨rfl,_⟩ := List.cons.inj ho
    exact ⟨after,next,ht⟩
  · intro ⟨after,next,ht⟩
    exact ⟨output,after,next,[],ht,turns_nil.mpr rfl,rfl⟩

/-- All the outputs of a contract that refuses to start fail on its first state. -/
theorem chained_refused (state : StateCommitment) (message : String)
    (calldata : List Calldata) : Chained state (calldata.map (fun calldata =>
      asHyleOutput quote state state calldata (.error message))) := by
  induction calldata with
  | nil => exact chained_nil state
  | cons calldata rest ih =>
    rw [List.map_cons,chained_cons]
    exact ⟨rfl,fun _ => rfl,ih⟩

/-- The outputs of a proof chain from the committed state exactly when the contract
refuses to start, or when no blob but the last one leaves callees over while it moves
the commitment. -/
theorem execute_chained_iff [Borsh Contract] {commitmentMetadata : Bytes} {contract : Contract}
    {calldata : List Calldata} {outputs : List HyleOutput}
    (hm : fromSlice Contract commitmentMetadata=some contract)
    (h : execute Z quote commitmentMetadata calldata=.ok outputs) :
    Chained (Z.commit contract) outputs ↔
      ((Z.initializeContract contract).1=.ok () →
        Paced Z (Z.initializeContract contract).2 (Z.commit contract) calldata) := by
  simp only [execute,hm,Outcome.fromOption,Outcome.bind_eq_ok,Except.ok.injEq,
    exists_eq_left'] at h
  obtain ⟨started,hs,hr⟩ := h
  rcases Outcome.caught_eq_ok.mp hs with ⟨_,hi,rfl⟩ | ⟨message,hi,rfl⟩
  · rw [turns_chained_iff hr]
    exact ⟨fun hp _ => hp,fun hp => hp hi⟩
  · obtain rfl := Except.ok.inj hr
    constructor
    · intro _ hok
      rw [hi] at hok
      cases hok
    · intro _
      exact chained_refused _ message calldata

section Merged
variable (Z quote) [Borsh Contract]

/-- The outputs of one proof for each calldata. -/
def alone : List (Bytes × Calldata) → Outcome (List HyleOutput)
  | [] => .ok []
  | (commitmentMetadata,calldata)::rest => do
    let outputs ← execute Z quote commitmentMetadata [calldata]
    let others ← alone rest
    return outputs++others

/-- One proof on the merged metadata has the outputs of the proofs alone. -/
def Transparent (merge : Bytes → Bytes → Outcome Bytes) (first : Bytes × Calldata)
    (rest : List (Bytes × Calldata)) : Prop :=
  ∃ merged,(rest.map Prod.fst).foldlM merge first.1=.ok merged ∧
    execute Z quote merged ((first::rest).map Prod.snd)=alone Z quote (first::rest)

variable {Z quote}

theorem alone_cons {commitmentMetadata : Bytes} {contract : Contract} {calldata : Calldata}
    {rest : List (Bytes × Calldata)} (hm : fromSlice Contract commitmentMetadata=some contract)
    (hs : Z.initializeContract contract=(.ok (),contract)) :
    alone Z quote ((commitmentMetadata,calldata)::rest)=(do
      let turned ← turn Z quote contract (Z.commit contract) calldata
      let others ← alone Z quote rest
      return turned.1::others) := by
  rw [alone,execute_started hm hs,turns]
  cases turn Z quote contract (Z.commit contract) calldata with
  | error e => rfl
  | ok turned => rfl

end Merged

end Guest

end TruthSeeker.Sdk

namespace TruthSeeker.Sdk

open Borsh

/-- Consumes the first blob of the contract, among the callees, that carries this action. -/
def ExecutionContext.isInCalleeBlobs {Action : Type} [Borsh Action] [DecidableEq Action]
    (self : ExecutionContext) (contractName : ContractName) (action : Action) :
    Outcome ExecutionContext :=
  let matching (blob : Blob) : Bool :=
    blob.contractName=contractName ∧
      (fromSlice (StructuredBlobData Action) blob.data).map StructuredBlobData.parameters=some action
  match self.calleesBlobs.findIdx? matching with
  | some index => .ok { self with calleesBlobs := self.calleesBlobs.eraseIdx index }
  | none => .error (.err s!"Blob with contract name {contractName} not found in callees")

/-- `FullStateRevert`: a failed execution is undone with a copy of the contract. -/
def ZkContract.fullStateRevert {Contract : Type} (Z : ZkContract Contract) :
    TransactionalZkContract Contract where
  toZkContract := Z
  State := Contract
  initialState contract := contract
  revert _ initialState := initialState
  onSuccess contract := (Z.commit contract,contract)
  commit_revert _ _ := rfl

section
variable {Contract : Type}
  (execute : Contract → Calldata → Outcome (Bytes × ExecutionContext × List OnchainEffect) × Contract)
  (commit : Contract → Outcome StateCommitment) (quote : String → String)

/-- `TxExecutorHandler::handle` as the contracts write it: the state that the executor holds
is run in place, and no failure is taken back. -/
def handle (self : Contract) (calldata : Calldata) : Outcome HyleOutput × Contract :=
  match commit self with
  | .error fault => (.error fault,self)
  | .ok initialStateCommitment =>
      let (res,next) := execute self calldata
      (do
        let res ← Outcome.caught res
        let nextStateCommitment ← commit next
        return asHyleOutput quote initialStateCommitment nextStateCommitment calldata res,
      next)

/-- An action that returns an error leaves the executor where it was. -/
def Atomic (self : Contract) (calldata : Calldata) : Prop :=
  ∀ m,(execute self calldata).1=.error (.err m) →
    (handle execute commit quote self calldata).2=self

variable {execute commit quote} {self : Contract} {calldata : Calldata}

theorem handle_state {commitment : StateCommitment} (hc : commit self=.ok commitment) :
    (handle execute commit quote self calldata).2=(execute self calldata).2 := by
  simp only [handle,hc]

theorem atomic_iff : Atomic execute commit quote self calldata ↔
    ∀ m,(execute self calldata).1=.error (.err m) →
      ∀ commitment,commit self=.ok commitment → (execute self calldata).2=self := by
  constructor
  · intro h m failed commitment hc
    exact (handle_state hc).symm.trans (h m failed)
  · intro h m failed
    cases hc : commit self with
    | error fault => simp only [handle,hc]
    | ok commitment =>
      rw [handle_state hc]
      exact h m failed commitment hc

end

section Batches
variable {Contract : Type}

/-- The outputs of the executor for calldata that it handles one after the other, up to the first
that it does not answer, and the state that it is left with. -/
def handled
    (execute : Contract → Calldata →
      Outcome (Bytes × ExecutionContext × List OnchainEffect) × Contract)
    (commit : Contract → Outcome StateCommitment) (quote : String → String)
    (self : Contract) : List Calldata → Outcome (List HyleOutput) × Contract
  | [] => (.ok [],self)
  | calldata::rest =>
      match handle execute commit quote self calldata with
      | (.error fault,next) => (.error fault,next)
      | (.ok output,next) =>
          ((do
            let outputs ← (handled execute commit quote next rest).1
            return output::outputs),
            (handled execute commit quote next rest).2)

namespace ZkContract

variable (Z : ZkContract Contract)

/-- The outputs of an executor whose state can always be committed to. -/
def outputs (quote : String → String) (self : Contract) (batch : List Calldata) :
    Outcome (List HyleOutput) :=
  (handled Z.execute (fun self => .ok (Z.commit self)) quote self batch).1

/-- The state after a call of which a failure is taken back. -/
def settled (self : Contract) (calldata : Calldata) : Contract :=
  match (Z.execute self calldata).1 with
  | .ok _ => (Z.execute self calldata).2
  | .error _ => self

/-- The call fails and leaves another state than it was given. -/
def Spills (self : Contract) (calldata : Calldata) : Prop :=
  (∃ m,(Z.execute self calldata).1=.error (.err m)) ∧ (Z.execute self calldata).2≠self

/-- No call but the last one spills. -/
def Restores (self : Contract) : List Calldata → Prop
  | [] => True
  | calldata::rest =>
      (rest≠[] → ¬Z.Spills self calldata) ∧ Restores (Z.settled self calldata) rest

/-- What a call spills can be told from the commitment. -/
def Tells (self : Contract) : List Calldata → Prop
  | [] => True
  | calldata::rest =>
      (Z.Spills self calldata → Z.commit (Z.execute self calldata).2≠Z.commit self) ∧
        Tells (Z.settled self calldata) rest

def Calm : Prop := ∀ self calldata m,(Z.execute self calldata).1≠.error (.panic m)

variable {Z} {quote : String → String} {self next : Contract} {calldata : Calldata}
  {rest batch : List Calldata}

theorem outputs_of_ok {out : Bytes × ExecutionContext × List OnchainEffect}
    (h : Z.execute self calldata=(.ok out,next)) :
    Z.outputs quote self (calldata::rest)=
      (do
        let outputs ← Z.outputs quote next rest
        return asHyleOutput quote (Z.commit self) (Z.commit next) calldata (.ok out)::outputs) := by
  simp only [outputs,handled,handle,h,Outcome.caught]
  rfl

theorem outputs_of_err {m : String} (h : Z.execute self calldata=(.error (.err m),next)) :
    Z.outputs quote self (calldata::rest)=
      (do
        let outputs ← Z.outputs quote next rest
        return fail calldata (Z.commit self) m::outputs) := by
  simp only [outputs,handled,handle,h,Outcome.caught]
  rfl

/-- The first output starts from the state that the executor holds. -/
theorem initialState_of_outputs {output : HyleOutput} {others : List HyleOutput} (calm : Z.Calm)
    (h : Z.outputs quote self (calldata::rest)=.ok (output::others)) :
    output.initialState=Z.commit self := by
  cases run : Z.execute self calldata with
  | mk result next =>
    cases result with
    | ok out =>
      rw [outputs_of_ok run] at h
      obtain ⟨tail,_,same⟩ := Outcome.bind_eq_ok.mp h
      rw [← (List.cons.inj (Outcome.pure_eq_ok.mp same)).1,asHyleOutput_initialState]
    | error fault =>
      cases fault with
      | panic m => exact absurd (congrArg Prod.fst run) (calm self calldata m)
      | err m =>
        rw [outputs_of_err run] at h
        obtain ⟨tail,_,same⟩ := Outcome.bind_eq_ok.mp h
        rw [← (List.cons.inj (Outcome.pure_eq_ok.mp same)).1,fail_initialState]

/-- A contract that does not panic answers the whole batch. -/
theorem Calm.turns_eq_ok (calm : Z.Calm) (quote : String → String) (self : Contract)
    (commitment : StateCommitment) (batch : List Calldata) :
    ∃ outputs,Guest.turns Z.fullStateRevert quote self commitment batch=.ok outputs ∧
      outputs.length=batch.length := by
  induction batch generalizing self commitment with
  | nil => exact ⟨[],rfl,rfl⟩
  | cons calldata rest ih =>
    have turned : ∃ output after next,
        Guest.turn Z.fullStateRevert quote self commitment calldata=.ok (output,after,next) := by
      cases run : Z.execute self calldata with
      | mk result next =>
        cases result with
        | ok out => exact ⟨_,_,_,Guest.turn_of_ok (Z := Z.fullStateRevert) run⟩
        | error fault =>
          cases fault with
          | panic m => exact absurd (congrArg Prod.fst run) (calm self calldata m)
          | err m => exact ⟨_,_,_,Guest.turn_of_err (Z := Z.fullStateRevert) run⟩
    obtain ⟨output,after,next,ht⟩ := turned
    obtain ⟨outputs,hr,hl⟩ := ih after next
    exact ⟨output::outputs,Guest.turns_cons.mpr ⟨output,after,next,outputs,ht,hr,rfl⟩,by
      rw [List.length_cons,List.length_cons,hl]⟩

theorem outputs_cons_inj {output : HyleOutput} {left right : Outcome (List HyleOutput)} :
    ((do let outputs ← left; return output::outputs)=(do
      let outputs ← right
      return output::outputs : Outcome (List HyleOutput))) ↔ left=right := by
  constructor
  · intro h
    cases left <;> cases right <;> simp_all [bind,Except.bind,pure,Except.pure]
  · intro h
    rw [h]

/-- The circuit, which takes failures back, gives the outputs of the executor, which does not,
exactly if no call but the last one spills. -/
theorem turns_eq_outputs_iff (calm : Z.Calm) (tells : Z.Tells self batch) :
    Guest.turns Z.fullStateRevert quote self (Z.commit self) batch=Z.outputs quote self batch ↔
      Z.Restores self batch := by
  induction batch generalizing self with
  | nil => exact ⟨fun _ => trivial,fun _ => rfl⟩
  | cons calldata rest ih =>
    obtain ⟨apart,tells⟩ := tells
    cases run : Z.execute self calldata with
    | mk result next =>
      cases result with
      | ok out =>
        have settles : Z.settled self calldata=next := by rw [settled,run]
        have calmly : ¬Z.Spills self calldata := by
          intro spills
          obtain ⟨m,failed⟩ := spills.1
          rw [run] at failed
          cases failed
        rw [settles] at tells
        have turned : Guest.turns Z.fullStateRevert quote self (Z.commit self) (calldata::rest)=
            (do
              let outputs ← Guest.turns Z.fullStateRevert quote next (Z.commit next) rest
              return asHyleOutput quote (Z.commit self) (Z.commit next) calldata (.ok out)::
                outputs) := by
          rw [Guest.turns,Guest.turn_of_ok (Z := Z.fullStateRevert) run]
          rfl
        rw [turned,outputs_of_ok run,outputs_cons_inj,ih tells,Restores,settles]
        exact ⟨fun h => ⟨fun _ => calmly,h⟩,And.right⟩
      | error fault =>
        cases fault with
        | panic m => exact absurd (congrArg Prod.fst run) (calm self calldata m)
        | err m =>
          have settles : Z.settled self calldata=self := by rw [settled,run]
          rw [settles] at tells
          have turned : Guest.turns Z.fullStateRevert quote self (Z.commit self)
              (calldata::rest)=(do
                let outputs ← Guest.turns Z.fullStateRevert quote self (Z.commit self) rest
                return fail calldata (Z.commit self) m::outputs) := by
            rw [Guest.turns,Guest.turn_of_err (Z := Z.fullStateRevert) run]
            rfl
          rw [turned,outputs_of_err run,outputs_cons_inj,Restores,settles]
          by_cases kept : next=self
          · have calmly : ¬Z.Spills self calldata := by
              intro spills
              apply spills.2
              rw [run]
              exact kept
            rw [kept,ih tells]
            exact ⟨fun h => ⟨fun _ => calmly,h⟩,And.right⟩
          · have spills : Z.Spills self calldata :=
              ⟨⟨m,by rw [run]⟩,by rw [run]; exact kept⟩
            cases rest with
            | nil => exact ⟨fun _ => ⟨fun h => absurd rfl h,trivial⟩,fun _ => rfl⟩
            | cons second others =>
              constructor
              · intro same
                exfalso
                obtain ⟨outputs,ht,hl⟩ := calm.turns_eq_ok quote self (Z.commit self)
                  (second::others)
                rw [ht] at same
                obtain ⟨output,after,commitment,tail,first,_,rfl⟩ := Guest.turns_cons.mp ht
                have left := (Guest.turn_settles first).1
                have right := initialState_of_outputs calm same.symm
                apply apart spills
                rw [run]
                exact right.symm.trans left
              · intro restores
                exact absurd spills (restores.1 (List.cons_ne_nil _ _))

/-- A contract without spills. -/
theorem restores_of_not_spills (h : ∀ self calldata,¬Z.Spills self calldata) (self : Contract)
    (batch : List Calldata) : Z.Restores self batch := by
  induction batch generalizing self with
  | nil => trivial
  | cons calldata rest ih => exact ⟨fun _ => h self calldata,ih _⟩

theorem tells_of_not_spills (h : ∀ self calldata,¬Z.Spills self calldata) (self : Contract)
    (batch : List Calldata) : Z.Tells self batch := by
  induction batch generalizing self with
  | nil => trivial
  | cons calldata rest ih => exact ⟨fun spills => absurd spills (h self calldata),ih _⟩

end ZkContract

end Batches

end TruthSeeker.Sdk
