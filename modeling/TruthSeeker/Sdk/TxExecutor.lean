import TruthSeeker.Framework.Handler
import TruthSeeker.Model.Contract
import TruthSeeker.Model.Transaction

namespace TruthSeeker.Sdk

open Bytes Outcome

/-- The calls of `TxExecutorHandler` that the executor makes. -/
structure TxExecutorHandler (State : Type) where
  handle : State → Calldata → Except String HyleOutput × State
  buildCommitmentMetadata : State → Blob → Except String Bytes

variable {TypeId : Type}

/-- `dyn Any`: a value whose type is known at run time only. It is the state of a contract, or a
box around such a value. -/
inductive AnyState (State : TypeId → Type) where
  | state (type : TypeId) (value : State type)
  | box (content : AnyState State)

/-- The value, if it has the type. The type of a box is not the type of what it contains. -/
def AnyState.downcastMut {State : TypeId → Type} [DecidableEq TypeId] (type : TypeId) :
    AnyState State → Option (State type)
  | .state other value => if h : other=type then some (h ▸ value) else none
  | .box _ => none

/-- A struct of `contract_states!`: the states of contracts by their names. -/
abbrev ContractStates (State : TypeId → Type) :=
  Std.ExtTreeMap ContractName (Σ type,State type)

structure ContractRunner where
  contractName : ContractName
  identity : Identity
  index : BlobIndex
  privateInput : Option Bytes

structure ProvableBlobTx where
  identity : Identity
  blobs : List Blob
  runners : List ContractRunner
  txContext : Option TxContext
  /-- The blob of a runner is for its contract. -/
  placed : ∀ runner ∈ runners,
    blobs[runner.index.toNat]?.map Blob.contractName=some runner.contractName

namespace ProvableBlobTx

def new (identity : Identity) : ProvableBlobTx := ⟨identity,[],[],none,by simp⟩

/-- The action comes with its blob. -/
def addAction (self : ProvableBlobTx) (blob : Blob) (privateInput : Option Bytes)
    (room : self.blobs.length<UInt64.size) : ProvableBlobTx where
  identity := self.identity
  blobs := self.blobs++[blob]
  runners := self.runners++
    [⟨blob.contractName,self.identity,UInt64.ofNat self.blobs.length,privateInput⟩]
  txContext := self.txContext
  placed := by
    intro runner hr
    obtain old|new := List.mem_append.mp hr
    · have found := self.placed runner old
      obtain ⟨blob',hb,_⟩ := Option.map_eq_some_iff.mp found
      rwa [List.getElem?_append_left (List.getElem?_eq_some_iff.mp hb).1]
    · obtain rfl := List.mem_singleton.mp new
      have index : (UInt64.ofNat self.blobs.length).toNat=self.blobs.length :=
        UInt64.toNat_ofNat_of_lt' room
      simp [index]

def addContext (self : ProvableBlobTx) (txContext : TxContext) : ProvableBlobTx :=
  { self with txContext := some txContext }

end ProvableBlobTx

/-- A runner with what it needs for a proof. -/
structure PreparedRunner where
  contractName : ContractName
  commitmentMetadata : Bytes
  calldata : Calldata

structure ProofTxBuilder where
  identity : Identity
  blobs : List Blob
  runners : List PreparedRunner
  outputs : List (ContractName × HyleOutput)

/-- What the executor takes from outside: the handlers, the digests, whether errors are logged,
and the `Debug` text of a string. -/
structure ExecutorEnv (State : TypeId → Type) where
  handler : (type : TypeId) → TxExecutorHandler (State type)
  sha3 : Bytes → H256
  logged : Bool
  quote : String → String

section
variable {State : TypeId → Type} [DecidableEq TypeId] (env : ExecutorEnv State)

namespace ContractStates

def get (contractName : ContractName) : Handler (ContractStates State) (AnyState State) := fun s =>
  match s[contractName]? with
  | none => (err s!"Unknown contract name: {contractName}",s)
  | some ⟨type,value⟩ => (.ok (.state type value),s)

def update (contractName : ContractName) (newState : AnyState State) :
    Handler (ContractStates State) Unit := fun s =>
  match s[contractName]? with
  | none => (err s!"Unknown contract name: {contractName}",s)
  | some ⟨type,_⟩ =>
      match newState.downcastMut type with
      | none => (err s!"Incorrect state data passed for contract '{contractName}'",s)
      | some value => (.ok (),s.insert contractName ⟨type,value⟩)

def buildCommitmentMetadata (contractName : ContractName) (blob : Blob) :
    Handler (ContractStates State) (Except String Bytes) := fun s =>
  match s[contractName]? with
  | none => (.ok (.error s!"Unknown contract name: {contractName}"),s)
  | some ⟨type,value⟩ => (.ok ((env.handler type).buildCommitmentMetadata value blob),s)

/-- The handler works on the state in place. -/
def execute (contractName : ContractName) (calldata : Calldata) :
    Handler (ContractStates State) (Except String HyleOutput) := fun s =>
  match s[contractName]? with
  | none => (.ok (.error s!"Unknown contract name: {contractName}"),s)
  | some ⟨type,value⟩ =>
      let (result,next) := (env.handler type).handle value calldata
      (.ok result,s.insert contractName ⟨type,next⟩)

end ContractStates

namespace ProvableBlobTx

variable (tx : ProvableBlobTx)

def calldata (runner : ContractRunner) : Calldata where
  identity := runner.identity
  index := runner.index
  txBlobCount := UInt64.ofNat tx.blobs.length
  blobs := IndexedBlobs.ofBlobs tx.blobs
  txHash := BlobTransaction.hashed env.sha3 ⟨runner.identity,tx.blobs⟩
  txCtx := tx.txContext
  privateInput := runner.privateInput.getD []

/-- Copies of the states of all contracts that have a blob, each in a box. -/
def oldStates : List Blob → Handler (ContractStates State) (Std.ExtTreeMap ContractName (AnyState State))
  | [] => pure ∅
  | blob::blobs => do
      let state ← ContractStates.get blob.contractName
      let rest ← oldStates blobs
      -- A later blob of the same contract would put the same state there.
      return rest.insert blob.contractName state

/-- Each copy is in a box, and `&mut *state` is a reference to the box: what `update` gets as a
`dyn Any` is the box itself. -/
def revert (oldStates : Std.ExtTreeMap ContractName (AnyState State)) :
    Handler (ContractStates State) Unit :=
  oldStates.toList.forM fun entry => ContractStates.update entry.1 (.box entry.2)

/-- `std::str::from_utf8(..).unwrap()` -/
def utf8Unwrap (bytes : Bytes) : Outcome String :=
  fromOption (String.fromUTF8? ⟨bytes.toArray⟩)
    (.panic "called `Result::unwrap()` on an `Err` value: Utf8Error")

/-- What becomes of the result of a handler. A failure is followed by an attempt to put the copies
back, and then reported. -/
def conclude (copies : Std.ExtTreeMap ContractName (AnyState State)) (prepared : PreparedRunner) :
    Except String HyleOutput → Handler (ContractStates State) (PreparedRunner × HyleOutput)
  | .error e => do
      revert copies
      .fail s!"Execution failed for {prepared.contractName}: {e}"
  | .ok out =>
      if out.success=false then do
        .whenever (env.logged=true) (.lift ((utf8Unwrap out.programOutputs).map fun _ => ()))
        revert copies
        let programError ← .lift (utf8Unwrap out.programOutputs)
        .fail (s!"Execution failed on runner for blob BlobIndex({prepared.calldata.index}) on "++
          "contrat ContractName("++env.quote prepared.contractName++") ! Program output: "++
          programError)
      else return (prepared,out)

/-- One runner. An error of the metadata is unwrapped. -/
def run (copies : Std.ExtTreeMap ContractName (AnyState State)) (runner : ContractRunner) :
    Handler (ContractStates State) (PreparedRunner × HyleOutput) := do
  let blob ← .lift (fromOption tx.blobs[runner.index.toNat]? (.panic "index out of bounds"))
  let built ← ContractStates.buildCommitmentMetadata env runner.contractName blob
  let metadata ← .lift (fromExcept built fun e =>
    .panic ("called `Result::unwrap()` on an `Err` value: "++e))
  let out ← ContractStates.execute env runner.contractName (tx.calldata env runner)
  conclude env copies ⟨runner.contractName,metadata,tx.calldata env runner⟩ out

def runAll (copies : Std.ExtTreeMap ContractName (AnyState State)) : List ContractRunner →
    Handler (ContractStates State) (List (PreparedRunner × HyleOutput))
  | [] => pure []
  | runner::runners => do
      let first ← run env tx copies runner
      let rest ← runAll copies runners
      return first::rest

/-- Executes the transaction on the states of its contracts. -/
def process : Handler (ContractStates State) ProofTxBuilder := do
  let copies ← oldStates tx.blobs
  let ran ← runAll env tx copies tx.runners
  return ⟨tx.identity,tx.blobs,ran.map Prod.fst,ran.map fun r => (r.1.contractName,r.2)⟩

end ProvableBlobTx

end

end TruthSeeker.Sdk
