import TruthSeeker.Crypto.Blst
import TruthSeeker.Model.Actions
import TruthSeeker.Model.Block
import TruthSeeker.Sdk.Secp256k1

namespace TruthSeeker

open Outcome

/-- The `Debug` renderings and the foreign error texts that messages contain. -/
structure DebugTexts where
  error : String → String
  txHash : TxHash → String
  stateCommitment : StateCommitment → String
  programId : ProgramId → String
  stateRead : ContractName × StateCommitment → String
  txContext : TxContext → String
  blob : Blob → String
  fromUtf8 : Bytes → String
  borshError : Bytes → String

/-- What the node calls outside of its own code. -/
structure Environment where
  sha3 : Bytes → H256
  sha256 : Bytes → H256
  PublicKey : Type
  BlstSignature : Type
  blst : Blst PublicKey BlstSignature
  /-- Parses the key and the signature, then verifies. -/
  verifyEcdsa : ByteVec 33 → ByteVec 64 → ByteVec 32 → Except String Bool
  /-- The value of `HYLI_TLD_PUBKEY`, if it is set. -/
  hyliTldPubkey : Option String
  validateProgramId : Verifier → ProgramId → Except String Unit
  debug : DebugTexts

inductive NativeVerifiers where
  | blst
  | sha3_256
  | secp256k1
  deriving DecidableEq

def NATIVE_VERIFIERS_CONTRACT_LIST : List String := ["blst","sha3_256","secp256k1"]

namespace NativeVerifiers

def programId : NativeVerifiers → ProgramId
  | .blst => utf8 "blst"
  | .sha3_256 => utf8 "sha3_256"
  | .secp256k1 => utf8 "secp256k1"

def ofVerifier (verifier : Verifier) : Option NativeVerifiers :=
  if verifier="blst" then some .blst
  else if verifier="sha3_256" then some .sha3_256
  else if verifier="secp256k1" then some .secp256k1
  else none

end NativeVerifiers

/-- Format of the data of a blob for the native contract `blst`. -/
structure BlstSignatureBlob where
  identity : Identity
  data : Bytes
  /-- Signature for the concatenated data and identity. -/
  signature : Bytes
  publicKey : Bytes
  deriving DecidableEq

def BlstSignatureBlob.layout :
    Borsh.Layout BlstSignatureBlob (Identity × Bytes × Bytes × Bytes) where
  fields b := (b.identity,b.data,b.signature,b.publicKey)
  make := fun (identity,data,signature,publicKey) => ⟨identity,data,signature,publicKey⟩
  make_fields _ := rfl

instance : Borsh BlstSignatureBlob := BlstSignatureBlob.layout.borsh

/-- Format of the data of a blob for a native hash contract. -/
structure ShaBlob where
  identity : Identity
  data : Bytes
  sha : Bytes
  deriving DecidableEq

def ShaBlob.layout : Borsh.Layout ShaBlob (Identity × Bytes × Bytes) where
  fields b := (b.identity,b.data,b.sha)
  make := fun (identity,data,sha) => ⟨identity,data,sha⟩
  make_fields _ := rfl

instance : Borsh ShaBlob := ShaBlob.layout.borsh

namespace Native

variable (env : Environment)

/-- The identity that the blob holds and whether its proof is right. An error stands for a
failure of the default identity. -/
def verifyNativeImpl (blob : Blob) : NativeVerifiers → Outcome (Identity × Bool)
  | .blst => do
      let b ← fromOption (Borsh.fromSlice BlstSignatureBlob blob.data)
        (.err (env.debug.borshError blob.data))
      let valid ← env.blst.verifySigned
        (⟨b.data++utf8 b.identity,⟨b.signature,b.publicKey⟩⟩ : SignedByValidator Bytes)
      return (b.identity,valid)
  | .sha3_256 => do
      let b ← fromOption (Borsh.fromSlice ShaBlob blob.data)
        (.err (env.debug.borshError blob.data))
      return (b.identity,(env.sha3 b.data).toList=b.sha)
  | .secp256k1 => do
      let b ← fromOption (Borsh.fromSlice Sdk.Secp256k1Blob blob.data)
        (.err (env.debug.borshError blob.data))
      let valid ← fromExcept (env.verifyEcdsa b.publicKey b.signature b.data) .err
      return (b.identity,valid)

/-- The output of a native verifier on the blob at the index. -/
def verify (txHash : TxHash) (index : BlobIndex) (blobs : List Blob) (blob : Blob)
    (verifier : NativeVerifiers) : HyleOutput :=
  let (identity,success) :=
    match verifyNativeImpl env blob verifier with
    | .ok result => result
    | .error _ => ("",false)
  { version := 1
    initialState := []
    nextState := []
    identity := identity
    index := index
    blobs := IndexedBlobs.ofBlobs blobs
    txBlobCount := UInt64.ofNat blobs.length
    txHash := txHash
    success := success
    stateReads := []
    txCtx := none
    onchainEffects := []
    programOutputs := [] }

end Native

end TruthSeeker

namespace TruthSeeker

/-- Splits around the first occurrence of the separator. -/
def splitOnce (separator : Char) (s : String) : Option (String × String) :=
  match s.toList.span (fun c => c≠separator) with
  | (_,[]) => none
  | (before,_::after) => some (String.ofList before,String.ofList after)

/-- Splits around the last occurrence of the separator. -/
def rsplitOnce (separator : Char) (s : String) : Option (String × String) :=
  match s.toList.reverse.span (fun c => c≠separator) with
  | (_,[]) => none
  | (after,_::before) => some (String.ofList before.reverse,String.ofList after.reverse)

/-- The new name is a TLD or `hyle` itself for the owner `hyle`, the name of any other
owner itself, or else a direct subdomain of the owner. -/
def validateContractNameRegistration (owner newContractName : ContractName) :
    Except String Unit :=
  if owner="hyle" ∧
      (newContractName="hyle" ∨ newContractName≠"" ∧ '.'∉newContractName.toList) then .ok ()
  else if owner≠"hyle" ∧ owner=newContractName ∧ owner≠"" then .ok ()
  else
    match splitOnce '.' newContractName with
    | none => .error s!"Invalid contract name for '{owner}': no '.' in {newContractName}"
    | some (name,tld) =>
        if name="" ∨ tld="" then
          .error s!"Invalid contract name for '{owner}': empty name/tld in {newContractName}"
        else if tld≠owner then
          .error s!"Invalid subdomain contract name for '{owner}': {newContractName}"
        else .ok ()

def MAX_STATE_COMMITMENT_SIZE : Nat := 10*1024*1024

def validateStateCommitmentSize (stateCommitment : StateCommitment) : Except String Unit :=
  if stateCommitment.length>MAX_STATE_COMMITMENT_SIZE then
    .error ("StateCommitment is too long. Maximum of "++
      s!"{MAX_STATE_COMMITMENT_SIZE} bytes allowed, got {stateCommitment.length}")
  else .ok ()

def validateContractRegistrationMetadata (env : Environment) (owner : ContractName)
    (newContractName : ContractName) (verifier : Verifier) (programId : ProgramId)
    (stateCommitment : StateCommitment) : Except String Unit := do
  validateContractNameRegistration owner newContractName
  env.validateProgramId verifier programId
  validateStateCommitmentSize stateCommitment

/-- Similar to an onchain effect but slightly more adapted to settlement. -/
inductive SideEffect where
  | register (metadata : Option Bytes)
  | updateState
  | updateProgramId
  | updateTimeoutWindow
  | delete
  deriving DecidableEq

structure ModifiedContractFields where
  programId : Bool
  state : Bool
  verifier : Bool
  timeoutWindow : Bool
  deriving DecidableEq

namespace ModifiedContractFields

def all : ModifiedContractFields := ⟨true,true,true,true⟩

def none : ModifiedContractFields := ⟨false,false,false,false⟩

end ModifiedContractFields

/-- The up-to-date copy of a contract, none if it was deleted, with the fields that changed
and the side effects that were processed. -/
abbrev ModifiedContractData := Option Contract × ModifiedContractFields × List SideEffect

abbrev Contracts := Std.ExtTreeMap ContractName Contract
abbrev ContractChanges := Std.ExtTreeMap ContractName ModifiedContractData

/-- The contract as the earlier blobs left it. -/
def getContract (contracts : Contracts) (contractChanges : ContractChanges)
    (contractName : ContractName) : Except String Contract :=
  let found := match contractChanges[contractName]? with
    | some (contract,_) => contract
    | none => contracts[contractName]?
  match found with
  | some contract => .ok contract
  | none => .error s!"Cannot settle blob, contract '{contractName}' no longer exists"

end TruthSeeker

namespace TruthSeeker.HyleTld

open Outcome

def HYLI_TLD_ID : Identity := "hyli@wallet"

variable (env : Environment) (contracts : Contracts) (contractChanges : ContractChanges)

def handleRegisterBlob (reg : RegisterContractAction) : Except String ContractChanges := do
  validateContractRegistrationMetadata env "hyle" reg.contractName reg.verifier reg.programId
    reg.stateCommitment
  -- The name `hyle` is only looked up among the changes.
  if reg.contractName≠"hyle" ∧ contracts.contains reg.contractName ∨
      contractChanges.contains reg.contractName then
    .error s!"Contract {reg.contractName} is already registered"
  else
    return contractChanges.insert reg.contractName
      (some ⟨reg.contractName,reg.programId,reg.stateCommitment,reg.verifier,
        reg.timeoutWindow.getD TimeoutWindow.default⟩,
      ModifiedContractFields.all,[.register reg.constructorMetadata])

def handleDeleteBlob (delete : DeleteContractAction) : Except String ContractChanges :=
  if delete.contractName="hyle" then .error "Cannot delete Hyli contract"
  else if contracts.contains delete.contractName ∨
      contractChanges.contains delete.contractName then
    .ok (contractChanges.insert delete.contractName (none,ModifiedContractFields.all,[.delete]))
  else .error s!"Contract {delete.contractName} is already registered"

/-- A change of one field of a contract, on the copy that the earlier blobs left. -/
def handleUpdateBlob (contractName : ContractName) (set : Contract → Contract)
    (mark : ModifiedContractFields → ModifiedContractFields) (effect : SideEffect) :
    Except String ContractChanges := do
  if contractName="hyle" then .error "Cannot udpate Hyli contract"
  else
    let contract ← getContract contracts contractChanges contractName
    return contractChanges.insert contractName
      (match contractChanges[contractName]? with
      | some (c,fields,effects) => (c.map set,mark fields,effects++[effect])
      | none => (some (set contract),mark ModifiedContractFields.none,[effect]))

def handleUpdateProgramIdBlob (update : UpdateContractProgramIdAction) :
    Except String ContractChanges :=
  handleUpdateBlob contracts contractChanges update.contractName
    (fun contract => { contract with programId := update.programId })
    (fun fields => { fields with programId := true }) .updateProgramId

def handleUpdateTimeoutWindowBlob (update : UpdateContractTimeoutWindowAction) :
    Except String ContractChanges :=
  handleUpdateBlob contracts contractChanges update.contractName
    (fun contract => { contract with timeoutWindow := update.timeoutWindow })
    (fun fields => { fields with timeoutWindow := true }) .updateTimeoutWindow

/-- The first format that the data have decides on the action. -/
def handleBlobForHyleTld (currentBlob : Blob) : Except String ContractChanges :=
  match BlobData.parse RegisterContractAction currentBlob.data with
  | some reg => handleRegisterBlob env contracts contractChanges reg
  | none =>
  match BlobData.parse DeleteContractAction currentBlob.data with
  | some delete => handleDeleteBlob contracts contractChanges delete
  | none =>
  match BlobData.parse UpdateContractProgramIdAction currentBlob.data with
  | some update => handleUpdateProgramIdBlob contracts contractChanges update
  | none =>
  match BlobData.parse UpdateContractTimeoutWindowAction currentBlob.data with
  | some update => handleUpdateTimeoutWindowBlob contracts contractChanges update
  | none =>
  match BlobData.parse NukeTxAction currentBlob.data with
  | some _ => .ok contractChanges
  | none => .error "Invalid blob data for TLD"

/-- Whether the data have the format of an action that needs the identity of the TLD. -/
def isPrivileged (data : BlobData) : Bool :=
  (BlobData.parse UpdateContractProgramIdAction data).isSome ||
    (BlobData.parse DeleteContractAction data).isSome ||
    (BlobData.parse UpdateContractTimeoutWindowAction data).isSome

def faultText : Fault → String
  | .err message => message
  | .panic message => message

/-- The signed digest is that of the outputs, and the signer is Hyli. -/
def validateNuke (tx : BlobTransaction) (index : BlobIndex) (nuke : NukeTxAction) :
    Except String Unit := do
  let calldata : Calldata :=
    ⟨tx.hashed env.sha3,tx.identity,IndexedBlobs.ofBlobs tx.blobs,
      UInt64.ofNat tx.blobs.length,index,none,[]⟩
  let expectedData ← (toVec nuke.txs).mapError
    fun e => s!"Failed to serialize tx hashes: {faultText e}"
  let secpBlob ← (Sdk.CheckSecp256k1.expect env.sha256 calldata expectedData).mapError
    fun e => s!"Failed to verify secp256k1 signature: {faultText e}"
  match env.hyliTldPubkey with
  | none => .error "HYLI_TLD_PUBKEY environment variable not set"
  | some publicKey =>
  match Bytes.unhex publicKey with
  | none => .error "Invalid hex format for HYLI_TLD_PUBKEY"
  | some hyliTldPubkey =>
  if secpBlob.publicKey.toList≠hyliTldPubkey then
    .error s!"Secp256k1 signature is not from Hyli: {Bytes.hex secpBlob.publicKey.toList}"
  else .ok ()

def validateHyleContractBlob (tx : BlobTransaction) (index : BlobIndex) (blob : Blob) :
    Except String Unit :=
  if blob.contractName≠"hyle" then .ok ()
  else if isPrivileged blob.data then
    if tx.identity≠HYLI_TLD_ID then
      .error s!"Unauthorized action for 'hyle' TLD from identity: {tx.identity}"
    else .ok ()
  else
    match BlobData.parse NukeTxAction blob.data with
    | some nuke => validateNuke env tx index nuke
    | none =>
        if (BlobData.parse RegisterContractAction blob.data).isSome then .ok ()
        else .error ("Unsupported permissioned action on hyle contract: "++env.debug.blob blob)

def validateHyleContractBlobs (tx : BlobTransaction) : Except String Unit :=
  (IndexedBlobs.ofBlobs tx.blobs).forM fun p => validateHyleContractBlob env tx p.1 p.2

end TruthSeeker.HyleTld
