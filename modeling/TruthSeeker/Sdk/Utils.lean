import TruthSeeker.Model.Contract

namespace TruthSeeker.Sdk

open Borsh

/-- Who runs the blob, for which contract, and the blobs that it calls. -/
structure ExecutionContext where
  calleesBlobs : List Blob
  caller : Identity
  contractName : ContractName
  deriving DecidableEq

namespace ExecutionContext

def new (caller : Identity) (contractName : ContractName) : ExecutionContext :=
  ⟨[],caller,contractName⟩

end ExecutionContext

def parseRawCalldata (Action : Type) [Borsh Action] (calldata : Calldata) :
    Outcome (Action × ExecutionContext) := do
  let blob ← Outcome.fromOption (calldata.blobs.get calldata.index)
    (.err s!"Could not find Blob at index {calldata.index}")
  let parameters ← Outcome.fromOption (fromSlice Action blob.data)
    (.err s!"Could not deserialize Blob at index {calldata.index}")
  return (parameters,ExecutionContext.new calldata.identity blob.contractName)

theorem parseRawCalldata_eq_ok {Action : Type} [Borsh Action] {calldata : Calldata}
    {action : Action} {ctx : ExecutionContext} :
    parseRawCalldata Action calldata=.ok (action,ctx) ↔
      ∃ blob,calldata.blobs.get calldata.index=some blob ∧
        fromSlice Action blob.data=some action ∧
        ctx=ExecutionContext.new calldata.identity blob.contractName := by
  simp only [parseRawCalldata,Outcome.bind_eq_ok,Outcome.fromOption_eq_ok,Outcome.pure_eq_ok,
    Prod.mk.injEq]
  constructor
  · rintro ⟨blob,hb,parameters,hp,rfl,rfl⟩
    exact ⟨blob,hb,hp,rfl⟩
  · rintro ⟨blob,hb,hp,rfl⟩
    exact ⟨blob,hb,action,hp,rfl,rfl⟩

/-- A raw blob has no callees. -/
theorem calleesBlobs_of_parseRawCalldata {Action : Type} [Borsh Action] {calldata : Calldata}
    {action : Action} {ctx : ExecutionContext}
    (h : parseRawCalldata Action calldata=.ok (action,ctx)) : ctx.calleesBlobs=[] := by
  obtain ⟨blob,_,_,rfl⟩ := parseRawCalldata_eq_ok.mp h
  rfl

/-- The caller and the callees that a blob declares, when it has this format. -/
def structuredData (data : BlobData) : Option (StructuredBlobData DropEndOfReader) :=
  fromSlice (StructuredBlobData DropEndOfReader) data

def hasCaller (index : BlobIndex) (blob : Blob) : Bool :=
  match structuredData blob.data with
  | some s => s.caller=some index
  | none => false

def claimsCallee (index : BlobIndex) (blob : Blob) : Bool :=
  match structuredData blob.data with
  | some s => (s.callees.getD []).contains index
  | none => false

def parseStructuredBlob (Action : Type) [Borsh Action] (blobs : IndexedBlobs)
    (index : BlobIndex) : Option (StructuredBlob Action) := do
  let blob ← blobs.get index
  let data ← fromSlice (StructuredBlobData Action) blob.data
  return ⟨blob.contractName,data⟩

/-- Both directions are checked: the callees of this blob name it as their caller,
and its caller lists it as a callee. -/
def checkCallerCallees {Action : Type} (calldata : Calldata)
    (parameters : StructuredBlob Action) : Outcome Identity := do
  match parameters.data.callees with
  | some callees =>
    let blobsWithThisAsCaller :=
      (calldata.blobs.filter (fun p => hasCaller calldata.index p.2)).map Prod.fst
    Outcome.ensure (callees=blobsWithThisAsCaller) "Blob callees do not match actual callees"
  | none => pure ()
  match parameters.data.caller with
  | some callerIndex =>
    Outcome.ensure (callerIndex≠calldata.index) "Self-reference as callee is forbidden"
    let callerBlob ← Outcome.fromOption (calldata.blobs.get callerIndex)
      (.err s!"Caller index {callerIndex} not found in blobs")
    let callerStructuredBlob ← Outcome.fromOption (structuredData callerBlob.data)
      (.err s!"Could not parse blob {callerIndex} as a StructuredBlob")
    let callerCallees ← Outcome.fromOption callerStructuredBlob.callees
      (.err "Caller does not have any callees")
    Outcome.ensure (calldata.index∈callerCallees) "Incorrect Caller for this blob"
    return callerBlob.contractName
  | none =>
    Outcome.ensure (¬calldata.blobs.any (fun p => claimsCallee calldata.index p.2))
      "Blob has no caller but another blob claims it as a callee"
    return calldata.identity

def parseCalldata (Action : Type) [Borsh Action] (calldata : Calldata) :
    Outcome (Action × ExecutionContext) := do
  let parsedBlob ← Outcome.fromOption
    (parseStructuredBlob Action calldata.blobs calldata.index)
    (.err "Failed to parse input blob")
  let caller ← checkCallerCallees calldata parsedBlob
  let calleesBlobs :=
    (calldata.blobs.filter (fun p => hasCaller calldata.index p.2)).map Prod.snd
  return (parsedBlob.data.parameters,⟨calleesBlobs,caller,parsedBlob.contractName⟩)

theorem parseStructuredBlob_eq_some {Action : Type} [Borsh Action] {blobs : IndexedBlobs}
    {index : BlobIndex} {parsed : StructuredBlob Action} :
    parseStructuredBlob Action blobs index=some parsed ↔
      ∃ blob,blobs.get index=some blob ∧
        fromSlice (StructuredBlobData Action) blob.data=some parsed.data ∧
        parsed.contractName=blob.contractName := by
  unfold parseStructuredBlob
  cases hb : blobs.get index with
  | none => simp
  | some blob =>
    cases hd : fromSlice (StructuredBlobData Action) blob.data with
    | none => simp [hd]
    | some data => cases parsed; simp [hd,eq_comm,and_comm]

theorem parseCalldata_eq_ok {Action : Type} [Borsh Action] {calldata : Calldata}
    {action : Action} {ctx : ExecutionContext} :
    parseCalldata Action calldata=.ok (action,ctx) ↔
      ∃ parsed,parseStructuredBlob Action calldata.blobs calldata.index=some parsed ∧
        parsed.data.parameters=action ∧ checkCallerCallees calldata parsed=.ok ctx.caller ∧
        ctx.contractName=parsed.contractName ∧ ctx.calleesBlobs=
          (calldata.blobs.filter (fun p => hasCaller calldata.index p.2)).map Prod.snd := by
  cases ctx
  simp only [parseCalldata,Outcome.bind_eq_ok,Outcome.fromOption_eq_ok,Outcome.pure_eq_ok,
    Prod.mk.injEq,ExecutionContext.mk.injEq]
  constructor
  · rintro ⟨parsed,hp,caller,hc,rfl,rfl,rfl,rfl⟩
    exact ⟨parsed,hp,rfl,hc,rfl,rfl⟩
  · rintro ⟨parsed,hp,rfl,hc,rfl,rfl⟩
    exact ⟨parsed,hp,_,hc,rfl,rfl,rfl,rfl⟩

end TruthSeeker.Sdk
