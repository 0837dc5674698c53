import TruthSeeker.Model.Actions
import TruthSeeker.Sdk.Utils

namespace TruthSeeker.Sdk

open Borsh

/-- The blob at the index has the format of a call, and these are its caller and its callees. -/
def Declares (blobs : IndexedBlobs) (index : BlobIndex) (caller : Option BlobIndex)
    (callees : Option (List BlobIndex)) : Prop :=
  ∃ blob,blobs.get index=some blob ∧ structuredData blob.data=some ⟨caller,callees,.dropped⟩

/-- The blob at the index names the other one as its caller. -/
def NamesCaller (blobs : IndexedBlobs) (index caller : BlobIndex) : Prop :=
  ∃ callees,Declares blobs index (some caller) callees

/-- The blob at the index lists the other one as a callee. -/
def ListsCallee (blobs : IndexedBlobs) (index callee : BlobIndex) : Prop :=
  ∃ caller callees,Declares blobs index caller (some callees) ∧ callee∈callees

section Formats
variable {Action : Type} [Borsh Action] {data : BlobData}

/-- Whatever the action, the data start with the caller and the callees. -/
theorem structuredData_of_parsed {s : StructuredBlobData Action}
    (h : fromSlice (StructuredBlobData Action) data=some s) :
    structuredData data=some ⟨s.caller,s.callees,.dropped⟩ := by
  rw [fromSlice_eq_some] at h
  obtain ⟨⟨⟨caller,callees,parameters⟩,rest⟩,read,eq⟩ := Option.map_eq_some_iff.mp h
  obtain ⟨rfl,rfl⟩ := Prod.mk.inj eq
  obtain ⟨tail,callerRead,more⟩ := de_prod_eq_some read
  obtain ⟨last,calleesRead,_⟩ := de_prod_eq_some more
  refine fromSlice_eq_some.mpr (Option.map_eq_some_iff.mpr ⟨⟨⟨caller,callees,.dropped⟩,[]⟩,?_,rfl⟩)
  show (de data).bind _=_
  rw [callerRead,Option.bind_some]
  show ((de tail).bind _).map _=_
  rw [calleesRead,Option.bind_some]
  rfl

theorem declares_of_parsed {blobs : IndexedBlobs} {index : BlobIndex}
    {parsed : StructuredBlob Action}
    (h : parseStructuredBlob Action blobs index=some parsed) :
    Declares blobs index parsed.data.caller parsed.data.callees := by
  obtain ⟨blob,found,read,_⟩ := parseStructuredBlob_eq_some.mp h
  exact ⟨blob,found,structuredData_of_parsed read⟩

end Formats

theorem Declares.unique {blobs : IndexedBlobs} {index : BlobIndex} {caller caller' : Option BlobIndex}
    {callees callees' : Option (List BlobIndex)} (h : Declares blobs index caller callees)
    (h' : Declares blobs index caller' callees') : caller=caller' ∧ callees=callees' := by
  obtain ⟨blob,found,read⟩ := h
  obtain ⟨other,again,reread⟩ := h'
  obtain rfl : blob=other := Option.some.inj (found.symm.trans again)
  obtain ⟨rfl,rfl,_⟩ := StructuredBlobData.mk.inj (Option.some.inj (read.symm.trans reread))
  exact ⟨rfl,rfl⟩

theorem hasCaller_iff {index : BlobIndex} {blob : Blob} : hasCaller index blob=true ↔
    ∃ callees,structuredData blob.data=some ⟨some index,callees,.dropped⟩ := by
  unfold hasCaller
  cases structuredData blob.data with
  | none => simp
  | some s =>
    obtain ⟨caller,callees,_⟩ := s
    simp [eq_comm]

section Checks
variable {Action : Type} {calldata : Calldata} {parsed : StructuredBlob Action}
  {identity : Identity}

/-- The callees that a blob declares are all the blobs that name it as their caller. -/
theorem callees_of_check (h : checkCallerCallees calldata parsed=.ok identity)
    {callees : List BlobIndex} (hc : parsed.data.callees=some callees) :
    callees=(calldata.blobs.filter fun p => hasCaller calldata.index p.2).map Prod.fst := by
  unfold checkCallerCallees at h
  rw [hc] at h
  obtain ⟨_,checked,_⟩ := Outcome.bind_eq_ok.mp h
  exact Outcome.ensure_eq_ok.mp checked

/-- The caller that a blob declares lists it as a callee and lends it its name. -/
theorem caller_of_check (h : checkCallerCallees calldata parsed=.ok identity)
    {caller : BlobIndex} (hc : parsed.data.caller=some caller) :
    ListsCallee calldata.blobs caller calldata.index ∧
      ∃ blob,calldata.blobs.get caller=some blob ∧ identity=blob.contractName := by
  have named : ∃ blob s callees,calldata.blobs.get caller=some blob ∧
      structuredData blob.data=some s ∧ s.callees=some callees ∧ calldata.index∈callees ∧
      identity=blob.contractName := by
    unfold checkCallerCallees at h
    cases hd : parsed.data.callees with
    | none =>
      simp only [hc,hd,Outcome.bind_eq_ok,Outcome.ensure_eq_ok,Outcome.fromOption_eq_ok,
        Outcome.pure_eq_ok] at h
      obtain ⟨_,_,blob,found,s,read,callees,listed,_,member,named⟩ := h
      exact ⟨blob,s,callees,found,read,listed,member,named.symm⟩
    | some _ =>
      simp only [hc,hd,Outcome.bind_eq_ok,Outcome.ensure_eq_ok,Outcome.fromOption_eq_ok,
        Outcome.pure_eq_ok] at h
      obtain ⟨_,_,_,_,blob,found,s,read,callees,listed,_,member,named⟩ := h
      exact ⟨blob,s,callees,found,read,listed,member,named.symm⟩
  obtain ⟨blob,⟨callers,_,_⟩,callees,found,read,rfl,member,named⟩ := named
  exact ⟨⟨callers,callees,⟨blob,found,read⟩,member⟩,blob,found,named⟩

end Checks

section Consistency
variable {Action Other : Type} [Borsh Action] [Borsh Other] {blobs : List Blob}
  {callee caller : Calldata} {action : Action} {other : Other} {ctx callerCtx : ExecutionContext}

/-- Two blobs of one transaction that both pass the checks agree on who calls whom: the callee
runs as the contract of its caller, which has it among its callees. -/
theorem callers_consistent (size : blobs.length≤UInt64.size)
    (full : callee.blobs=IndexedBlobs.ofBlobs blobs) (same : caller.blobs=callee.blobs)
    (parsed : parseCalldata Action callee=.ok (action,ctx))
    (parsedCaller : parseCalldata Other caller=.ok (other,callerCtx)) :
    (NamesCaller callee.blobs callee.index caller.index ↔
      ListsCallee callee.blobs caller.index callee.index) ∧
    callerCtx.calleesBlobs=
      (caller.blobs.filter fun p => hasCaller caller.index p.2).map Prod.snd ∧
    (NamesCaller callee.blobs callee.index caller.index → ∃ blob calling,
      callee.blobs.get callee.index=some blob ∧ blob∈callerCtx.calleesBlobs ∧
      callee.blobs.get caller.index=some calling ∧ ctx.caller=calling.contractName) := by
  have distinct : (callee.blobs.map Prod.fst).Nodup := full ▸ IndexedBlobs.nodup_ofBlobs size
  obtain ⟨calledBlob,readCalled,_,checked,_⟩ := parseCalldata_eq_ok.mp parsed
  obtain ⟨callingBlob,readCalling,_,checkedCaller,_,context⟩ := parseCalldata_eq_ok.mp parsedCaller
  have declares := declares_of_parsed readCalled
  have declaresCaller := declares_of_parsed readCalling
  rw [same] at declaresCaller
  refine ⟨⟨?_,?_⟩,context,?_⟩
  · rintro ⟨callees,names⟩
    exact (caller_of_check checked (declares.unique names).1).1
  · rintro ⟨_,callees,lists,member⟩
    have listed := callees_of_check checkedCaller (declaresCaller.unique lists).2
    rw [listed,same] at member
    obtain ⟨⟨index,blob⟩,entry,rfl⟩ := List.mem_map.mp member
    obtain ⟨present,calls⟩ := List.mem_filter.mp entry
    obtain ⟨declared,read⟩ := hasCaller_iff.mp calls
    exact ⟨declared,blob,(IndexedBlobs.get_eq_some_iff distinct).mpr present,read⟩
  · rintro ⟨callees,names⟩
    obtain ⟨_,calling,found,identity⟩ := caller_of_check checked (declares.unique names).1
    obtain ⟨blob,here,read⟩ := names
    refine ⟨blob,calling,here,?_,found,identity⟩
    rw [context,same]
    exact List.mem_map.mpr ⟨(callee.index,blob),List.mem_filter.mpr
      ⟨IndexedBlobs.mem_of_get here,hasCaller_iff.mpr ⟨callees,read⟩⟩,rfl⟩

end Consistency

namespace Swap

/-- A call of `amm` and the transfer that it makes on `oranj`. -/
def blobs : List Blob :=
  [⟨"amm",(ser (StructuredBlobData.mk none (some [1]) true)).getD []⟩,
    ⟨"oranj",(ser (StructuredBlobData.mk (some 0) none "transfer")).getD []⟩]

def calldata (index : BlobIndex) : Calldata where
  txHash := ""
  identity := "bob@wallet"
  blobs := IndexedBlobs.ofBlobs blobs
  txBlobCount := 2
  index := index
  txCtx := none
  privateInput := []

end Swap

open Swap in
theorem callers_consistent_swap :
    (NamesCaller (calldata 1).blobs 1 0 ↔ ListsCallee (calldata 1).blobs 0 1) ∧
    blobs.drop 1=((calldata 0).blobs.filter fun p => hasCaller 0 p.2).map Prod.snd ∧
    (NamesCaller (calldata 1).blobs 1 0 → ∃ blob calling,
      (calldata 1).blobs.get 1=some blob ∧ blob∈blobs.drop 1 ∧
      (calldata 1).blobs.get 0=some calling ∧ "amm"=calling.contractName) := by
  have transfer : parseCalldata String (calldata 1)=.ok ("transfer",⟨[],"amm","oranj"⟩) := by
    decide +kernel
  have swap : parseCalldata Bool (calldata 0)=.ok (true,⟨blobs.drop 1,"bob@wallet","amm"⟩) := by
    decide +kernel
  have same : (calldata 0).blobs=(calldata 1).blobs := rfl
  exact callers_consistent (by decide) rfl same transfer swap

end TruthSeeker.Sdk
