import Mathlib.Data.List.Nodup
import TruthSeeker.Model.Contract

namespace TruthSeeker.IndexedBlobs

theorem nodup_ofBlobs {blobs : List Blob} (hs : blobs.length≤UInt64.size) :
    ((ofBlobs blobs).map Prod.fst).Nodup := by
  have indices : (ofBlobs blobs).map Prod.fst=
      (List.range blobs.length).map UInt64.ofNat := by
    unfold ofBlobs
    rw [List.map_map,List.range_eq_range',← List.zipIdx_map_snd 0 blobs,List.map_map]
    rfl
  rw [indices]
  refine List.Nodup.map_on ?_ List.nodup_range
  intro i hi j hj same
  rw [List.mem_range] at hi hj
  have left : (UInt64.ofNat i).toNat=i := UInt64.toNat_ofNat_of_lt' (by omega)
  have right : (UInt64.ofNat j).toNat=j := UInt64.toNat_ofNat_of_lt' (by omega)
  rw [← left,← right,same]

theorem get_ofBlobs {blobs : List Blob} {index : BlobIndex} {blob : Blob}
    (h : blobs[index.toNat]?=some blob) : (ofBlobs blobs).get index=some blob := by
  have shifted : ∀ (blobs : List Blob) (k : Nat),k≤ index.toNat → blobs[index.toNat-k]?=some blob →
      ((blobs.zipIdx k).map fun p => (UInt64.ofNat p.2,p.1)).find? (fun p => p.1=index)=
        some (index,blob) := by
    intro blobs
    induction blobs with
    | nil => simp
    | cons first rest ih =>
      intro k hk found
      rw [List.zipIdx_cons,List.map_cons]
      have small := index.toNat_lt
      have same : UInt64.ofNat k=index ↔ k=index.toNat := by
        rw [← UInt64.toNat_inj,UInt64.toNat_ofNat']
        omega
      by_cases here : k=index.toNat
      · rw [here,Nat.sub_self] at found
        rw [List.find?_cons_of_pos (by simpa using same.mpr here),same.mpr here,
          Option.some.inj found]
      · rw [List.find?_cons_of_neg (by simpa using mt same.mp here)]
        apply ih (k+1) (by omega)
        rwa [show index.toNat-k=index.toNat-(k+1)+1 by omega,List.getElem?_cons_succ] at found
  have found := shifted blobs 0 (Nat.zero_le _) h
  rw [IndexedBlobs.get,ofBlobs,found]
  rfl

section Lookup
variable {blobs : IndexedBlobs} {index : BlobIndex} {blob : Blob}

theorem mem_of_get (h : blobs.get index=some blob) : (index,blob)∈blobs := by
  obtain ⟨entry,found,rfl⟩ := Option.map_eq_some_iff.mp h
  have same : entry.1=index := by simpa using List.find?_some found
  rw [← same]
  exact List.mem_of_find?_eq_some found

/-- With distinct indices, the entries are what is looked up. -/
theorem get_eq_some_iff (hd : (blobs.map Prod.fst).Nodup) :
    blobs.get index=some blob ↔ (index,blob)∈blobs := by
  refine ⟨mem_of_get,fun listed => ?_⟩
  cases found : blobs.find? fun p => p.1=index with
  | none => exact absurd (by simp) (List.find?_eq_none.mp found (index,blob) listed)
  | some entry =>
    have same : entry.1=index := by simpa using List.find?_some found
    have entries := List.inj_on_of_nodup_map hd (List.mem_of_find?_eq_some found) listed same
    rw [IndexedBlobs.get,found,entries]
    rfl

end Lookup

end TruthSeeker.IndexedBlobs

namespace TruthSeeker

/-- A blob action that registers a contract. -/
structure RegisterContractAction where
  verifier : Verifier
  programId : ProgramId
  stateCommitment : StateCommitment
  contractName : ContractName
  timeoutWindow : Option TimeoutWindow
  /-- Data for indexers, never checked by the node. -/
  constructorMetadata : Option Bytes
  deriving DecidableEq

def RegisterContractAction.layout : Borsh.Layout RegisterContractAction (Verifier × ProgramId ×
    StateCommitment × ContractName × Option TimeoutWindow × Option Bytes) where
  fields a := (a.verifier,a.programId,a.stateCommitment,a.contractName,a.timeoutWindow,
    a.constructorMetadata)
  make := fun (verifier,programId,stateCommitment,contractName,timeoutWindow,metadata) =>
    ⟨verifier,programId,stateCommitment,contractName,timeoutWindow,metadata⟩
  make_fields _ := rfl

instance : Borsh RegisterContractAction := RegisterContractAction.layout.borsh

def RegisterContractAction.effect (self : RegisterContractAction) : RegisterContractEffect :=
  ⟨self.verifier,self.programId,self.stateCommitment,self.contractName,self.timeoutWindow⟩

structure UpdateContractProgramIdAction where
  contractName : ContractName
  programId : ProgramId
  deriving DecidableEq

def UpdateContractProgramIdAction.layout :
    Borsh.Layout UpdateContractProgramIdAction (ContractName × ProgramId) where
  fields a := (a.contractName,a.programId)
  make := fun (contractName,programId) => ⟨contractName,programId⟩
  make_fields _ := rfl

instance : Borsh UpdateContractProgramIdAction := UpdateContractProgramIdAction.layout.borsh

structure UpdateContractTimeoutWindowAction where
  contractName : ContractName
  timeoutWindow : TimeoutWindow
  deriving DecidableEq

def UpdateContractTimeoutWindowAction.layout :
    Borsh.Layout UpdateContractTimeoutWindowAction (ContractName × TimeoutWindow) where
  fields a := (a.contractName,a.timeoutWindow)
  make := fun (contractName,timeoutWindow) => ⟨contractName,timeoutWindow⟩
  make_fields _ := rfl

instance : Borsh UpdateContractTimeoutWindowAction :=
  UpdateContractTimeoutWindowAction.layout.borsh

structure DeleteContractAction where
  contractName : ContractName
  deriving DecidableEq

def DeleteContractAction.layout : Borsh.Layout DeleteContractAction ContractName where
  fields a := a.contractName
  make contractName := ⟨contractName⟩
  make_fields _ := rfl

instance : Borsh DeleteContractAction := DeleteContractAction.layout.borsh

/-- A blob action that forces outputs upon unsettled transactions. -/
structure NukeTxAction where
  txs : Std.ExtTreeMap TxHash (List HyleOutput)

def NukeTxAction.layout :
    Borsh.Layout NukeTxAction (Std.ExtTreeMap TxHash (List HyleOutput)) where
  fields a := a.txs
  make txs := ⟨txs⟩
  make_fields _ := rfl

instance : Borsh NukeTxAction := NukeTxAction.layout.borsh

/-- The parameters of a blob whose data have the format of the action. -/
def BlobData.parse (Action : Type) [Borsh Action] (data : BlobData) : Option Action :=
  (Borsh.fromSlice (StructuredBlobData Action) data).map StructuredBlobData.parameters

end TruthSeeker
