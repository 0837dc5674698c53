import Mathlib.Data.List.Dedup
import TruthSeeker.Model.Actions
import TruthSeeker.Model.Block

namespace TruthSeeker

/-- The contracts that a blob blocks: its own one, and one that it registers or deletes. -/
def Blob.blockedContracts (self : Blob) : List ContractName :=
  match BlobData.parse RegisterContractAction self.data with
  | some reg => [self.contractName,reg.contractName]
  | none =>
      match BlobData.parse DeleteContractAction self.data with
      | some del => [self.contractName,del.contractName]
      | none => [self.contractName]

namespace UnsettledBlobTransaction

variable (self : UnsettledBlobTransaction)

/-- The unsettled blobs in the order of their positions. -/
def blobValues : List UnsettledBlobMetadata := self.blobs.toList.map Prod.snd

theorem mem_blobValues {metadata : UnsettledBlobMetadata} :
    metadata∈self.blobValues ↔ ∃ index : BlobIndex,self.blobs[index]?=some metadata := by
  simp [blobValues]

def blockedContracts : List ContractName :=
  (self.blobValues.flatMap fun metadata => metadata.blob.blockedContracts).dedup

/-- A proof is added to those of the blob, if the blob exists. -/
def pushProof (index : BlobIndex) (proof : ProgramId × HyleOutput) : UnsettledBlobTransaction :=
  match self.blobs[index]? with
  | none => self
  | some metadata => { self with
      blobs := self.blobs.insert index
        { metadata with possibleProofs := metadata.possibleProofs++[proof] } }

theorem mem_blockedContracts {contract : ContractName} :
    contract∈self.blockedContracts ↔
      ∃ (index : BlobIndex) (metadata : UnsettledBlobMetadata),self.blobs[index]?=some metadata ∧
        contract∈metadata.blob.blockedContracts := by
  simp only [blockedContracts,List.mem_dedup,List.mem_flatMap,mem_blobValues]
  constructor
  · intro h
    obtain ⟨metadata,⟨index,hi⟩,hc⟩ := h
    exact ⟨index,metadata,hi,hc⟩
  · intro h
    obtain ⟨index,metadata,hi,hc⟩ := h
    exact ⟨metadata,⟨index,hi⟩,hc⟩

/-- After a push, a blob has its old proofs, and the new one if it is the blob of the push. -/
theorem getElem?_pushProof {index : BlobIndex} {proof : ProgramId × HyleOutput} {i : BlobIndex}
    {metadata : UnsettledBlobMetadata}
    (h : (self.pushProof index proof).blobs[i]?=some metadata) :
    ∃ old,self.blobs[i]?=some old ∧ metadata.blob=old.blob ∧
      (metadata.possibleProofs=old.possibleProofs ∨
        i=index ∧ metadata.possibleProofs=old.possibleProofs++[proof]) := by
  unfold pushProof at h
  split at h
  · exact ⟨metadata,h,rfl,Or.inl rfl⟩
  · next old ho =>
    rw [Std.ExtTreeMap.getElem?_insert] at h
    split_ifs at h with heq
    · obtain rfl := Std.LawfulEqOrd.eq_of_compare heq
      obtain rfl := Option.some.inj h
      exact ⟨old,ho,rfl,Or.inr ⟨rfl,rfl⟩⟩
    · exact ⟨metadata,h,rfl,Or.inl rfl⟩

theorem getElem?_of_pushProof {index : BlobIndex} {proof : ProgramId × HyleOutput}
    {i : BlobIndex} {old : UnsettledBlobMetadata} (h : self.blobs[i]?=some old) :
    ∃ metadata,(self.pushProof index proof).blobs[i]?=some metadata ∧
      metadata.blob=old.blob := by
  unfold pushProof
  split
  · exact ⟨old,h,rfl⟩
  · next found hf =>
    rw [Std.ExtTreeMap.getElem?_insert]
    split_ifs with heq
    · obtain rfl := Std.LawfulEqOrd.eq_of_compare heq
      obtain rfl := Option.some.inj (hf.symm.trans h)
      exact ⟨_,rfl,rfl⟩
    · exact ⟨old,h,rfl⟩

theorem mem_blockedContracts_pushProof {index : BlobIndex} {proof : ProgramId × HyleOutput}
    {contract : ContractName} (h : contract∈self.blockedContracts) :
    contract∈(self.pushProof index proof).blockedContracts := by
  obtain ⟨i,old,ho,hc⟩ := self.mem_blockedContracts.mp h
  obtain ⟨metadata,hm,hb⟩ := self.getElem?_of_pushProof ho
  exact (mem_blockedContracts _).mpr ⟨i,metadata,hm,hb ▸ hc⟩

@[simp] theorem hash_pushProof (index : BlobIndex) (proof : ProgramId × HyleOutput) :
    (self.pushProof index proof).hash=self.hash := by
  unfold pushProof
  split <;> rfl

end UnsettledBlobTransaction

/-- The transactions that wait for settlement, and their order for each contract. -/
structure OrderedTxMap where
  map : Std.ExtTreeMap TxHash UnsettledBlobTransaction
  txOrder : Std.ExtTreeMap ContractName (List TxHash)
  hash_eq : ∀ (hash : TxHash) (tx : UnsettledBlobTransaction),map[hash]?=some tx → tx.hash=hash
  /-- A queue holds only hashes of transactions that block its contract. -/
  queued : ∀ contract,∀ hash ∈ txOrder.getD contract [],
    ∃ tx,map[hash]?=some tx ∧ contract∈tx.blockedContracts

namespace OrderedTxMap

def empty : OrderedTxMap where
  map := ∅
  txOrder := ∅
  hash_eq := by simp
  queued := by simp

variable (self : OrderedTxMap)

def get (hash : TxHash) : Option UnsettledBlobTransaction := self.map[hash]?

def getNextUnsettledTx (contract : ContractName) : Option TxHash :=
  (self.txOrder.getD contract []).head?

/-- Whether the transaction is the next to settle for all the contracts of its blobs. -/
def nextForAll (tx : UnsettledBlobTransaction) (hash : TxHash) : Bool :=
  tx.blobValues.all fun metadata =>
    self.getNextUnsettledTx metadata.blob.contractName=some hash

def isNextToSettle (hash : TxHash) : Bool :=
  match self.get hash with
  | some tx => self.nextForAll tx hash
  | none => false

def getForSettlement (hash : TxHash) : Option (UnsettledBlobTransaction × Bool) :=
  (self.get hash).map fun tx => (tx,self.nextForAll tx tx.hash)

section Queues
variable (order : Std.ExtTreeMap ContractName (List TxHash)) (hash : TxHash)

def enqueue (contracts : List ContractName) : Std.ExtTreeMap ContractName (List TxHash) :=
  contracts.foldl (fun order contract =>
    order.insert contract (order.getD contract []++[hash])) order

/-- An empty queue is removed. -/
def dequeueOne (order : Std.ExtTreeMap ContractName (List TxHash)) (contract : ContractName) :
    Std.ExtTreeMap ContractName (List TxHash) :=
  match order[contract]? with
  | none => order
  | some queue =>
      let rest := queue.filter fun h => h≠hash
      if rest=[] then order.erase contract else order.insert contract rest

def dequeue (contracts : List ContractName) : Std.ExtTreeMap ContractName (List TxHash) :=
  contracts.foldl (dequeueOne hash) order

variable {order hash}

theorem mem_enqueue {contracts : List ContractName} {contract : ContractName} {h : TxHash}
    (hm : h∈(enqueue order hash contracts).getD contract []) :
    h∈order.getD contract [] ∨ h=hash ∧ contract∈contracts := by
  induction contracts generalizing order with
  | nil => exact Or.inl hm
  | cons c cs ih =>
    have tail := ih hm
    obtain old|new := tail
    · rw [Std.ExtTreeMap.getD_insert] at old
      split_ifs at old with heq
      · obtain rfl := Std.LawfulEqOrd.eq_of_compare heq
        rw [List.mem_append,List.mem_singleton] at old
        obtain old|rfl := old
        · exact Or.inl old
        · exact Or.inr ⟨rfl,List.mem_cons_self⟩
      · exact Or.inl old
    · exact Or.inr ⟨new.1,List.mem_cons_of_mem c new.2⟩

theorem mem_dequeueOne {c contract : ContractName} {h : TxHash}
    (hm : h∈(dequeueOne hash order c).getD contract []) :
    h∈order.getD contract [] ∧ (contract=c → h≠hash) := by
  unfold dequeueOne at hm
  cases hq : order[c]? with
  | none =>
    simp only [hq] at hm
    refine ⟨hm,?_⟩
    rintro rfl
    simp [Std.ExtTreeMap.getD_eq_getD_getElem?,hq] at hm
  | some queue =>
    simp only [hq] at hm
    split_ifs at hm with hr
    · rw [Std.ExtTreeMap.getD_erase] at hm
      split_ifs at hm with heq
      · simp at hm
      · refine ⟨hm,?_⟩
        rintro rfl
        exact absurd Std.ReflOrd.compare_self heq
    · rw [Std.ExtTreeMap.getD_insert] at hm
      split_ifs at hm with heq
      · obtain rfl := Std.LawfulEqOrd.eq_of_compare heq
        have hf := List.mem_filter.mp hm
        refine ⟨?_,fun _ => by simpa using hf.2⟩
        rw [Std.ExtTreeMap.getD_eq_getD_getElem?,hq]
        exact hf.1
      · refine ⟨hm,?_⟩
        rintro rfl
        exact absurd Std.ReflOrd.compare_self heq

theorem mem_dequeue {contracts : List ContractName} {contract : ContractName} {h : TxHash}
    (hm : h∈(dequeue order hash contracts).getD contract []) :
    h∈order.getD contract [] ∧ (contract∈contracts → h≠hash) := by
  induction contracts generalizing order with
  | nil => exact ⟨hm,by simp⟩
  | cons c cs ih =>
    have tail := ih hm
    have head := mem_dequeueOne tail.1
    refine ⟨head.1,?_⟩
    intro hc
    obtain rfl|hc := List.mem_cons.mp hc
    · exact head.2 rfl
    · exact tail.2 hc

end Queues

/-- The map with the new transaction last in all its queues, and whether it is alone there. -/
def add (tx : UnsettledBlobTransaction) : Option (OrderedTxMap × Bool) :=
  if hn : self.map[tx.hash]?=none then
    let isNext := tx.blockedContracts.all fun contract => self.txOrder.getD contract []=[]
    some ({
      map := self.map.insert tx.hash tx
      txOrder := enqueue self.txOrder tx.hash tx.blockedContracts
      hash_eq := by
        intro hash found hf
        rw [Std.ExtTreeMap.getElem?_insert] at hf
        split_ifs at hf with heq
        · obtain rfl := Option.some.inj hf
          exact Std.LawfulEqOrd.eq_of_compare heq
        · exact self.hash_eq hash found hf
      queued := by
        intro contract hash hm
        obtain old|new := mem_enqueue hm
        · obtain ⟨found,hf,hc⟩ := self.queued contract hash old
          have hne : tx.hash≠hash := by
            rintro rfl
            rw [hn] at hf
            cases hf
          refine ⟨found,?_,hc⟩
          rw [Std.ExtTreeMap.getElem?_insert,if_neg,hf]
          exact fun heq => hne (Std.LawfulEqOrd.eq_of_compare heq)
        · obtain ⟨rfl,hc⟩ := new
          exact ⟨tx,by simp,hc⟩ },isNext)
  else none

/-- The transaction that was there, and the map without it. -/
def remove (hash : TxHash) : Option (UnsettledBlobTransaction × OrderedTxMap) :=
  match ht : self.map[hash]? with
  | none => none
  | some tx => some (tx,{
      map := self.map.erase hash
      txOrder := dequeue self.txOrder tx.hash tx.blockedContracts
      hash_eq := by
        intro h found hf
        rw [Std.ExtTreeMap.getElem?_erase] at hf
        split_ifs at hf
        exact self.hash_eq h found hf
      queued := by
        intro contract h hm
        obtain ⟨old,gone⟩ := mem_dequeue hm
        obtain ⟨found,hf,hc⟩ := self.queued contract h old
        refine ⟨found,?_,hc⟩
        rw [Std.ExtTreeMap.getElem?_erase,if_neg,hf]
        intro heq
        obtain rfl := Std.LawfulEqOrd.eq_of_compare heq
        rw [ht] at hf
        obtain rfl := Option.some.inj hf
        exact gone hc (self.hash_eq hash tx ht).symm })

/-- The transaction with one more proof, if it is there. -/
def pushProof (hash : TxHash) (index : BlobIndex) (proof : ProgramId × HyleOutput) :
    OrderedTxMap :=
  match ht : self.map[hash]? with
  | none => self
  | some tx => {
      map := self.map.insert hash (tx.pushProof index proof)
      txOrder := self.txOrder
      hash_eq := by
        intro h found hf
        rw [Std.ExtTreeMap.getElem?_insert] at hf
        split_ifs at hf with heq
        · obtain rfl := Std.LawfulEqOrd.eq_of_compare heq
          obtain rfl := Option.some.inj hf
          rw [tx.hash_pushProof,self.hash_eq hash tx ht]
        · exact self.hash_eq h found hf
      queued := by
        intro contract h hm
        obtain ⟨found,hf,hc⟩ := self.queued contract h hm
        rw [Std.ExtTreeMap.getElem?_insert]
        split_ifs with heq
        · obtain rfl := Std.LawfulEqOrd.eq_of_compare heq
          obtain rfl := Option.some.inj (ht.symm.trans hf)
          exact ⟨_,rfl,tx.mem_blockedContracts_pushProof hc⟩
        · exact ⟨found,hf,hc⟩ }

variable {self}

theorem add_eq_some {tx : UnsettledBlobTransaction} {next : OrderedTxMap} {isNext : Bool}
    (h : self.add tx=some (next,isNext)) : next.map=self.map.insert tx.hash tx := by
  unfold add at h
  split_ifs at h
  obtain ⟨rfl,_⟩ := Prod.mk.inj (Option.some.inj h)
  rfl

theorem remove_eq_some {hash : TxHash} {tx : UnsettledBlobTransaction} {next : OrderedTxMap}
    (h : self.remove hash=some (tx,next)) :
    self.map[hash]?=some tx ∧ next.map=self.map.erase hash := by
  unfold remove at h
  split at h
  · cases h
  · next found hf =>
    obtain ⟨rfl,rfl⟩ := Prod.mk.inj (Option.some.inj h)
    exact ⟨hf,rfl⟩

theorem getElem?_pushProof {hash : TxHash} {index : BlobIndex}
    {proof : ProgramId × HyleOutput} {h : TxHash} {tx : UnsettledBlobTransaction}
    (ht : (self.pushProof hash index proof).map[h]?=some tx) :
    self.map[h]?=some tx ∨ h=hash ∧ ∃ old,self.map[h]?=some old ∧ tx=old.pushProof index proof := by
  unfold pushProof at ht
  split at ht
  · exact Or.inl ht
  · next old ho =>
    rw [Std.ExtTreeMap.getElem?_insert] at ht
    split_ifs at ht with heq
    · obtain rfl := Std.LawfulEqOrd.eq_of_compare heq
      exact Or.inr ⟨rfl,old,ho,(Option.some.inj ht).symm⟩
    · exact Or.inl ht

theorem exists_of_getNextUnsettledTx {contract : ContractName} {hash : TxHash}
    (h : self.getNextUnsettledTx contract=some hash) : ∃ tx,self.map[hash]?=some tx := by
  obtain ⟨tx,ht,_⟩ := self.queued contract hash (List.mem_of_head? h)
  exact ⟨tx,ht⟩

theorem exists_remove {hash : TxHash} {tx : UnsettledBlobTransaction}
    (h : self.map[hash]?=some tx) : ∃ next,self.remove hash=some (tx,next) := by
  unfold remove
  split
  · next hn =>
    rw [hn] at h
    cases h
  · next found hf =>
    obtain rfl := Option.some.inj (hf.symm.trans h)
    exact ⟨_,rfl⟩

/-- Removes the transactions of a contract in order, at most the given number of them. -/
def takeQueue (contract : ContractName) :
    Nat → OrderedTxMap → List UnsettledBlobTransaction × OrderedTxMap
  | 0,self => ([],self)
  | fuel+1,self =>
      match (self.getNextUnsettledTx contract).bind self.remove with
      | none => ([],self)
      | some (tx,next) =>
          let (txs,last) := takeQueue contract fuel next
          (tx::txs,last)

/-- Every transaction that a queue holds at some moment is removed from it. -/
def removeAll (self : OrderedTxMap) (contract : ContractName) :
    List UnsettledBlobTransaction × OrderedTxMap :=
  takeQueue contract self.map.size self

theorem size_remove {hash : TxHash} {tx : UnsettledBlobTransaction} {next : OrderedTxMap}
    (h : self.remove hash=some (tx,next)) : next.map.size<self.map.size := by
  obtain ⟨ht,hm⟩ := remove_eq_some h
  have found : self.map.contains hash=true := by
    rw [Std.ExtTreeMap.contains_eq_isSome_getElem?,ht]
    rfl
  have pos : self.map.size≠0 := by
    intro hz
    have he : self.map=∅ := Std.ExtTreeMap.eq_empty_iff_size_eq_zero.mpr hz
    rw [he] at found
    simp at found
  rw [hm,Std.ExtTreeMap.size_erase,if_pos found]
  omega

theorem getNextUnsettledTx_takeQueue {contract : ContractName} {fuel : Nat}
    (hf : self.map.size≤fuel) :
    (takeQueue contract fuel self).2.getNextUnsettledTx contract=none := by
  induction fuel generalizing self with
  | zero =>
    cases hn : self.getNextUnsettledTx contract with
    | none => exact hn
    | some hash =>
      obtain ⟨tx,ht⟩ := exists_of_getNextUnsettledTx hn
      obtain ⟨next,hr⟩ := exists_remove ht
      have hs := size_remove hr
      omega
  | succ fuel ih =>
    cases hn : self.getNextUnsettledTx contract with
    | none => simp [takeQueue,hn]
    | some hash =>
      obtain ⟨tx,ht⟩ := exists_of_getNextUnsettledTx hn
      obtain ⟨next,hr⟩ := exists_remove ht
      have hs := size_remove hr
      have rest : (takeQueue contract fuel next).2.getNextUnsettledTx contract=none :=
        ih (by omega)
      simpa [takeQueue,hn,hr] using rest

/-- The removal stops only when the queue of the contract is empty. -/
theorem getNextUnsettledTx_removeAll (contract : ContractName) :
    (self.removeAll contract).2.getNextUnsettledTx contract=none :=
  getNextUnsettledTx_takeQueue le_rfl

end OrderedTxMap

end TruthSeeker
