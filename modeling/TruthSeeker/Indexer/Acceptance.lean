import TruthSeeker.Indexer.Batching
import TruthSeeker.NodeState.LocatedTxs

namespace TruthSeeker.Indexing

/-- The numbers of the block fit the columns. -/
structure Fits (block : Block) : Prop where
  height : (toI64 block.blockHeight.toNat).isSome=true
  outputs : ∀ output ∈ block.blobProofOutputs,(toI32 output.blobIndex.toNat).isSome=true ∧
    (toI32 output.blobProofOutputIndex).isSome=true
  verified : ∀ entry ∈ block.verifiedBlobs,(toI32 entry.2.1.toNat).isSome=true ∧
    ∀ index ∈ entry.2.2,(toI32 index).isSome=true

instance (block : Block) : Decidable (Fits block) :=
  decidable_of_iff ((toI64 block.blockHeight.toNat).isSome=true ∧
      (∀ output ∈ block.blobProofOutputs,(toI32 output.blobIndex.toNat).isSome=true ∧
        (toI32 output.blobProofOutputIndex).isSome=true) ∧
      ∀ entry ∈ block.verifiedBlobs,(toI32 entry.2.1.toNat).isSome=true ∧
        ∀ index ∈ entry.2.2,(toI32 index).isSome=true)
    ⟨fun ⟨height,outputs,verified⟩ => ⟨height,outputs,verified⟩,
      fun h => ⟨h.height,h.outputs,h.verified⟩⟩

/-- A block is complete if it locates what it names. -/
theorem complete_of_locates {block : Block} (hf : Fits block)
    (hl : ∀ hash ∈ block.namedTxs,block.Locates hash) : Complete block := by
  have named : ∀ {hash : TxHash},hash∈block.namedTxs →
      (block.dpParentHashes[hash]?).isSome=true := fun hm => (hl _ hm).1
  simp only [BlockUnderConstruction.namedTxs,List.mem_append,List.mem_flatMap,List.mem_map]
    at named
  refine ⟨hf.height,?_,?_,?_,?_,?_⟩
  · intro entry hm
    refine named (.inl (.inl (.inl (.inl (.inl (.inl ?_))))))
    rw [← Std.ExtTreeMap.map_fst_toList_eq_keys]
    exact List.mem_map_of_mem hm
  · intro hash hm
    simp only [List.mem_append] at hm
    obtain (hm|hm)|hm := hm <;> exact named (by simp [hm])
  · intro output hm
    obtain ⟨index,outputIndex⟩ := hf.outputs output hm
    exact ⟨named (.inl (.inl (.inr ⟨output,hm,by simp⟩))),
      named (.inl (.inl (.inr ⟨output,hm,by simp⟩))),index,outputIndex⟩
  · intro entry hm
    obtain ⟨index,outputIndex⟩ := hf.verified entry hm
    exact ⟨named (.inl (.inr ⟨entry,hm,rfl⟩)),index,outputIndex⟩
  · intro entry hm
    exact named (.inr ⟨entry,hm,rfl⟩)

/-- The indexer never rejects a block of the node: the block locates all that it names, and with
numbers that fit it is noted to its end. -/
theorem accepts_every_block {env : Environment} {store next : NodeStateStore}
    {signedBlock : SignedBlock} {block : Block}
    (h : NodeState.handleSignedBlock env store signedBlock=(next,.ok block)) :
    (∀ hash ∈ block.namedTxs,block.Locates hash) ∧
      (Fits block → ∀ indexer,(handleProcessedBlock block indexer).1=.ok ()) := by
  have located := NodeState.locates_namedTxs h
  refine ⟨located,?_⟩
  intro fits indexer
  obtain ⟨_,after,done⟩ := (complete_of_locates fits located).handleProcessedBlock indexer
  rw [done]

open Versions in
theorem accepts_first_block :
    ∃ block,(NodeState.handleSignedBlock env NodeStateStore.default (signedBlock 1 "" 1)).2=
        .ok block ∧ block.namedTxs≠[] ∧ (∀ hash ∈ block.namedTxs,block.Locates hash) ∧
      ∀ indexer,(handleProcessedBlock block indexer).1=.ok () := by
  rcases he : NodeState.handleSignedBlock env NodeStateStore.default (signedBlock 1 "" 1)
    with ⟨next,result⟩
  have found : ∃ block ∈ (NodeState.handleSignedBlock env NodeStateStore.default
      (signedBlock 1 "" 1)).2.toOption,block.namedTxs≠[] ∧ Fits block := by decide +kernel
  obtain ⟨block,hb,some,fits⟩ := found
  rw [he] at hb
  cases result with
  | error e => cases hb
  | ok result =>
    obtain rfl := Option.some.inj hb
    obtain ⟨located,accepted⟩ := accepts_every_block he
    exact ⟨result,rfl,some,located,accepted fits⟩

end TruthSeeker.Indexing
