import Mathlib.Data.Finset.Lattice.Lemmas
import TruthSeeker.Indexer.Dump

namespace TruthSeeker.Indexing

namespace IndexerHandlerStore

/-- The store with what was noted later. -/
def append (store later : IndexerHandlerStore) : IndexerHandlerStore where
  blocks := store.blocks++later.blocks
  blockTxs := later.blockTxs∪store.blockTxs
  txData := store.txData++later.txData
  txDataProofs := store.txDataProofs++later.txDataProofs
  transactionsEvents := store.transactionsEvents++later.transactionsEvents
  sqlUpdates := store.sqlUpdates++later.sqlUpdates
  contracts := later.contracts∪store.contracts
  contractStates := store.contractStates++later.contractStates
  deletedContracts :=
    (store.deletedContracts\later.contracts.keys.toFinset)∪later.deletedContracts
  blobProofOutputs := store.blobProofOutputs++later.blobProofOutputs

theorem default_append (store : IndexerHandlerStore) : IndexerHandlerStore.default.append store=
    store := by
  simp [append,IndexerHandlerStore.default]

/-- What the store holds of a single block. -/
structure Of (block : Block) (store : IndexerHandlerStore) : Prop where
  txs : ∀ tx entry,store.blockTxs.lookup tx=some entry → entry.2.1=block
  states : ∀ state ∈ store.contractStates,state.blockHash=block.hash
  updates : ∀ name blockHash state,SqlUpdate.contractState name blockHash state∈store.sqlUpdates →
    blockHash=block.hash
  contracts : ∀ name ∈ store.contracts,
    ∃ registered ∈ block.registeredContracts.toList,registered.2.2.1.contractName=name

end IndexerHandlerStore

open IndexerHandlerStore

/-- A call that notes the same of the block whatever is in the store. -/
structure Notes {α : Type} (block : Block) (call : Handler IndexerHandlerStore α) : Prop where
  append : ∀ store later : IndexerHandlerStore,
    call (store.append later)=((call later).1,store.append (call later).2)
  blocks : ∀ later,(call later).2.blocks=later.blocks
  of : ∀ later : IndexerHandlerStore,later.Of block → (call later).2.Of block

namespace Notes

variable {α β : Type} {block : Block} {call : Handler IndexerHandlerStore α}
  {next : α → Handler IndexerHandlerStore β}

theorem lift (x : Outcome α) : Notes block (Handler.lift x) :=
  ⟨fun _ _ => rfl,fun _ => rfl,fun _ h => h⟩

theorem bind (h : Notes block call) (hn : ∀ a,Notes block (next a)) :
    Notes block (call >>= next) := by
  constructor
  · intro store later
    rw [Handler.bind_apply,Handler.bind_apply,h.append]
    rcases hc : call later with ⟨_ | a,middle⟩
    · rfl
    · exact (hn a).append store middle
  · intro later
    have before := h.blocks later
    rw [Handler.bind_apply]
    rcases hc : call later with ⟨_ | a,middle⟩
    · rwa [hc] at before
    · rw [hc] at before
      exact ((hn a).blocks middle).trans before
  · intro later ho
    have before := h.of later ho
    rw [Handler.bind_apply]
    rcases hc : call later with ⟨_ | a,middle⟩
    · rwa [hc] at before
    · rw [hc] at before
      exact (hn a).of middle before

theorem forM {xs : List β} {note : β → Handler IndexerHandlerStore Unit}
    (h : ∀ x ∈ xs,Notes block (note x)) : Notes block (xs.forM note) := by
  induction xs with
  | nil => exact lift (.ok ())
  | cons x xs ih =>
    exact bind (h x List.mem_cons_self) fun _ => ih fun x hx => h x (List.mem_cons_of_mem _ hx)

theorem located (what : String) (txHash : TxHash) :
    Notes block (Indexing.located block what txHash) := by
  unfold Indexing.located
  split
  · exact lift (.ok _)
  · exact lift _

theorem blobIndexDb (index : BlobIndex) : Notes block (Indexing.blobIndexDb index) := by
  unfold Indexing.blobIndexDb
  split
  · exact lift (.ok _)
  · exact lift _

theorem outputIndexDb (index : Nat) : Notes block (Indexing.outputIndexDb index) := by
  unfold Indexing.outputIndexDb
  split
  · exact lift (.ok _)
  · exact lift _

theorem blockHeightDb : Notes block (Indexing.blockHeightDb block) := by
  unfold Indexing.blockHeightDb
  split
  · exact lift (.ok _)
  · exact lift _

/-- Some updates, and those of the states of contracts are for the block. -/
theorem pushUpdates {updates : List SqlUpdate}
    (h : ∀ name blockHash state,SqlUpdate.contractState name blockHash state∈updates →
      blockHash=block.hash) :
    Notes block (Handler.modify fun store : IndexerHandlerStore =>
      { store with sqlUpdates := store.sqlUpdates++updates }) := by
  constructor
  · intro store later
    simp [Handler.modify,IndexerHandlerStore.append]
  · exact fun _ => rfl
  · intro later ho
    refine ⟨ho.txs,ho.states,?_,ho.contracts⟩
    intro name blockHash state hm
    obtain hm|hm := List.mem_append.mp hm
    · exact ho.updates name blockHash state hm
    · exact h name blockHash state hm

theorem pushUpdate {update : SqlUpdate}
    (h : ∀ name blockHash state,SqlUpdate.contractState name blockHash state≠update) :
    Notes block (Indexing.pushUpdate update) :=
  pushUpdates fun _ _ _ hm => absurd (List.mem_singleton.mp hm) (h _ _ _)

theorem noteTx (entry : (TxId × Transaction) × Nat) :
    Notes block (Indexing.noteTx block entry) := by
  obtain ⟨⟨tx,version,data⟩,index⟩ := entry
  constructor
  · intro store later
    cases data <;>
      simp [Indexing.noteTx,Handler.modify,insertTxData,IndexerHandlerStore.append,
        AList.insert_union]
  · intro later
    cases data <;> rfl
  · intro later ho
    have txs : ∀ other found,(later.blockTxs.insert tx (index,block,⟨version,data⟩)).lookup
        other=some found → found.2.1=block := by
      intro other found hf
      by_cases same : other=tx
      · subst same
        rw [AList.lookup_insert] at hf
        obtain rfl := Option.some.inj hf
        rfl
      · rw [AList.lookup_insert_ne same] at hf
        exact ho.txs other found hf
    cases data <;> exact ⟨txs,ho.states,ho.updates,ho.contracts⟩

theorem noteEvents (height : Nat) (entry : (TxHash × List TransactionStateEvent) × Nat) :
    Notes block (Indexing.noteEvents block height entry) := by
  refine bind (located _ _) fun tx => ?_
  constructor
  · intro store later
    simp [Handler.modify,IndexerHandlerStore.append]
  · exact fun _ => rfl
  · exact fun _ ho => ⟨ho.txs,ho.states,ho.updates,ho.contracts⟩

theorem noteStatus (what : String) (status : SettledStatus) (txHash : TxHash) :
    Notes block (Indexing.noteStatus block what status txHash) :=
  bind (located _ _) fun _ => pushUpdate (by simp)

theorem noteBlobProofOutput (handled : HandledBlobProofOutput) :
    Notes block (Indexing.noteBlobProofOutput block handled) := by
  refine bind (located _ _) fun proofTx => bind (located _ _) fun blobTx =>
    bind (blobIndexDb _) fun blobIndex => bind (outputIndexDb _) fun outputIndex => ?_
  constructor
  · intro store later
    simp [Handler.modify,IndexerHandlerStore.append]
  · exact fun _ => rfl
  · exact fun _ ho => ⟨ho.txs,ho.states,ho.updates,ho.contracts⟩

theorem noteVerifiedBlob (verified : TxHash × BlobIndex × Option Nat) :
    Notes block (Indexing.noteVerifiedBlob block verified) := by
  refine bind (located _ _) fun tx => bind (blobIndexDb _) fun blobIndex =>
    bind (pushUpdate (by simp)) fun _ => ?_
  split
  · exact lift (.ok ())
  · exact bind (outputIndexDb _) fun _ => pushUpdate (by simp)

theorem noteRegistered {registered : ContractName × TxHash × RegisterContractEffect × Option Bytes}
    (h : registered∈block.registeredContracts.toList) :
    Notes block (Indexing.noteRegistered block registered.2) := by
  refine bind (located _ _) fun tx => ?_
  constructor
  · intro store later
    simp only [Handler.modify,IndexerHandlerStore.append,AList.insert_union,List.append_assoc]
    congr 2
    ext name
    simp only [Finset.mem_erase,Finset.mem_union,Finset.mem_sdiff,List.mem_toFinset,
      ← AList.mem_keys,AList.mem_insert]
    tauto
  · exact fun _ => rfl
  · intro later ho
    refine ⟨ho.txs,?_,ho.updates,?_⟩
    · intro state hm
      obtain hm|hm := List.mem_append.mp hm
      · exact ho.states state hm
      · rw [List.mem_singleton.mp hm]
    · intro name hm
      obtain rfl|hm := (AList.mem_insert _).mp hm
      · exact ⟨registered,h,rfl⟩
      · exact ho.contracts name hm

theorem contractUpdates {name : ContractName} {blockHash : ConsensusProposalHash}
    {state : StateCommitment}
    (h : SqlUpdate.contractState name blockHash state∈Indexing.contractUpdates block) :
    blockHash=block.hash := by
  simp only [Indexing.contractUpdates,List.mem_append,List.mem_flatMap,List.mem_map] at h
  obtain (⟨p,_,hp⟩|⟨p,_,hp⟩)|⟨p,_,hp⟩ := h
  · simp at hp
    exact hp.2.1
  · cases hp
  · cases hp

theorem noteContracts : Notes block (Indexing.noteContracts block) := by
  refine bind (forM ?_) fun _ => ?_
  · intro registered hm
    obtain ⟨entry,listed,rfl⟩ := List.mem_map.mp hm
    exact noteRegistered listed
  · constructor
    · intro store later
      simp [Handler.modify,IndexerHandlerStore.append]
    · exact fun _ => rfl
    · exact fun later ho => ⟨ho.txs,ho.states,((pushUpdates fun _ _ _ => contractUpdates).of
        later ho).updates,ho.contracts⟩

theorem noteTxs : Notes block (Indexing.noteTxs block) :=
  bind blockHeightDb fun height => bind (forM fun entry _ => noteTx entry) fun _ =>
    bind (forM fun entry _ => noteEvents height entry) fun _ =>
    bind (forM fun _ _ => noteStatus _ _ _) fun _ => bind (forM fun _ _ => noteStatus _ _ _)
    fun _ => bind (forM fun _ _ => noteStatus _ _ _) fun _ =>
    bind (forM fun handled _ => noteBlobProofOutput handled) fun _ =>
      forM fun verified _ => noteVerifiedBlob verified

end Notes

/-- What a block adds to the store. -/
def IndexerHandlerStore.ofBlock (block : Block) : IndexerHandlerStore :=
  (handleProcessedBlock block .default).2

section Handled
variable {block : Block}

theorem notes_rest : Notes block (noteTxs block >>= fun _ => noteContracts block) :=
  Notes.noteTxs.bind fun _ => Notes.noteContracts

theorem handleProcessedBlock_append (store : IndexerHandlerStore) :
    (handleProcessedBlock block store).2=store.append (ofBlock block) := by
  let pushed : IndexerHandlerStore := { IndexerHandlerStore.default with blocks := [block] }
  have added : store.append pushed={ store with blocks := store.blocks++[block] } := by
    simp [pushed,IndexerHandlerStore.append,IndexerHandlerStore.default]
  have noted : Notes block _ := notes_rest
  have rest := congrArg Prod.snd (noted.append store pushed)
  rw [added] at rest
  exact rest

theorem blocks_ofBlock : (ofBlock block).blocks=[block] :=
  notes_rest.blocks { IndexerHandlerStore.default with blocks := [block] }

theorem of_ofBlock : (ofBlock block).Of block := by
  refine notes_rest.of { IndexerHandlerStore.default with blocks := [block] } ⟨?_,?_,?_,?_⟩
  · intro tx entry hf
    simp [IndexerHandlerStore.default] at hf
  · simp [IndexerHandlerStore.default]
  · simp [IndexerHandlerStore.default]
  · simp [IndexerHandlerStore.default]

end Handled

/-- The block locates all transactions that it names, and its numbers fit the columns. -/
structure Complete (block : Block) : Prop where
  height : (toI64 block.blockHeight.toNat).isSome=true
  events : ∀ entry ∈ block.transactionsEvents.toList,(block.dpParentHashes[entry.1]?).isSome=true
  txs : ∀ txHash ∈ block.successfulTxs++block.failedTxs++block.timedOutTxs,
    (block.dpParentHashes[txHash]?).isSome=true
  outputs : ∀ output ∈ block.blobProofOutputs,
    (block.dpParentHashes[output.proofTxHash]?).isSome=true ∧
      (block.dpParentHashes[output.blobTxHash]?).isSome=true ∧
      (toI32 output.blobIndex.toNat).isSome=true ∧
        (toI32 output.blobProofOutputIndex).isSome=true
  verified : ∀ entry ∈ block.verifiedBlobs,(block.dpParentHashes[entry.1]?).isSome=true ∧
    (toI32 entry.2.1.toNat).isSome=true ∧ ∀ index ∈ entry.2.2,(toI32 index).isSome=true
  registered : ∀ entry ∈ block.registeredContracts.toList,
    (block.dpParentHashes[entry.2.1]?).isSome=true

instance (block : Block) : Decidable (Complete block) :=
  decidable_of_iff ((toI64 block.blockHeight.toNat).isSome=true ∧
      (∀ entry ∈ block.transactionsEvents.toList,
        (block.dpParentHashes[entry.1]?).isSome=true) ∧
      (∀ txHash ∈ block.successfulTxs++block.failedTxs++block.timedOutTxs,
        (block.dpParentHashes[txHash]?).isSome=true) ∧
      (∀ output ∈ block.blobProofOutputs,
        (block.dpParentHashes[output.proofTxHash]?).isSome=true ∧
          (block.dpParentHashes[output.blobTxHash]?).isSome=true ∧
            (toI32 output.blobIndex.toNat).isSome=true ∧
              (toI32 output.blobProofOutputIndex).isSome=true) ∧
      (∀ entry ∈ block.verifiedBlobs,(block.dpParentHashes[entry.1]?).isSome=true ∧
        (toI32 entry.2.1.toNat).isSome=true ∧ ∀ index ∈ entry.2.2,(toI32 index).isSome=true) ∧
      ∀ entry ∈ block.registeredContracts.toList,(block.dpParentHashes[entry.2.1]?).isSome=true)
    ⟨fun ⟨height,events,txs,outputs,verified,registered⟩ =>
        ⟨height,events,txs,outputs,verified,registered⟩,
      fun h => ⟨h.height,h.events,h.txs,h.outputs,h.verified,h.registered⟩⟩

namespace Complete

variable {block : Block}

theorem located {what : String} {txHash : TxHash}
    (h : (block.dpParentHashes[txHash]?).isSome=true) :
    (Indexing.located block what txHash).Succeeds := by
  obtain ⟨parentHash,hp⟩ := Option.isSome_iff_exists.mp h
  simp only [Indexing.located,hp]
  exact .pure _

theorem blobIndexDb {index : BlobIndex} (h : (toI32 index.toNat).isSome=true) :
    (Indexing.blobIndexDb index).Succeeds := by
  obtain ⟨column,hc⟩ := Option.isSome_iff_exists.mp h
  simp only [Indexing.blobIndexDb,hc]
  exact .pure _

theorem outputIndexDb {index : Nat} (h : (toI32 index).isSome=true) :
    (Indexing.outputIndexDb index).Succeeds := by
  obtain ⟨column,hc⟩ := Option.isSome_iff_exists.mp h
  simp only [Indexing.outputIndexDb,hc]
  exact .pure _

theorem noteStatuses {what : String} {status : SettledStatus} {txs : List TxHash}
    (h : ∀ txHash ∈ txs,(block.dpParentHashes[txHash]?).isSome=true) :
    (txs.forM (noteStatus block what status)).Succeeds :=
  .forM fun txHash hm => .bind (located (h txHash hm)) fun _ => .modify _

theorem noteVerifiedBlob {verified : TxHash × BlobIndex × Option Nat} (h : Complete block)
    (hm : verified∈block.verifiedBlobs) :
    (Indexing.noteVerifiedBlob block verified).Succeeds := by
  obtain ⟨found,index,outputs⟩ := h.verified verified hm
  refine .bind (located found) fun _ => .bind (blobIndexDb index) fun _ =>
    .bind (.modify _) fun _ => ?_
  split
  · exact .pure ()
  · next index hi => exact .bind (outputIndexDb (outputs index hi)) fun _ => .modify _

theorem noteTxs (h : Complete block) : (Indexing.noteTxs block).Succeeds := by
  have height : (blockHeightDb block).Succeeds := by
    obtain ⟨column,hc⟩ := Option.isSome_iff_exists.mp h.height
    simp only [blockHeightDb,hc]
    exact .pure _
  have events : ∀ height,(block.transactionsEvents.toList.zipIdx.forM
      (noteEvents block height)).Succeeds := by
    intro height
    refine .forM fun entry hm => .bind (located ?_) fun _ => .modify _
    exact h.events entry.1 (List.fst_mem_of_mem_zipIdx hm)
  have outputs : (block.blobProofOutputs.forM (noteBlobProofOutput block)).Succeeds := by
    refine .forM fun output hm => ?_
    obtain ⟨proof,blob,index,outputIndex⟩ := h.outputs output hm
    exact .bind (located proof) fun _ => .bind (located blob) fun _ =>
      .bind (blobIndexDb index) fun _ => .bind (outputIndexDb outputIndex) fun _ => .modify _
  have statuses := h.txs
  simp only [List.mem_append,or_imp,forall_and] at statuses
  exact .bind height fun height => .bind (.forM fun _ _ => .modify _) fun _ =>
    .bind (events height) fun _ => .bind (noteStatuses statuses.1.1) fun _ =>
    .bind (noteStatuses statuses.1.2) fun _ => .bind (noteStatuses statuses.2) fun _ =>
    .bind outputs fun _ => .forM fun _ hm => h.noteVerifiedBlob hm

theorem noteRegistered (h : Complete block) :
    ((block.registeredContracts.toList.map Prod.snd).forM
      (Indexing.noteRegistered block)).Succeeds := by
  refine .forM fun registered hm => ?_
  obtain ⟨entry,listed,rfl⟩ := List.mem_map.mp hm
  exact .bind (located (h.registered entry listed)) fun _ => .modify _

/-- A complete block is noted as a whole, whatever is in the store. -/
theorem handleProcessedBlock (h : Complete block) :
    (Indexing.handleProcessedBlock block).Succeeds :=
  .bind (.modify _) fun _ => .bind h.noteTxs fun _ => .bind h.noteRegistered fun _ => .modify _

/-- The contract updates of a complete block reach the store. -/
theorem mem_sqlUpdates (h : Complete block) {update : SqlUpdate}
    (hu : update∈contractUpdates block) : update∈(ofBlock block).sqlUpdates := by
  obtain ⟨_,noted,ht⟩ := h.noteTxs { IndexerHandlerStore.default with blocks := [block] }
  obtain ⟨_,registered,hr⟩ := h.noteRegistered noted
  have ends : ofBlock block={ registered with
      deletedContracts := registered.deletedContracts∪block.deletedContracts.keys.toFinset
      sqlUpdates := registered.sqlUpdates++contractUpdates block } := by
    have contracts : noteContracts block noted=(.ok (),_) := Handler.bind_of_ok hr
    have handled : (Indexing.noteTxs block >>= fun _ => noteContracts block) _=_ :=
      Handler.bind_of_ok ht
    exact congrArg Prod.snd (handled.trans contracts)
  rw [ends]
  exact List.mem_append_right _ hu

end Complete

end TruthSeeker.Indexing
