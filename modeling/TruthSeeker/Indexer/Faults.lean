import Mathlib.Data.Finset.Card
import TruthSeeker.Indexer.Batching

namespace TruthSeeker.Indexing

def calculateOptimalBatchSize (paramsPerItem : Nat) : Nat :=
  let maxParams := 65000
  if paramsPerItem=0 then 1 else max 1 (maxParams/paramsPerItem)

/-- The statements for some items, none for an empty buffer. -/
def batches (paramsPerItem items : Nat) : Nat :=
  let size := calculateOptimalBatchSize paramsPerItem
  (items+size-1)/size

section Calls
variable (fromTimestampMillis : Nat → Option DateTime) (now : DateTime)

/-- The statements that each stage sends. -/
def calls : List (Stage × (IndexerHandlerStore → Nat)) :=
  [(insertingBlocks fromTimestampMillis now,
      fun store => if store.blocks.isEmpty then 0 else 1),
    (insertingTransactions,fun store => batches 10 store.blockTxs.entries.length),
    (insertingBlobs,fun store => batches 7 store.txData.length+batches 3 store.txData.length),
    (insertingProofs,fun store => batches 3 store.txDataProofs.length),
    (insertingEvents,fun store => batches 6 store.transactionsEvents.length),
    (insertingContracts,fun store => batches 6 store.contracts.entries.length),
    (insertingContractStates,fun store => batches 3 store.contractStates.length),
    (deletingContracts,fun store => store.deletedContracts.card),
    (insertingBlobProofOutputs,fun store => batches 9 store.blobProofOutputs.length),
    (executingUpdates,fun store => store.sqlUpdates.length)]

theorem map_fst_calls : (calls fromTimestampMillis now).map Prod.fst=stages fromTimestampMillis now :=
  rfl

end Calls

/-- The statement of the given number fails for a reason outside of the tables, the commit being
the last one. A buffer is taken as a whole before the first statement that needs it, and a loop
over a drained one drops the rest of it. -/
def runUntil : List (Stage × (IndexerHandlerStore → Nat)) → Nat → IndexerHandlerStore → Db →
    IndexerHandlerStore × Option Db
  | [],point,store,db => (store,if point=0 then none else some db)
  | (stage,calls)::rest,point,store,db =>
      if point<calls store then (stage.drain store,none)
      else
        match stage.execute store db with
        | some next => runUntil rest (point-calls store) (stage.drain store) next
        | none => (stage.drain store,none)

namespace Indexer
variable (fromTimestampMillis : Nat → Option DateTime)

/-- A dump during which one call to the database fails, the first call being the one that begins
the transaction. An error comes with the indexer that it leaves. -/
def dumpFailingAt (point : Nat) (now : DateTime) (self : Indexer) : Except Indexer Indexer :=
  if self.handlerStore.blocks.isEmpty then .ok self
  else
    match point with
    | 0 => .error self
    | point+1 =>
      match runUntil (calls fromTimestampMillis now) point self.handlerStore self.db with
      | (store,some db) => .ok ⟨db,store⟩
      | (store,none) => .error ⟨self.db,store⟩

/-- What is there after a dump, which the caller goes on with in any case. -/
def left : Except Indexer Indexer → Indexer
  | .ok self => self
  | .error self => self

end Indexer

section Runs
variable {fromTimestampMillis : Nat → Option DateTime} {now : DateTime} {self after : Indexer}
  {point : Nat}

/-- A run that ends before the failing call is one without failures. -/
theorem exists_runUntil_eq (list : List (Stage × (IndexerHandlerStore → Nat)))
    (store : IndexerHandlerStore) (db : Db) :
    ∃ bound,∀ point,bound≤point →
      runUntil list point store db=runStages (list.map Prod.fst) store db := by
  induction list generalizing store db with
  | nil =>
    refine ⟨1,?_⟩
    intro point hp
    have later : point≠0 := by omega
    rw [runUntil,if_neg later]
    rfl
  | cons head rest ih =>
    obtain ⟨stage,calls⟩ := head
    cases he : stage.execute store db with
    | none =>
      refine ⟨calls store,?_⟩
      intro point hp
      have later : ¬point<calls store := by omega
      simp only [runUntil,if_neg later,List.map_cons,runStages,he]
    | some next =>
      obtain ⟨bound,hb⟩ := ih (stage.drain store) next
      refine ⟨calls store+bound,?_⟩
      intro point hp
      have later : ¬point<calls store := by omega
      have rest := hb (point-calls store) (by omega)
      simp only [runUntil,if_neg later,List.map_cons,runStages,he,rest]

/-- Without a failing call the dump is the one that only refused statements end. -/
theorem exists_dumpFailingAt_eq (fromTimestampMillis : Nat → Option DateTime) (now : DateTime)
    (self : Indexer) :
    ∃ bound,∀ point,bound≤point →
      .left (self.dumpFailingAt fromTimestampMillis point now)=
        self.dumpStoreToDb fromTimestampMillis now := by
  obtain ⟨bound,hb⟩ := exists_runUntil_eq (calls fromTimestampMillis now) self.handlerStore self.db
  refine ⟨bound+1,?_⟩
  intro point hp
  obtain ⟨before,rfl⟩ : ∃ before,point=before+1 := ⟨point-1,by omega⟩
  rw [Indexer.dumpFailingAt,Indexer.dumpStoreToDb,hb before (by omega),map_fst_calls]
  split
  · rfl
  · rcases runStages (stages fromTimestampMillis now) self.handlerStore self.db with ⟨store,_|db⟩
    · rfl
    · rfl

/-- No stage puts a block back. -/
theorem drain_blocks {call : Stage × (IndexerHandlerStore → Nat)}
    (h : call ∈ calls fromTimestampMillis now) (store : IndexerHandlerStore) :
    (call.1.drain store).blocks=[] ∨ (call.1.drain store).blocks=store.blocks := by
  simp only [calls,List.mem_cons,List.not_mem_nil,or_false] at h
  rcases h with rfl|rfl|rfl|rfl|rfl|rfl|rfl|rfl|rfl|rfl
  · exact .inl rfl
  all_goals exact .inr rfl

/-- A stage drains its buffer in any case, and the run ends there or goes on. -/
theorem runUntil_cons (stage : Stage) (calls : IndexerHandlerStore → Nat)
    (rest : List (Stage × (IndexerHandlerStore → Nat))) (point : Nat)
    (store : IndexerHandlerStore) (db : Db) :
    runUntil ((stage,calls)::rest) point store db=(stage.drain store,none) ∨
      ∃ later next,runUntil ((stage,calls)::rest) point store db=
        runUntil rest later (stage.drain store) next := by
  rw [runUntil]
  split
  · exact .inl rfl
  · split
    · exact .inr ⟨_,_,rfl⟩
    · exact .inl rfl

theorem blocks_runUntil {list : List (Stage × (IndexerHandlerStore → Nat))}
    (hl : ∀ call ∈ list,call ∈ calls fromTimestampMillis now) {store : IndexerHandlerStore}
    (hs : store.blocks=[]) (point : Nat) (db : Db) :
    (runUntil list point store db).1.blocks=[] := by
  induction list generalizing store point db with
  | nil => exact hs
  | cons head rest ih =>
    have drained : (head.1.drain store).blocks=[] := by
      obtain empty|same := drain_blocks (hl _ List.mem_cons_self) store
      · exact empty
      · exact same.trans hs
    obtain ends|⟨later,next,goes⟩ := runUntil_cons head.1 head.2 rest point store db
    · exact (congrArg (fun result => result.1.blocks) ends).trans drained
    · have tail := ih (fun call hc => hl call (List.mem_cons_of_mem _ hc)) drained later next
      exact (congrArg (fun result => result.1.blocks) goes).trans tail

/-- The blocks are taken by the first statement. -/
theorem blocks_runUntil_calls (point : Nat) (store : IndexerHandlerStore) (db : Db) :
    (runUntil (calls fromTimestampMillis now) point store db).1.blocks=[] := by
  have cut : calls fromTimestampMillis now=
      (insertingBlocks fromTimestampMillis now,_)::(calls fromTimestampMillis now).tail := rfl
  rw [cut]
  obtain ends|⟨later,next,goes⟩ := runUntil_cons (insertingBlocks fromTimestampMillis now) _
    (calls fromTimestampMillis now).tail point store db
  · rw [ends]
    rfl
  · rw [goes]
    exact blocks_runUntil (fun call hc => List.mem_of_mem_tail hc) rfl later next

/-- An error leaves either everything, or a store without blocks. The tables stay. -/
theorem dumpFailingAt_eq_error
    (h : self.dumpFailingAt fromTimestampMillis point now=.error after) :
    self.handlerStore.blocks≠[] ∧ after.db=self.db ∧
      (point=0 ∧ after=self ∨ point≠0 ∧ after.handlerStore.blocks=[]) := by
  unfold Indexer.dumpFailingAt at h
  split at h
  · cases h
  · next hb =>
    refine ⟨by simpa using hb,?_⟩
    split at h
    · cases h
      exact ⟨rfl,.inl ⟨rfl,rfl⟩⟩
    · next before =>
      split at h
      · cases h
      · next store hr =>
        cases h
        have taken : (runUntil (calls fromTimestampMillis now) before self.handlerStore
            self.db).1.blocks=[] := blocks_runUntil_calls before self.handlerStore self.db
        rw [hr] at taken
        exact ⟨rfl,.inr ⟨by omega,taken⟩⟩

/-- What a dump after the first call has taken is in no table, and a further dump does not bring
it there. -/
theorem dump_of_failed
    (h : self.dumpFailingAt fromTimestampMillis point now=.error after) (hp : point≠0)
    (later : DateTime) :
    after.db=self.db ∧ after.dumpStoreToDb fromTimestampMillis later=after := by
  obtain ⟨_,tables,⟨first,_⟩|⟨_,taken⟩⟩ := dumpFailingAt_eq_error h
  · exact absurd first hp
  · refine ⟨tables,?_⟩
    rw [Indexer.dumpStoreToDb,taken]
    rfl

end Runs

/-- Each buffer of a store still has all that was in it. -/
structure Holds (before after : IndexerHandlerStore) : Prop where
  blocks : before.blocks ⊆ after.blocks
  blockTxs : before.blockTxs.entries ⊆ after.blockTxs.entries
  txData : before.txData ⊆ after.txData
  txDataProofs : before.txDataProofs ⊆ after.txDataProofs
  transactionsEvents : before.transactionsEvents ⊆ after.transactionsEvents
  sqlUpdates : before.sqlUpdates ⊆ after.sqlUpdates
  contracts : before.contracts.entries ⊆ after.contracts.entries
  contractStates : before.contractStates ⊆ after.contractStates
  deletedContracts : before.deletedContracts ⊆ after.deletedContracts
  blobProofOutputs : before.blobProofOutputs ⊆ after.blobProofOutputs

theorem Holds.refl (store : IndexerHandlerStore) : Holds store store :=
  ⟨List.Subset.refl _,List.Subset.refl _,List.Subset.refl _,List.Subset.refl _,
    List.Subset.refl _,List.Subset.refl _,List.Subset.refl _,List.Subset.refl _,
    Finset.Subset.refl _,List.Subset.refl _⟩

section Recovery
variable (fromTimestampMillis : Nat → Option DateTime)

/-- Nothing is lost by an error: what was not committed is still there, and after some more blocks
a later dump leads to the same tables as without the error. -/
def Recovers (before after : Indexer) : Prop :=
  Holds before.handlerStore after.handlerStore ∧
    ∀ (blocks : List Block) (later : DateTime),
      ((blocks.foldl Indexer.handleBlock after).dumpStoreToDb fromTimestampMillis later).db=
        ((blocks.foldl Indexer.handleBlock before).dumpStoreToDb fromTimestampMillis later).db

def AlwaysRecovers : Prop :=
  ∀ (self after : Indexer) (point : Nat) (now : DateTime),
    self.dumpFailingAt fromTimestampMillis point now=.error after →
    Recovers fromTimestampMillis self after

variable {fromTimestampMillis} {now : DateTime} {self after : Indexer} {point : Nat}

/-- Only an error at the beginning of the transaction loses nothing. -/
theorem recovers_iff (h : self.dumpFailingAt fromTimestampMillis point now=.error after) :
    Recovers fromTimestampMillis self after ↔ point=0 := by
  obtain ⟨some,_,outcome⟩ := dumpFailingAt_eq_error h
  constructor
  · intro recovers
    obtain ⟨first,_⟩|⟨_,taken⟩ := outcome
    · exact first
    · have kept := recovers.1.blocks
      rw [taken,List.subset_nil] at kept
      exact absurd kept some
  · rintro rfl
    obtain ⟨_,rfl⟩|⟨later,_⟩ := outcome
    · exact ⟨Holds.refl _,fun blocks later => rfl⟩
    · exact absurd rfl later

end Recovery

namespace Versions

/-- One block waits. -/
def waiting : Indexer := ((blocks 1).take 1).foldl Indexer.handleBlock ⟨.empty,.default⟩

def lossy (point : Nat) : Indexer := .left (waiting.dumpFailingAt fromTimestampMillis point 0)

theorem dumpFailingAt_zero :
    waiting.dumpFailingAt fromTimestampMillis 0 0=.error waiting := by
  have some : waiting.handlerStore.blocks.isEmpty=false := by decide +kernel
  rw [Indexer.dumpFailingAt,some]
  rfl

end Versions

open Versions in
theorem recovers_begin : Recovers fromTimestampMillis waiting waiting :=
  (recovers_iff dumpFailingAt_zero).mpr rfl

open Versions in
/-- The insertion of the blocks fails. -/
theorem not_alwaysRecovers : ¬AlwaysRecovers fromTimestampMillis := by
  have outcome : (waiting.dumpFailingAt fromTimestampMillis 1 0).isOk=false ∧
      stored ((lossy 1).dumpStoreToDb fromTimestampMillis 0).db=none ∧
        stored (waiting.dumpStoreToDb fromTimestampMillis 0).db=some 1 := by
    decide +kernel
  obtain ⟨fails,lost,there⟩ := outcome
  intro h
  cases he : waiting.dumpFailingAt fromTimestampMillis 1 0 with
  | ok after =>
    rw [he] at fails
    cases fails
  | error after =>
    have same := (h waiting after 1 0 he).2 [] 0
    rw [lossy,he] at lost
    have tables := congrArg stored same
    rw [List.foldl_nil,List.foldl_nil,there] at tables
    rw [Indexer.left,tables] at lost
    cases lost

end TruthSeeker.Indexing
