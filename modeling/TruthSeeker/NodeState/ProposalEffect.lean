import TruthSeeker.Model.Digest
import TruthSeeker.NodeState.Provenance

namespace TruthSeeker

/-- A block with a place for one more data proposal. -/
structure BlockContext where
  lanesBefore : List (LaneId × List DataProposal)
  laneId : LaneId
  before : List DataProposal
  after : List DataProposal
  lanesAfter : List (LaneId × List DataProposal)
  consensusProposal : ConsensusProposal
  certificate : AggregateSignature

def BlockContext.fill (self : BlockContext) (dp : DataProposal) : SignedBlock where
  dataProposals := self.lanesBefore++(self.laneId,self.before++dp::self.after)::self.lanesAfter
  consensusProposal := self.consensusProposal
  certificate := self.certificate

def Block.strip (self : Block) : Block :=
  { self with txs := self.txs.map fun p => (p.1,p.2.strip) }

@[simp] theorem Transaction.hashed_strip (sha3 : Bytes → H256) (tx : Transaction) :
    tx.strip.hashed sha3=tx.hashed sha3 := by
  obtain ⟨version,data⟩ := tx
  cases data <;> rfl

namespace NodeState

def stripEntry (entry : LaneId × TxId × Transaction) : LaneId × TxId × Transaction :=
  (entry.1,entry.2.1,entry.2.2.strip)

/-- The proof on the local lane is never read. -/
theorem handleTx_stripEntry (env : Environment) (work : Work)
    (entry : LaneId × TxId × Transaction) :
    handleTx env work (stripEntry entry)=handleTx env work entry := by
  obtain ⟨laneId,txId,version,data⟩ := entry
  cases data <;> rfl

theorem foldl_handleTx_stripEntry (env : Environment) (work : Work)
    (entries : List (LaneId × TxId × Transaction)) :
    (entries.map stripEntry).foldl (handleTx env) work=entries.foldl (handleTx env) work := by
  rw [List.foldl_map]
  simp only [handleTx_stripEntry]

section
variable {sha3 : Bytes → H256} {p q : DataProposal}

theorem txsWithId_stripEntry (laneId : LaneId) :
    (SignedBlock.txsWithId sha3 laneId p).map stripEntry=
      (p.txs.map Transaction.strip).map fun tx =>
        (laneId,⟨SignedBlock.parentOf laneId p,tx.hashed sha3⟩,tx) := by
  simp [SignedBlock.txsWithId,stripEntry,Function.comp_def]

/-- Proposals of the same content give the same transactions at every place. -/
theorem txsWithId_of_sameContent (h : p.SameContent q) (laneId : LaneId) :
    (SignedBlock.txsWithId sha3 laneId p).map stripEntry=
      (SignedBlock.txsWithId sha3 laneId q).map stripEntry := by
  obtain ⟨txs,parent⟩ := h
  rw [txsWithId_stripEntry,txsWithId_stripEntry,← txs]
  by_cases hn : p.txs=[]
  · simp [hn]
  · have same : SignedBlock.parentOf laneId p=SignedBlock.parentOf laneId q := by
      rw [SignedBlock.parentOf,SignedBlock.parentOf,parent hn]
    rw [same]

theorem iterTxsWithId_fill (context : BlockContext) :
    ∃ before after,∀ dp,(context.fill dp).iterTxsWithId sha3=
      before++SignedBlock.txsWithId sha3 context.laneId dp++after := by
  refine ⟨context.lanesBefore.flatMap (fun lane =>
      lane.2.flatMap (SignedBlock.txsWithId sha3 lane.1))++
    context.before.flatMap (SignedBlock.txsWithId sha3 context.laneId),
    context.after.flatMap (SignedBlock.txsWithId sha3 context.laneId)++
      context.lanesAfter.flatMap (fun lane =>
        lane.2.flatMap (SignedBlock.txsWithId sha3 lane.1)),?_⟩
  intro dp
  simp [SignedBlock.iterTxsWithId,BlockContext.fill]

end

section Effect
variable (env : Environment)

/-- Whichever of the two proposals a block holds, the state and the block are the same. -/
def SameEffect (p q : DataProposal) : Prop :=
  ∀ (store : NodeStateStore) (context : BlockContext),
    (handleSignedBlock env store (context.fill p)).1=
      (handleSignedBlock env store (context.fill q)).1 ∧
    (handleSignedBlock env store (context.fill p)).2.map Block.strip=
      (handleSignedBlock env store (context.fill q)).2.map Block.strip

variable {env} {p q : DataProposal}

theorem sameEffect_of_sameContent (h : p.SameContent q) : SameEffect env p q := by
  intro store context
  obtain ⟨before,after,fill⟩ : ∃ before after,∀ dp,(context.fill dp).iterTxsWithId env.sha3=
      before++SignedBlock.txsWithId env.sha3 context.laneId dp++after := iterTxsWithId_fill context
  have entries : ((context.fill p).iterTxsWithId env.sha3).map stripEntry=
      ((context.fill q).iterTxsWithId env.sha3).map stripEntry := by
    rw [fill,fill]
    simp only [List.map_append,txsWithId_of_sameContent h]
  have start : beginBlock env store (context.fill p)=beginBlock env store (context.fill q) := rfl
  have work : ((context.fill p).iterTxsWithId env.sha3).foldl (handleTx env)
        (clearTimeouts env (beginBlock env store (context.fill p)))=
      ((context.fill q).iterTxsWithId env.sha3).foldl (handleTx env)
        (clearTimeouts env (beginBlock env store (context.fill q))) := by
    rw [← foldl_handleTx_stripEntry,entries,foldl_handleTx_stripEntry,start]
  have txs := congrArg (List.map Prod.snd) entries
  unfold handleSignedBlock
  have height : (context.fill p).height=(context.fill q).height := rfl
  rw [height]
  split
  · exact ⟨rfl,rfl⟩
  · dsimp only
    rw [work]
    refine ⟨rfl,?_⟩
    simp only [Except.map,Block.strip,List.map_map]
    simp only [List.map_map] at txs
    have same : (fun entry : LaneId × TxId × Transaction => (entry.2.1,entry.2.2.strip))=
        Prod.snd ∘ stripEntry := rfl
    simp only [Function.comp_def] at txs ⊢
    simp only [stripEntry] at txs
    rw [txs]

/-- A block of height 1 with nothing but the proposal. -/
def onlyContext (laneId : LaneId) : BlockContext :=
  ⟨[],laneId,[],[],[],⟨1,"",[],[],0⟩,⟨[],[]⟩⟩

theorem txs_of_handleSignedBlock (env : Environment) (laneId : LaneId) (dp : DataProposal) :
    ∃ block,(handleSignedBlock env NodeStateStore.default
        ((onlyContext laneId).fill dp)).2.map Block.strip=.ok block ∧
      block.txs=((SignedBlock.txsWithId env.sha3 laneId dp).map stripEntry).map Prod.snd := by
  refine ⟨_,rfl,?_⟩
  simp [Block.strip,SignedBlock.iterTxsWithId,BlockContext.fill,onlyContext,stripEntry,
    Function.comp_def]

theorem sameContent_of_sameEffect (h : SameEffect env p q) : p.SameContent q := by
  have txs : ∀ laneId,((SignedBlock.txsWithId env.sha3 laneId p).map stripEntry).map Prod.snd=
      ((SignedBlock.txsWithId env.sha3 laneId q).map stripEntry).map Prod.snd := by
    intro laneId
    obtain ⟨bp,hp,tp⟩ := txs_of_handleSignedBlock env laneId p
    obtain ⟨bq,hq,tq⟩ := txs_of_handleSignedBlock env laneId q
    have same := (h NodeStateStore.default (onlyContext laneId)).2
    rw [hp,hq] at same
    rw [← tp,← tq,Except.ok.inj same]
  simp only [txsWithId_stripEntry,List.map_map,Function.comp_def] at txs
  have stripped := congrArg (List.map Prod.snd) (txs [])
  simp only [List.map_map,Function.comp_def] at stripped
  refine ⟨stripped,?_⟩
  intro hn
  obtain ⟨tx,rest,ht⟩ := List.exists_cons_of_ne_nil hn
  have parents : ∀ laneId,SignedBlock.parentOf laneId p=SignedBlock.parentOf laneId q := by
    intro laneId
    have heads := congrArg List.head? (txs laneId)
    cases hq : q.txs with
    | nil => simp [ht,hq] at heads
    | cons other others =>
      simp only [ht,hq,List.map_cons,List.head?_cons,Option.some.injEq,Prod.mk.injEq,
        TxId.mk.injEq] at heads
      exact heads.1.1
  have first := parents []
  have second := parents [0]
  have differ : ValidatorPublicKey.display []≠ValidatorPublicKey.display [0] := by decide
  unfold SignedBlock.parentOf at first second
  cases hp : p.parentDataProposalHash <;> cases hq : q.parentDataProposalHash <;>
    simp_all

/-- Proposals with one digest have the same effect exactly if they agree on what the digests
leave open. -/
theorem sameEffect_iff (env : Environment) (p q : DataProposal)
    (hi : Set.InjOn env.sha3 {bs | bs∈p.digested env.sha3++q.digested env.sha3})
    (h : p.hashed env.sha3=q.hashed env.sha3) :
    SameEffect env p q ↔ p.undigested=q.undigested := by
  have content : p.SameContent q ↔ p.undigested=q.undigested :=
    DataProposal.sameContent_iff hi (fun x hx => List.mem_append_left _ hx)
      (fun x hx => List.mem_append_right _ hx) h
  rw [← content]
  exact ⟨sameContent_of_sameEffect,sameEffect_of_sameContent⟩

end Effect

namespace OneContract

open TwoContracts (register)

def registerTx : BlobTransaction := ⟨"hyle@hyle",[register "foo"]⟩

def spend : BlobTransaction := ⟨"alice@foo",[⟨"foo",[]⟩]⟩

def spendDigest : H256 :=
  ByteVec.ofNat 32 0xa1794882863ff7d6557447b343110cc5b15667816038d25e69e5c0d5e3eb849a

/-- The blob of the transaction moves `foo` from the state 0 to the state 7. -/
def output : HyleOutput where
  version := 1
  initialState := [0]
  nextState := [7]
  identity := "alice@foo"
  index := 0
  blobs := []
  txBlobCount := 1
  txHash := Bytes.hex spendDigest.toList
  success := true
  stateReads := []
  txCtx := none
  onchainEffects := []
  programOutputs := []

def entry (output : HyleOutput) : BlobProofOutput :=
  ⟨Bytes.hex spendDigest.toList,"",output,[1]⟩

/-- A proposal with one verified proof of the output. -/
def proposal (proof : Option ProofData) (output : HyleOutput) : DataProposal :=
  ⟨none,[⟨1,.verifiedProof ⟨"foo",proof,"",0,[entry output],false⟩⟩]⟩

/-- The output for another transaction. -/
def elsewhere : HyleOutput := { output with txHash := "" }

def firstBlock : SignedBlock :=
  (onlyContext [1]).fill ⟨none,[⟨1,.blob registerTx⟩,⟨1,.blob spend⟩]⟩

def nextContext : BlockContext :=
  { onlyContext [1] with consensusProposal := ⟨2,"",[],[],0⟩ }

def proofData (output : HyleOutput) : TransactionData :=
  .verifiedProof ⟨"foo",none,"",0,[entry output],false⟩

def setupDigests : List (Bytes × H256) :=
  [((register "foo").preimage,
    ByteVec.ofNat 32 0x54a930b17902efbb70102a504c95620b28f2fea6cb8f112599cd9201233556c6),
   (utf8 "foo",
    ByteVec.ofNat 32 0x76d3bc41c9f588f7fcd0d5bf4718f8f84b1c41b20882703100b9eb9413807c01),
   (firstBlock.consensusProposal.preimage,
    ByteVec.ofNat 32 0x152058c4aded5c45e6c5b36c46c22faa4172e1829870023dacbcce408221b1c4),
   (nextContext.consensusProposal.preimage,
    ByteVec.ofNat 32 0xd69be0d35a02eaad6d4ff3316a44ef7e5c12a8dd819f592e1835eebb0a601748)]

def txDigests : List (Bytes × H256) :=
  let sha3 := ByteVec.lookup setupDigests
  [(Transaction.preimage sha3 (.blob registerTx),
    ByteVec.ofNat 32 0xabbd0f5166f99b95c0f33127e5fc38c986757f0d9e40d95ffef9ebfedf7d6028),
   (Transaction.preimage sha3 (.blob spend),spendDigest),
   (output.preimage sha3,
    ByteVec.ofNat 32 0xc0373d0827932ea7d055515fc9f228489fb21d7fb78a81f0e74fd895891d646f)]

def entryDigests : List (Bytes × H256) :=
  [((entry output).preimage (ByteVec.lookup txDigests),
    ByteVec.ofNat 32 0x2811cbcb615762e7e36c37315d6cf1ab8a743ba709aed5cb6ac876a5295355a5)]

def proofDigests : List (Bytes × H256) :=
  [(Transaction.preimage (ByteVec.lookup (txDigests++entryDigests)) (proofData output),
    ByteVec.ofNat 32 0x20c75676220d33fce8c94d13d9aa9dcade9001b104b781ba00f5e22300a88495)]

def proposalDigests : List (Bytes × H256) :=
  [((proposal none output).preimage
      (ByteVec.lookup (txDigests++entryDigests++proofDigests)),
    ByteVec.ofNat 32 0x34ce91df71630ef73d085fd5d449bbaa52522ecc557abfcc66ed723ab87b1fbd)]

def digests : List (Bytes × H256) :=
  setupDigests++txDigests++entryDigests++proofDigests++proposalDigests

/-- SHA3-256 at the byte strings that the blocks lead to. -/
def env : Environment := { TwoContracts.env with sha3 := ByteVec.lookup digests }

/-- The state with the transaction sequenced and the contract in the state 0. -/
def store : NodeStateStore := handleSignedBlocks env NodeStateStore.default [firstBlock]

theorem runs_proposals :
    (∀ p ∈ [(none,output),(some [1],output),(none,elsewhere)],
      ∀ bs ∈ (proposal p.1 p.2).digested env.sha3,bs∈digests.map Prod.fst) ∧
    (digests.map Prod.snd).Nodup ∧
    ((handleSignedBlock env store (nextContext.fill (proposal none output))).1.contracts[
      "foo"]?).map Contract.state=some [7] ∧
    ((handleSignedBlock env store (nextContext.fill (proposal none elsewhere))).1.contracts[
      "foo"]?).map Contract.state=some [0] := by
  decide +kernel

theorem injOn_digested : ∀ p ∈ [(none,output),(some [1],output),(none,elsewhere)],
    ∀ q ∈ [(none,output),(some [1],output),(none,elsewhere)],
    Set.InjOn env.sha3 {bs | bs∈(proposal p.1 p.2).digested env.sha3++
      (proposal q.1 q.2).digested env.sha3} := by
  obtain ⟨known,distinct,_⟩ := runs_proposals
  intro p hp q hq
  apply (ByteVec.lookup_injOn digests distinct).mono
  intro bs hm
  obtain hm|hm := List.mem_append.mp hm
  · exact known p hp bs hm
  · exact known q hq bs hm

end OneContract

open OneContract in
theorem sameEffect_proof : SameEffect env (proposal (some [1]) output) (proposal none output) :=
  (sameEffect_iff env (proposal (some [1]) output) (proposal none output)
    (injOn_digested (some [1],output) (by simp) (none,output) (by simp)) rfl).mpr rfl

open OneContract in
/-- The hash that an output claims is not digested: one of two proposals with the same digest
settles the transaction, the other one does not. -/
theorem not_sameEffect :
    Set.InjOn env.sha3 {bs | bs∈(proposal none output).digested env.sha3++
      (proposal none elsewhere).digested env.sha3} ∧
    (proposal none output).hashed env.sha3=(proposal none elsewhere).hashed env.sha3 ∧
    ¬SameEffect env (proposal none output) (proposal none elsewhere) := by
  refine ⟨injOn_digested (none,output) (by simp) (none,elsewhere) (by simp),rfl,?_⟩
  intro same
  have stores := (same store nextContext).1
  have states := congrArg (fun store : NodeStateStore =>
    (store.contracts["foo"]?).map Contract.state) stores
  rw [runs_proposals.2.2.1,runs_proposals.2.2.2] at states
  exact absurd states (by decide)

end NodeState

end TruthSeeker
