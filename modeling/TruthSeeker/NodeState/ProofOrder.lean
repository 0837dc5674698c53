import TruthSeeker.NodeState.ProofArrival
import TruthSeeker.NodeState.RefusedBlobs

namespace TruthSeeker.NodeState

open OrderedTxMap Relation

section Runs
variable (env : Environment)

def provenBlobs : TransactionData → List BlobProofOutput
  | .verifiedProof tx => tx.provenBlobs
  | _ => []

def isProof : TransactionData → Bool
  | .blob _ => false
  | _ => true

/-- The proofs that a block carries, in order. -/
def blockProofs (signedBlock : SignedBlock) : List BlobProofOutput :=
  (signedBlock.iterTxsWithId env.sha3).flatMap fun entry => provenBlobs entry.2.2.transactionData

def carriedProofs (signedBlocks : List SignedBlock) : List BlobProofOutput :=
  signedBlocks.flatMap (blockProofs env)

/-- A block at its height with proofs only, at which no pending transaction times out. -/
def ProvesOnly (store : NodeStateStore) (signedBlock : SignedBlock) : Prop :=
  InOrder store signedBlock ∧
    (∀ entry ∈ signedBlock.iterTxsWithId env.sha3,isProof entry.2.2.transactionData=true) ∧
    ∀ hash ∈ store.timeouts.getD signedBlock.height [],
      (store.unsettledTransactions.get hash).isNone

instance (store : NodeStateStore) (signedBlock : SignedBlock) :
    Decidable (ProvesOnly env store signedBlock) := inferInstanceAs (Decidable (_ ∧ _ ∧ _))

/-- The blocks of a run carry only proofs, and no timeout fires. -/
def RunProvesOnly : NodeStateStore → List SignedBlock → Prop
  | _,[] => True
  | store,signedBlock::rest => ProvesOnly env store signedBlock ∧
      RunProvesOnly (handleSignedBlock env store signedBlock).1 rest

/-- The blocks that the node makes of those that it accepts. -/
def sealedBlocks : NodeStateStore → List SignedBlock → List Block
  | _,[] => []
  | store,signedBlock::rest =>
      let handled := handleSignedBlock env store signedBlock
      handled.2.toOption.toList++sealedBlocks handled.1 rest

/-- Whether one sequence of blocks leads from a state to the same contracts as another, with the
same transactions settled as successful and as failed. -/
structure SameOutcome (store : NodeStateStore) (first second : List SignedBlock) : Prop where
  contracts : (handleSignedBlocks env store first).contracts=
    (handleSignedBlocks env store second).contracts
  successes : ∀ hash,hash∈(sealedBlocks env store first).flatMap (fun b => b.successfulTxs) ↔
    hash∈(sealedBlocks env store second).flatMap (fun b => b.successfulTxs)
  failures : ∀ hash,hash∈(sealedBlocks env store first).flatMap (fun b => b.failedTxs) ↔
    hash∈(sealedBlocks env store second).flatMap (fun b => b.failedTxs)

end Runs

section Mono
variable {env : Environment} {store : NodeStateStore} {handled carried : List BlobProofOutput}

theorem mem_allProofs_mono (hm : ∀ entry ∈ handled,entry∈carried)
    {tx : UnsettledBlobTransaction} {entry : BlobIndex × ProgramId × HyleOutput}
    (h : entry∈allProofs env handled tx) : entry∈allProofs env carried tx :=
  hasProof_mono hm h

theorem mem_writes_mono (hm : ∀ entry ∈ handled,entry∈carried) {tx : UnsettledBlobTransaction}
    {name : ContractName} (h : name∈writes env handled tx) : name∈writes env carried tx := by
  unfold writes at h ⊢
  rw [List.mem_append,List.mem_flatMap] at h ⊢
  exact h.imp id fun ⟨entry,he,hn⟩ => ⟨entry,mem_allProofs_mono hm he,hn⟩

theorem mem_reads_mono (hm : ∀ entry ∈ handled,entry∈carried) {tx : UnsettledBlobTransaction}
    {name : ContractName} (h : name∈reads env handled tx) : name∈reads env carried tx := by
  unfold reads at h ⊢
  rw [List.mem_append,List.mem_flatMap] at h ⊢
  exact h.imp id fun ⟨entry,he,hn⟩ => ⟨entry,mem_allProofs_mono hm he,hn⟩

theorem Orderly.mono (hm : ∀ entry ∈ handled,entry∈carried) (h : Orderly env store carried) :
    Orderly env store handled where
  noDelete tx ht entry he := h.noDelete tx ht entry (mem_allProofs_mono hm he)
  fails := by
    intro tx ht
    obtain native|succeed|single := h.fails tx ht
    · exact Or.inl native
    · exact Or.inr (Or.inl fun entry he => succeed entry (mem_allProofs_mono hm he))
    · exact Or.inr (Or.inr single)
  conflicts tx ht other ho hne name hw hr :=
    h.conflicts tx ht other ho hne name (mem_writes_mono hm hw)
      (hr.imp (mem_writes_mono hm) (mem_reads_mono hm))
  registered := h.registered
  notHyle := h.notHyle
  noNuke := h.noNuke
  payloads := h.payloads

theorem OneOutput.mono {start : OrderedTxMap} (hm : ∀ entry ∈ handled,entry∈carried)
    (h : OneOutput env start carried) : OneOutput env start handled :=
  fun tx ht a ha b hb => h tx ht a (mem_allProofs_mono hm ha) b (mem_allProofs_mono hm hb)

theorem Settles.mono {start : OrderedTxMap} (hm : ∀ entry ∈ handled,entry∈carried) {p : Progress}
    {tx : UnsettledBlobTransaction} {verdict : Except Unit ContractChanges}
    (h : Settles env start handled p tx verdict) : Settles env start carried p tx verdict where
  named := h.named
  pending := h.pending
  waiting := h.waiting
  roused := h.roused.mono hm
  inTurn := h.inTurn
  decided := by
    have decided := h.decided
    unfold Verdict at decided ⊢
    split_ifs at decided ⊢
    · exact decided
    · exact decided.mono fun _ _ => hasProof_mono hm

theorem steps_mono {start : OrderedTxMap} (hm : ∀ entry ∈ handled,entry∈carried) {p q : Progress}
    (h : ReflTransGen (Commuting.Act (SettleStep env start handled)) p q) :
    ReflTransGen (Commuting.Act (SettleStep env start carried)) p q := by
  refine ReflTransGen.mono ?_ p q h
  rintro _ _ ⟨tx,verdict,settles,eq⟩
  exact ⟨tx,verdict,settles.mono hm,eq⟩

end Mono

section Blocks
variable {env : Environment} {store current : NodeStateStore}
  {handled carried : List BlobProofOutput} {succeeded failed : List TxHash} {work : Work}
  {toTry : TxHashSet} {p : Progress}

/-- A list of proofs, one after the other. -/
theorem Current.foldl_handleProvenBlobs (hs : Orderly env store carried) (txId : TxId)
    {entries : List BlobProofOutput} (hm : ∀ entry ∈ handled++entries,entry∈carried)
    (h : Current env store handled succeeded failed work toTry p) :
    Current env store (handled++entries) succeeded failed
      (entries.foldl (NodeState.handleProvenBlobs env txId) (work,toTry)).1
      (entries.foldl (NodeState.handleProvenBlobs env txId) (work,toTry)).2 p := by
  induction entries generalizing handled work toTry with
  | nil =>
    rw [List.append_nil]
    exact h
  | cons entry entries ih =>
    have split : handled++entry::entries=handled++[entry]++entries := by simp
    rw [split] at hm ⊢
    have first := h.handleProvenBlobs
      (hs.mono fun e he => hm e (List.mem_append_left _ he)) txId
    exact ih hm first

theorem Current.setBlock (h : Current env store handled succeeded failed work toTry p)
    {block : BlockUnderConstruction} (hb : outcomes block=outcomes work.block) :
    Current env store handled succeeded failed (work.setBlock block) toTry p where
  tracks := by
    have successful : block.successfulTxs=work.block.successfulTxs :=
      congrArg Outcomes.successful hb
    have failures : block.failedTxs=work.block.failedTxs := congrArg Outcomes.failed hb
    show Tracks env store handled (succeeded++block.successfulTxs) (failed++block.failedTxs)
      work.store p
    rw [successful,failures]
    exact h.tracks
  roused := h.roused
  complete := h.complete

/-- A transaction of proofs is a part of the run of settlement. -/
theorem Current.handleTx (hs : Orderly env store carried)
    (hf : OneOutput env store.unsettledTransactions carried)
    {entry : LaneId × TxId × Transaction} (hp : isProof entry.2.2.transactionData=true)
    (hm : ∀ proof ∈ handled++provenBlobs entry.2.2.transactionData,proof∈carried)
    (h : Current env store handled succeeded failed work ∅ p) :
    ∃ q,ReflTransGen (Commuting.Act (SettleStep env store.unsettledTransactions carried)) p q ∧
      Current env store (handled++provenBlobs entry.2.2.transactionData) succeeded failed
        (handleTx env work entry) ∅ q := by
  obtain ⟨laneId,txId,tx⟩ := entry
  have located : Current env store handled succeeded failed
      (work.setBlock (work.block.locate txId.txHash txId.parentHash laneId)) ∅ p :=
    h.setBlock rfl
  unfold NodeState.handleTx
  dsimp only at hp hm ⊢
  cases hd : tx.transactionData with
  | blob blobTx =>
    rw [hd] at hp
    cases hp
  | proof proofTx =>
    have none : handled++provenBlobs (.proof proofTx)=handled := List.append_nil handled
    rw [none]
    exact ⟨p,ReflTransGen.refl,located⟩
  | verifiedProof proofTx =>
    rw [hd] at hm
    have proven := located.foldl_handleProvenBlobs hs txId hm
    obtain ⟨q,steps,current⟩ :=
      proven.settleAndReschedule (hs.mono hm) (hf.mono hm)
    exact ⟨q,steps_mono hm steps,current⟩

theorem Current.foldl_handleTx (hs : Orderly env store carried)
    (hf : OneOutput env store.unsettledTransactions carried)
    {entries : List (LaneId × TxId × Transaction)}
    (hp : ∀ entry ∈ entries,isProof entry.2.2.transactionData=true)
    (hm : ∀ proof ∈ handled++entries.flatMap (fun e => provenBlobs e.2.2.transactionData),
      proof∈carried)
    (h : Current env store handled succeeded failed work ∅ p) :
    ∃ q,ReflTransGen (Commuting.Act (SettleStep env store.unsettledTransactions carried)) p q ∧
      Current env store (handled++entries.flatMap fun e => provenBlobs e.2.2.transactionData)
        succeeded failed (entries.foldl (NodeState.handleTx env) work) ∅ q := by
  induction entries generalizing handled work p with
  | nil =>
    rw [List.flatMap_nil,List.append_nil]
    exact ⟨p,ReflTransGen.refl,h⟩
  | cons entry entries ih =>
    rw [List.flatMap_cons,← List.append_assoc] at hm ⊢
    obtain ⟨mid,first,current⟩ := h.handleTx hs hf (hp entry List.mem_cons_self)
      fun e he => hm e (List.mem_append_left _ he)
    obtain ⟨q,rest,last⟩ := ih (fun e he => hp e (List.mem_cons_of_mem _ he)) hm current
    exact ⟨q,first.trans rest,last⟩

theorem foldl_clearTimeout {hashes : List TxHash} {timedOut : List TxHash}
    (h : ∀ hash ∈ hashes,(work.pending.get hash).isNone) :
    hashes.foldl (clearTimeout env) (work,timedOut)=(work,timedOut) := by
  induction hashes with
  | nil => rfl
  | cons hash hashes ih =>
    have absent := Option.isNone_iff_eq_none.mp (h hash List.mem_cons_self)
    have kept : clearTimeout env (work,timedOut) hash=(work,timedOut) := by
      unfold clearTimeout
      cases hr : work.pending.remove hash with
      | none => rfl
      | some removed =>
        have found := (remove_eq_some hr).1
        rw [show work.pending.map[hash]?=none from absent] at found
        cases found
    rw [List.foldl_cons,kept]
    exact ih fun other ho => h other (List.mem_cons_of_mem _ ho)

/-- A block without timeouts begins where the one before has ended. -/
theorem Tracks.beginBlock {signedBlock : SignedBlock}
    (ht : ∀ hash ∈ current.timeouts.getD signedBlock.height [],
      (current.unsettledTransactions.get hash).isNone)
    (h : Tracks env store handled succeeded failed current p)
    (hn : ∀ tx verdict,¬Settles env store.unsettledTransactions handled p tx verdict) :
    Current env store handled succeeded failed
      (clearTimeouts env (NodeState.beginBlock env current signedBlock)) ∅ p := by
  unfold clearTimeouts
  dsimp only
  rw [foldl_clearTimeout ht]
  refine ⟨?_,?_,fun tx verdict settles => absurd settles (hn tx verdict)⟩
  · show Tracks env store handled (succeeded++[]) (failed++[]) _ p
    rw [List.append_nil,List.append_nil]
    exact h.congr rfl rfl
  · intro tx _ _ mem
    simp at mem

theorem sealedBlocks_cons {signedBlock : SignedBlock} {rest : List SignedBlock}
    (ho : InOrder current signedBlock) : sealedBlocks env current (signedBlock::rest)=
      { (blockWork env current signedBlock).block with
        txs := (signedBlock.iterTxsWithId env.sha3).map Prod.snd }::
      sealedBlocks env (handleSignedBlock env current signedBlock).1 rest := by
  rw [sealedBlocks,handleSignedBlock_of_inOrder ho]
  rfl

/-- A run of proofs only is a run of settlement, which ends when nobody may settle. -/
theorem Tracks.run (hs : Orderly env store carried)
    (hf : OneOutput env store.unsettledTransactions carried) {signedBlocks : List SignedBlock}
    (hr : RunProvesOnly env current signedBlocks)
    (hm : ∀ proof ∈ handled++carriedProofs env signedBlocks,proof∈carried)
    (h : Tracks env store handled succeeded failed current p)
    (hn : ∀ tx verdict,¬Settles env store.unsettledTransactions handled p tx verdict) :
    ∃ q,ReflTransGen (Commuting.Act (SettleStep env store.unsettledTransactions carried)) p q ∧
      Tracks env store (handled++carriedProofs env signedBlocks)
        (succeeded++(sealedBlocks env current signedBlocks).flatMap fun b => b.successfulTxs)
        (failed++(sealedBlocks env current signedBlocks).flatMap fun b => b.failedTxs)
        (handleSignedBlocks env current signedBlocks) q ∧
      ∀ tx verdict,¬Settles env store.unsettledTransactions
        (handled++carriedProofs env signedBlocks) q tx verdict := by
  induction signedBlocks generalizing handled succeeded failed current p with
  | nil =>
    refine ⟨p,ReflTransGen.refl,?_,?_⟩
    · simpa [carriedProofs,sealedBlocks,handleSignedBlocks] using h
    · simpa [carriedProofs] using hn
  | cons signedBlock rest ih =>
    obtain ⟨⟨ho,hp,ht⟩,later⟩ := hr
    have split : handled++carriedProofs env (signedBlock::rest)=
        handled++blockProofs env signedBlock++carriedProofs env rest := by
      simp [carriedProofs]
    rw [split] at hm ⊢
    obtain ⟨mid,first,current'⟩ := (h.beginBlock ht hn).foldl_handleTx hs hf hp
      fun e he => hm e (List.mem_append_left _ he)
    have none : ∀ tx verdict,¬Settles env store.unsettledTransactions
        (handled++blockProofs env signedBlock) mid tx verdict := by
      intro tx verdict settles
      have mem := current'.complete tx verdict settles
      simp at mem
    have tracks : Tracks env store (handled++blockProofs env signedBlock)
        (succeeded++(blockWork env current signedBlock).block.successfulTxs)
        (failed++(blockWork env current signedBlock).block.failedTxs)
        (handleSignedBlock env current signedBlock).1 mid := by
      rw [handleSignedBlock_of_inOrder ho]
      exact current'.tracks
    obtain ⟨q,steps,last,done⟩ := ih later hm tracks none
    refine ⟨q,first.trans steps,?_,done⟩
    rw [sealedBlocks_cons ho,List.flatMap_cons,List.flatMap_cons,← List.append_assoc,
      ← List.append_assoc]
    exact last

end Blocks

section Independence
variable {env : Environment} {store : NodeStateStore} {first second : List SignedBlock}

/-- At the start nothing is settled, and nothing has been proven. -/
theorem tracks_start (hw : WellNamed store.contracts) :
    Tracks env store [] [] [] store ⟨store.contracts,fun _ => none⟩ where
  contracts := rfl
  named := hw
  registered _ h := h
  queues name := by simp [Progress.queue]
  gone hash h := absurd rfl h
  known _ h := h
  waiting tx ht _ := ⟨tx,mem_pendingTxs.mp ht,Holds.refl env tx⟩
  successes hash := by simp
  failures hash := by simp

theorem not_settles_start {tx : UnsettledBlobTransaction}
    {verdict : Except Unit ContractChanges} :
    ¬Settles env store.unsettledTransactions [] ⟨store.contracts,fun _ => none⟩ tx verdict := by
  intro settles
  obtain ⟨_,entry,mem,_⟩|⟨name,_,_,other,_,settled,_⟩ := settles.roused
  · simp at mem
  · exact settled rfl

/-- The final contracts and outcomes do not depend on the order of the proofs. -/
theorem orderIndependent (hw : WellNamed store.contracts)
    (h₁ : RunProvesOnly env store first) (h₂ : RunProvesOnly env store second)
    (same : ∀ entry,entry∈carriedProofs env first ↔ entry∈carriedProofs env second)
    (hf : OneOutput env store.unsettledTransactions (carriedProofs env first))
    (hs : Orderly env store (carriedProofs env first)) : SameOutcome env store first second := by
  obtain ⟨p,left,tracks,final⟩ := (tracks_start hw).run hs hf h₁ (fun _ he => he)
    fun _ _ => not_settles_start
  obtain ⟨q,right,tracks',final'⟩ := (tracks_start hw).run hs hf h₂
    (fun e he => (same e).mpr he) fun _ _ => not_settles_start
  have done : Commuting.Final
      (SettleStep env store.unsettledTransactions (carriedProofs env first)) p := by
    rintro next ⟨tx,verdict,settles,_⟩
    exact final tx verdict settles
  have done' : Commuting.Final
      (SettleStep env store.unsettledTransactions (carriedProofs env first)) q := by
    rintro next ⟨tx,verdict,settles,_⟩
    exact final' tx verdict (settles.mono fun e he => (same e).mp he)
  obtain rfl := (commute_settleStep hs.toSeparated hf).final_unique left right done done'
  refine ⟨tracks.contracts.trans tracks'.contracts.symm,?_,?_⟩
  · intro hash
    have one := tracks.successes hash
    have two := tracks'.successes hash
    rw [List.nil_append] at one two
    rw [one,two]
  · intro hash
    have one := tracks.failures hash
    have two := tracks'.failures hash
    rw [List.nil_append] at one two
    rw [one,two]

end Independence

section Provisos
variable (env : Environment) (store : NodeStateStore) (carried : List BlobProofOutput)

/-- What is asked of the pending transactions and the proofs, beyond what holds in every run. -/
inductive Proviso where
  | single
  | ordinary
  | conflicts
  | payloads
  | hyle
  | nukes
  | deletions
  deriving DecidableEq

/-- The transaction is refused natively from the start, or none of its outputs fails. -/
def FixedOutcome (tx : UnsettledBlobTransaction) : Prop :=
  nativeFailure tx=true ∨ ∀ entry ∈ allProofs env carried tx,entry.2.2.success=true

def Proviso.Holds : Proviso → Prop
  | .single => ∀ tx ∈ pendingTxs store.unsettledTransactions,FixedOutcome env carried tx ∨
      ∀ name ∈ tx.contractNames,∀ other ∈ tx.contractNames,name=other
  | .ordinary => ∀ tx ∈ pendingTxs store.unsettledTransactions,FixedOutcome env carried tx ∨
      ∀ name ∈ tx.contractNames,name∉NATIVE_VERIFIERS_CONTRACT_LIST
  | .conflicts => ∀ tx ∈ pendingTxs store.unsettledTransactions,
      ∀ other ∈ pendingTxs store.unsettledTransactions,tx.hash≠other.hash →
        ∀ name ∈ writes env carried tx,
          name∈writes env carried other ∨ name∈reads env carried other →
          ∃ shared ∈ tx.contractNames,shared∈other.contractNames
  | .payloads => ∀ tx ∈ pendingTxs store.unsettledTransactions,
      ∀ other ∈ pendingTxs store.unsettledTransactions,tx.hash≠other.hash →
        ∀ name ∈ tx.blockedContracts,name∈other.contractNames → name∈tx.contractNames
  | .hyle => ∀ tx ∈ pendingTxs store.unsettledTransactions,"hyle"∉tx.contractNames
  | .nukes => ∀ tx ∈ pendingTxs store.unsettledTransactions,∀ entry ∈ tx.indexedBlobs,
      (BlobData.parse NukeTxAction entry.2.data).isNone
  | .deletions => ∀ tx ∈ pendingTxs store.unsettledTransactions,
      ∀ entry ∈ allProofs env carried tx,∀ effect ∈ entry.2.2.onchainEffects,effect.registers=true

/-- The contracts of the pending blobs are registered. -/
def Registered : Prop :=
  ∀ tx ∈ pendingTxs store.unsettledTransactions,∀ name ∈ tx.contractNames,
    store.contracts.contains name

theorem orderly_iff : Orderly env store carried ↔
    Registered store ∧ ∀ proviso : Proviso,proviso.Holds env store carried := by
  constructor
  · intro h
    refine ⟨h.registered,?_⟩
    intro proviso
    cases proviso with
    | single =>
      intro tx ht
      obtain native|succeed|single := h.fails tx ht
      · exact Or.inl (Or.inl native)
      · exact Or.inl (Or.inr succeed)
      · exact Or.inr fun name hn => (single name hn).2
    | ordinary =>
      intro tx ht
      obtain native|succeed|single := h.fails tx ht
      · exact Or.inl (Or.inl native)
      · exact Or.inl (Or.inr succeed)
      · exact Or.inr fun name hn => (single name hn).1
    | conflicts => exact h.conflicts
    | payloads => exact h.payloads
    | hyle => exact h.notHyle
    | nukes => exact h.noNuke
    | deletions => exact h.noDelete
  · rintro ⟨registered,provisos⟩
    refine ⟨⟨provisos .deletions,?_,provisos .conflicts⟩,registered,provisos .hyle,
      provisos .nukes,provisos .payloads⟩
    intro tx ht
    obtain (native|succeed)|single := provisos .single tx ht
    · exact Or.inl native
    · exact Or.inr (Or.inl succeed)
    obtain (native|succeed)|ordinary := provisos .ordinary tx ht
    · exact Or.inl native
    · exact Or.inr (Or.inl succeed)
    · exact Or.inr (Or.inr fun name hn => ⟨ordinary name hn,single name hn⟩)

instance {tx : UnsettledBlobTransaction} : Decidable (FixedOutcome env carried tx) :=
  inferInstanceAs (Decidable (_ ∨ _))

instance decidableHolds : (proviso : Proviso) → Decidable (proviso.Holds env store carried)
  | .single | .ordinary | .conflicts | .payloads | .hyle | .nukes | .deletions => by
    unfold Proviso.Holds
    infer_instance

instance (start : OrderedTxMap) : Decidable (OneOutput env start carried) := by
  unfold OneOutput
  infer_instance

instance decidableRunProvesOnly : (store : NodeStateStore) → (signedBlocks : List SignedBlock) →
    Decidable (RunProvesOnly env store signedBlocks)
  | _,[] => isTrue trivial
  | store,signedBlock::rest =>
      have := decidableRunProvesOnly (handleSignedBlock env store signedBlock).1 rest
      inferInstanceAs (Decidable (_ ∧ _))

end Provisos

/-- Every blob that waits in a run is for a contract that is registered. -/
theorem registered_handleSignedBlocks (env : Environment) (signedBlocks : List SignedBlock) :
    Registered (handleSignedBlocks env NodeStateStore.default signedBlocks) := by
  have start : Hosted NodeStateStore.default.contracts
      NodeStateStore.default.unsettledTransactions := ⟨⟨[],Queued.start⟩,all_empty⟩
  obtain ⟨_,hosted⟩ := (maintained_hosted env).run ⟨fun _ _ h => h,fun _ _ _ h => h⟩
    (fun _ _ _ _ h => h) (fun _ => start) signedBlocks
  intro tx ht name hn
  obtain ⟨_,he,rfl⟩ := mem_contractNames.mp hn
  obtain ⟨waiting,hm,rfl⟩ := List.mem_map.mp he
  exact hosted.hosts tx.hash tx (mem_pendingTxs.mp ht) waiting.2 (List.mem_map_of_mem hm)

namespace Crossing

open TwoContracts (register registerTx proofTx)

def tx (identity : Identity) (names : List ContractName) : BlobTransaction :=
  ⟨identity,names.map fun name => ⟨name,[]⟩⟩

def aliceTx : BlobTransaction := tx "alice@foo" ["foo"]
def bobTx : BlobTransaction := tx "bob@bar" ["bar"]
def carolTx : BlobTransaction := tx "carol@foo" ["foo","bar"]

def aliceDigest : H256 :=
  ByteVec.ofNat 32 0xa1794882863ff7d6557447b343110cc5b15667816038d25e69e5c0d5e3eb849a

def bobDigest : H256 :=
  ByteVec.ofNat 32 0xc57191fa17baae9b19640a5303bb317efbd461f13c09dabe07642e06e92cbf79

def carolDigest : H256 :=
  ByteVec.ofNat 32 0x03c9a926db369954c88a670b3889d12fb15ffd35ddfc41f390d06ba77d9bcfc1

def hashOf (digest : H256) : TxHash := Bytes.hex digest.toList

/-- The blob at the index takes its contract from one state to another. -/
def entry (digest : H256) (identity : Identity) (index : BlobIndex) (success : Bool)
    (initialState nextState : StateCommitment) : BlobProofOutput where
  blobTxHash := hashOf digest
  originalProofHash := ""
  hyleOutput := { TwoContracts.output with
    initialState := initialState
    nextState := nextState
    identity := identity
    index := index
    txHash := hashOf digest
    success := success }
  programId := [1]

def alice : BlobProofOutput := entry aliceDigest "alice@foo" 0 true [0] [5]
def bob : BlobProofOutput := entry bobDigest "bob@bar" 0 true [0] [6]

/-- Carol's first blob fails in the state that `foo` has at first, and succeeds in the state
that Alice leaves. -/
def carolFailed : BlobProofOutput := entry carolDigest "carol@foo" 0 false [0] [0]
def carolFoo : BlobProofOutput := entry carolDigest "carol@foo" 0 true [5] [7]
def carolBar : BlobProofOutput := entry carolDigest "carol@foo" 1 true [6] [8]

/-- Bob's proof with the state of another contract that it looks at. -/
def bobReads (stateRead : ContractName × StateCommitment) : BlobProofOutput :=
  { bob with hyleOutput := { bob.hyleOutput with stateReads := [stateRead] } }

/-- Alice's proof with the deletion of her contract. -/
def aliceDeletes : BlobProofOutput :=
  { alice with hyleOutput := { alice.hyleOutput with onchainEffects := [.deleteContract "foo"] } }

/-- Dave registers a contract that Bob looks at. -/
def daveTx : BlobTransaction := ⟨"dave@foo",[⟨"foo",[]⟩,register "baz"]⟩

def daveDigest : H256 := ByteVec.ofNat 32 0x46eb0fee294e2c58233c2447c1a8775d5311c294e1800fef228e5388208207d9

def dave : BlobProofOutput := entry daveDigest "dave@foo" 0 true [0] [5]

/-- Forces a failure upon Bob. -/
def nuke : Blob :=
  let failure := { bob.hyleOutput with success := false }
  ⟨"foo",(Borsh.ser (⟨none,none,⟨.ofList ([(hashOf bobDigest,[failure])] : List (TxHash × _))⟩⟩ :
    StructuredBlobData NukeTxAction)).getD []⟩

def erinTx : BlobTransaction := ⟨"erin@foo",[nuke]⟩

def erinDigest : H256 := ByteVec.ofNat 32 0x7ee46c6811bc498d727127173718bf43cecc34f4f2e72c867d84cff3ba9e382e

def erin : BlobProofOutput := entry erinDigest "erin@foo" 0 true [0] [5]

/-- Registers a native verifier. -/
def native : Blob :=
  ⟨"hyle",(Borsh.ser (⟨none,none,⟨"sha3_256",[],[0],"sha3_256",none,none⟩⟩ :
    StructuredBlobData RegisterContractAction)).getD []⟩

def nativeTx : BlobTransaction := ⟨"hyle@hyle",[native]⟩

/-- Frank has a blob that the native verifier refuses, and one of which only the payload names
`bar`. -/
def frankTx : BlobTransaction := ⟨"frank@foo",[⟨"sha3_256",[]⟩,⟨"foo",(register "bar").data⟩]⟩

def frankDigest : H256 := ByteVec.ofNat 32 0xfac5719c66fc6d49e6e8f854b42e8c5b44ce2705aaa1a63a51292caa9ec3a56a

/-- Registers a contract under the name of a native verifier. -/
def namedTx : BlobTransaction := ⟨"hyle@hyle",[register "blst"]⟩

def ginaTx : BlobTransaction := tx "gina@blst" ["blst"]
def henryTx : BlobTransaction := tx "henry@blst" ["blst"]

def ginaDigest : H256 := ByteVec.ofNat 32 0x3241f0b9d061f86b8539713794c38b826c4d220666ec947788797574640f52a3

def henryDigest : H256 := ByteVec.ofNat 32 0x287e04ec1a79750f502563b23ab5c8ee4963e72049b5401c52d53942c327cb40

def gina : BlobProofOutput := entry ginaDigest "gina@blst" 0 true [0] [5]
def henryFailed : BlobProofOutput := entry henryDigest "henry@blst" 0 false [0] [0]
def henry : BlobProofOutput := entry henryDigest "henry@blst" 0 true [5] [9]

def block (slot : UInt64) (txs : List Transaction) : SignedBlock :=
  ⟨[([1],[⟨none,txs⟩])],⟨slot,"",[],[],0⟩,default⟩

def setup (txs : List BlobTransaction) : SignedBlock :=
  block 1 (txs.map fun tx => ⟨1,.blob tx⟩)

def proofs (entries : List BlobProofOutput) : SignedBlock := block 2 (entries.map (proofTx ""))

def blobs : List Blob :=
  [register "foo",register "bar",⟨"foo",[]⟩,⟨"bar",[]⟩,register "baz",
    nuke,native,⟨"sha3_256",[]⟩,⟨"foo",(register "bar").data⟩,register "blst",⟨"blst",[]⟩]

def entries : List BlobProofOutput :=
  [alice,bob,carolFailed,carolFoo,carolBar,bobReads ("foo",[5]),bobReads ("baz",[0]),aliceDeletes,
    dave,erin,gina,henryFailed,henry]

def digests (bytes : List Bytes) (values : List Nat) : List (Bytes × H256) :=
  bytes.zip (values.map (ByteVec.ofNat 32))

def blobDigests : List (Bytes × H256) :=
  digests (blobs.map fun blob => utf8 blob.contractName++blob.data)
    [0x54a930b17902efbb70102a504c95620b28f2fea6cb8f112599cd9201233556c6,
     0x9e300ad88c4313ba93cfea399f7df1b5e7ff7dbadf4d77eb338ac20c3bfbc892,
     0x76d3bc41c9f588f7fcd0d5bf4718f8f84b1c41b20882703100b9eb9413807c01,
     0xcceefd7e0545bcf8b6d19f3b5750c8a3ee8350418877bc6fb12e32de28137355,
     0x845fa18daa6eaf71db2805982f146941081e20950070dff661596e68bc84b80f,
     0x4d7f743dd324ec2b19758a2ed3bdda8fdb916d9f60936b9dba09947806511582,
     0x837a5b0cba17cd428910698ff8719c215909b2811fa1226d664bb1c3e07cc962,
     0x5ae36d2b4b37209703fb327119f63354c93b5a35a07e1397aad3285b37910fe9,
     0xdc2188fcb3f2ad3c07cadbf104e481a3f0eb6adb0e120ec6f4383ca90c52c947,
     0x12227955171e59117e53d8430f497193612e75c0ce0a9e68b02f9490d3990fc9,
     0x86bf545349738d2d11d60094fe568f5bf6dfd46eecd23ba1298e1d5800c51b2e]

def txDigests : List (Bytes × H256) :=
  let sha3 := ByteVec.lookup blobDigests
  digests ([registerTx,aliceTx,bobTx,carolTx,daveTx,erinTx,nativeTx,frankTx,namedTx,ginaTx,
      henryTx].map fun tx => Transaction.preimage sha3 (.blob tx))
    [0xf4ca2603f5a15680ab6f1d72e5657208bf6e68d9b92085f90c0498a72c1681d8,
     0xa1794882863ff7d6557447b343110cc5b15667816038d25e69e5c0d5e3eb849a,
     0xc57191fa17baae9b19640a5303bb317efbd461f13c09dabe07642e06e92cbf79,
     0x03c9a926db369954c88a670b3889d12fb15ffd35ddfc41f390d06ba77d9bcfc1,
     0x46eb0fee294e2c58233c2447c1a8775d5311c294e1800fef228e5388208207d9,
     0x7ee46c6811bc498d727127173718bf43cecc34f4f2e72c867d84cff3ba9e382e,
     0x1c0f88aa1521355f19dacb77ce0fb62a159be7fd648189744e269692b350e0b8,
     0xfac5719c66fc6d49e6e8f854b42e8c5b44ce2705aaa1a63a51292caa9ec3a56a,
     0x85d2d868acc527a84d4088def93fbba58185d2ee731a208db22b7d6e9058d06b,
     0x3241f0b9d061f86b8539713794c38b826c4d220666ec947788797574640f52a3,
     0x287e04ec1a79750f502563b23ab5c8ee4963e72049b5401c52d53942c327cb40]

def outputDigests : List (Bytes × H256) :=
  digests (entries.map (fun entry => entry.hyleOutput.preimage (ByteVec.lookup blobDigests))++
      [(setup []).consensusProposal.preimage,(proofs []).consensusProposal.preimage])
    [0x9eccb2eeb76044cbde6d8ce23b8cbf1fb813b4c8b67c14976a85ffedf9bdca85,
     0xacb88b1ad7abf4e8b595b6ce01c6cae1d52f97320aff1b0fcae42f78f333b82b,
     0x4ae6b5a16a2820a9e13cb8acf22fdaaaef56f8401c5085a667907c6a19e2f39c,
     0x8ef94089a1e687abb00066e686cd19bd677b0b25225d772b375cfea854d8f656,
     0xb94311b211f6743aebb3bd65549e654536a469e6ddf3272621c50a1857bde820,
     0xacb88b1ad7abf4e8b595b6ce01c6cae1d52f97320aff1b0fcae42f78f333b82b,
     0xacb88b1ad7abf4e8b595b6ce01c6cae1d52f97320aff1b0fcae42f78f333b82b,
     0x852b4fe2b48d4d2c2da52e69be667099e6a5c7b3b0dbbd01a1b430465774f8fd,
     0x3e0633ab4fb65aba9f520d2e0803cb6dee2278649e71cfbd7884fecd2bafb357,
     0x94c89dec9d7d737e6a7ec640abbc495fa173b1f699b920c5cb7825724f46ad94,
     0x2d05d648fd1a02f72a87c5b3cb72ba66c626bca333cb1e0dbc6f9de4262ba651,
     0xe5ecebe9f706ee629c41740b3bf892c15e67af862fee580d3624d88cbed6591c,
     0x65a27981a36b51a7223072caca2e40a028bdaad3498300112f62ef029208f4e1,
     0x152058c4aded5c45e6c5b36c46c22faa4172e1829870023dacbcce408221b1c4,
     0xd69be0d35a02eaad6d4ff3316a44ef7e5c12a8dd819f592e1835eebb0a601748]

def entryDigests : List (Bytes × H256) :=
  digests (entries.map fun entry => entry.preimage (ByteVec.lookup outputDigests))
    [0xc96aa45244479e90fafc9b6010d388ac7b7e1f99e8969aeff72b2f92f70e804b,
     0xdab55b66d318ab4770cdb655c770af5de496bba6d6ef28ee724abf3bd67e8324,
     0x6fdf230552bf623304b49df1034df115837524ae4b95ecdfb51656f1feb44a8e,
     0x4c21d5364b235e29312609e3ff284ec24fc9a5a487728aaa7ddf6459c63d6faa,
     0xbd1ba0debf92fd53fb1b0890f6ba9373c0ae8cd349b6747c7aec9ad1360333ad,
     0xdab55b66d318ab4770cdb655c770af5de496bba6d6ef28ee724abf3bd67e8324,
     0xdab55b66d318ab4770cdb655c770af5de496bba6d6ef28ee724abf3bd67e8324,
     0x27c6c608a06c957b5ac358942d283489a9c14f18ed9f2ea7c88ca44e2ba33050,
     0xe1213f435ae941cdac267152e8a4e39ee466a7bee85c19f17b38530b79b592d7,
     0xb10a8e2f46de9c04cc5ed917d92fdd57e2b0857697e697e55fb20c21d892a4fd,
     0x1f3407c98bd14d8ee716baf936178b0b494a0018aa265a6143e6f0f5dd0326d1,
     0xc5dbe0bbefdb699969350f66d2fc76d8fd26c969ec8b1ff1d65d9b99d7cdae2b,
     0x6363a5432be2abab51398cfa1060807f2d5573ca6c7ce73b9383892b92f96f21]

def proofDigests : List (Bytes × H256) :=
  let sha3 := ByteVec.lookup (blobDigests++txDigests++outputDigests++entryDigests)
  digests (entries.map fun entry => Transaction.preimage sha3 (proofTx "" entry).transactionData)
    [0x20a95943d2c355c461ee05f99a0cc9aac475f44f1e95ef646bb41e5c4b589b3a,
     0x721d1075b7aae021371ba7d3e94bccf0dc4d568016fe57e3982459bd16bc42df,
     0x674a3f897b2a3a95ba532f32c3c9874fbc74f3a7557d48830f0fdf7eec09110f,
     0xfe54b15765ba4ff61eca98c8f931522d9f6635c92f1ed2dbf0d6110750a7235d,
     0x16a7f07b9a0498b578f2e6e6ae1deb2e9bb6e0f272c3a0a4aeec839502964631,
     0x721d1075b7aae021371ba7d3e94bccf0dc4d568016fe57e3982459bd16bc42df,
     0x721d1075b7aae021371ba7d3e94bccf0dc4d568016fe57e3982459bd16bc42df,
     0xd18787a1cb7f4763c93c373205e9b3819779b36fc5aacd08f849f355347dfcfd,
     0x9f0ab7e5d0d5173378fb13886ad801b70fe59f5bdc374c2233313ddcc1b8bbdf,
     0x64e71d5764a9daca57214d3729ffc5623a1350234252f4b9925e023ff2c5894f,
     0xa98ce75d34d85c442ebf9a325971f7fb90b2cb15933f31e68216b54cac3e1be9,
     0x18ea40d3bbeb23fc92666096d8757ca7c96a94761ce3f08c830ef0e216a93891,
     0x17af3146c0cbb1da32a2422ef16069410a2c2ca11e9f4414643710238fbd8cc9]

/-- SHA3-256 at the byte strings that the blocks lead to. -/
def env : Environment :=
  let digests := blobDigests++txDigests++outputDigests++entryDigests++proofDigests
  { TwoContracts.env with sha3 := ByteVec.lookup digests }

/-- Transactions that wait, two orders of the same proofs, and the transaction that succeeds with
the first order only. -/
structure Orders where
  waiting : List BlobTransaction
  first : List BlobProofOutput
  second : List BlobProofOutput
  hash : TxHash

/-- For each proviso, proofs that break it and no other one. -/
def orders : Proviso → Orders
  | .single => ⟨[registerTx,aliceTx,bobTx,carolTx],[carolFailed,carolFoo,carolBar,alice,bob],
      [carolFailed,carolFoo,carolBar,bob,alice],hashOf carolDigest⟩
  | .ordinary => ⟨[namedTx,ginaTx,henryTx],[gina,henry,henryFailed],[henryFailed,gina,henry],
      hashOf henryDigest⟩
  | .conflicts => ⟨[registerTx,aliceTx,bobTx],[alice,bobReads ("foo",[5])],
      [bobReads ("foo",[5]),alice],hashOf bobDigest⟩
  | .payloads => ⟨[registerTx,nativeTx,aliceTx,frankTx,bobTx],[alice,bob],[bob,alice],
      hashOf bobDigest⟩
  | .hyle => ⟨[registerTx,daveTx,bobTx],[dave,bobReads ("baz",[0])],[bobReads ("baz",[0]),dave],
      hashOf bobDigest⟩
  | .nukes => ⟨[registerTx,erinTx,bobTx],[bob,erin],[erin,bob],hashOf bobDigest⟩
  | .deletions => ⟨[registerTx,aliceTx,carolTx,bobTx],[aliceDeletes,bob],[bob,aliceDeletes],
      hashOf bobDigest⟩

/-- The store in which the transactions wait. -/
def Orders.store (orders : Orders) : NodeStateStore :=
  handleSignedBlocks env NodeStateStore.default [setup orders.waiting]

/-- The proofs of Carol's transaction without the failed one. -/
def proven : Orders :=
  ⟨(orders .single).waiting,[carolFoo,carolBar,alice,bob],[carolFoo,carolBar,bob,alice],
    hashOf carolDigest⟩

/-- Both orders can be handled. -/
def Orders.Run (orders : Orders) : Prop :=
  (carriedProofs env [proofs orders.first]=orders.first ∧
    carriedProofs env [proofs orders.second]=orders.second) ∧
  RunProvesOnly env orders.store [proofs orders.first] ∧
    RunProvesOnly env orders.store [proofs orders.second] ∧
  OneOutput env orders.store.unsettledTransactions orders.first

instance (orders : Orders) : Decidable orders.Run := inferInstanceAs (Decidable (_ ∧ _ ∧ _ ∧ _))

def Orders.successes (orders : Orders) (entries : List BlobProofOutput) : List TxHash :=
  (sealedBlocks env orders.store [proofs entries]).flatMap fun block => block.successfulTxs

def provisos : List Proviso :=
  [.single,.ordinary,.conflicts,.payloads,.hyle,.nukes,.deletions]

theorem mem_provisos (proviso : Proviso) : proviso∈provisos := by
  cases proviso <;> decide

end Crossing

open Crossing

theorem runs_orders (proviso : Proviso) : (orders proviso).Run ∧
    (∀ other ∈ provisos,other≠proviso → other.Holds env (orders proviso).store
      (orders proviso).first) ∧
    (orders proviso).hash∈(orders proviso).successes (orders proviso).first ∧
    (orders proviso).hash∉(orders proviso).successes (orders proviso).second := by
  cases proviso <;> decide +kernel

theorem runs_proven : proven.Run ∧ ∀ proviso ∈ provisos,
    proviso.Holds env proven.store proven.first := by
  decide +kernel

theorem orderIndependent_crossing :
    SameOutcome env proven.store [proofs proven.first] [proofs proven.second] := by
  obtain ⟨⟨⟨left,right⟩,runs,runs',outputs⟩,holds⟩ := runs_proven
  have registered : Registered proven.store :=
    registered_handleSignedBlocks env [setup proven.waiting]
  have orderly : Orderly env proven.store proven.first :=
    (orderly_iff _ _ _).mpr ⟨registered,fun proviso => holds proviso (mem_provisos proviso)⟩
  refine orderIndependent (wellNamed_handleSignedBlocks env [setup proven.waiting]) runs runs' ?_
    (left.symm ▸ outputs) (left.symm ▸ orderly)
  intro entry
  rw [left,right]
  have swapped : [carolFoo,carolBar,alice,bob].Perm [carolFoo,carolBar,bob,alice] :=
    ((List.Perm.swap bob alice []).cons carolBar).cons carolFoo
  exact swapped.mem_iff

theorem mem_first_iff_mem_second (proviso : Proviso) (entry : BlobProofOutput) :
    entry∈(orders proviso).first ↔ entry∈(orders proviso).second := by
  cases proviso with
  | single =>
    have swapped : [alice,bob].Perm [bob,alice] := List.Perm.swap bob alice []
    exact (swapped.append_left [carolFailed,carolFoo,carolBar]).mem_iff
  | ordinary =>
    have rotated : ([gina,henry]++[henryFailed]).Perm ([henryFailed]++[gina,henry]) :=
      List.perm_append_comm
    exact rotated.mem_iff
  | _ => exact (List.Perm.swap _ _ []).mem_iff

/-- None of the provisos can be left out: without it there are proofs whose order matters. -/
theorem not_orderIndependent : ¬∃ proviso : Proviso,∀ first second : List SignedBlock,
    let store := (orders proviso).store
    RunProvesOnly env store first → RunProvesOnly env store second →
    (∀ entry,entry∈carriedProofs env first ↔ entry∈carriedProofs env second) →
    OneOutput env store.unsettledTransactions (carriedProofs env first) →
    (∀ other : Proviso,other≠proviso → other.Holds env store (carriedProofs env first)) →
    SameOutcome env store first second := by
  intro ⟨proviso,h⟩
  obtain ⟨⟨⟨left,right⟩,runs,runs',outputs⟩,holds,succeeds,waits⟩ := runs_orders proviso
  have same : ∀ entry,entry∈carriedProofs env [proofs (orders proviso).first] ↔
      entry∈carriedProofs env [proofs (orders proviso).second] := by
    rw [left,right]
    exact mem_first_iff_mem_second proviso
  have outcome := h [proofs (orders proviso).first] [proofs (orders proviso).second] runs runs' same
    (left.symm ▸ outputs) (left.symm ▸ fun other => holds other (mem_provisos other))
  exact waits ((outcome.successes (orders proviso).hash).mp succeeds)

end TruthSeeker.NodeState
