import TruthSeeker.NodeState.ContractChanges

namespace TruthSeeker

theorem UnsettledBlobTransaction.identity_pushProof (self : UnsettledBlobTransaction)
    (index : BlobIndex) (proof : ProgramId × HyleOutput) :
    (self.pushProof index proof).identity=self.identity := by
  unfold UnsettledBlobTransaction.pushProof
  split <;> rfl

namespace NodeState

open OrderedTxMap

/-- The transaction is another one with at most some proofs more. -/
structure Retains (tx old : UnsettledBlobTransaction) : Prop where
  hash : tx.hash=old.hash
  identity : tx.identity=old.identity
  blobs : ∀ (index : BlobIndex) (metadata : UnsettledBlobMetadata),
    tx.blobs[index]?=some metadata →
    ∃ before,old.blobs[index]?=some before ∧ metadata.blob=before.blob

theorem Retains.refl (tx : UnsettledBlobTransaction) : Retains tx tx :=
  ⟨rfl,rfl,fun _ metadata hm => ⟨metadata,hm,rfl⟩⟩

theorem Retains.pushProof {tx old : UnsettledBlobTransaction} (h : Retains tx old)
    (index : BlobIndex) (proof : ProgramId × HyleOutput) :
    Retains (tx.pushProof index proof) old where
  hash := (tx.hash_pushProof index proof).trans h.hash
  identity := (tx.identity_pushProof index proof).trans h.identity
  blobs := by
    intro i metadata hm
    obtain ⟨mid,hmid,same,_⟩ := tx.getElem?_pushProof hm
    obtain ⟨before,hb,eq⟩ := h.blobs i mid hmid
    exact ⟨before,hb,same.trans eq⟩

/-- What a property of pending transactions must withstand for calls that fit: those which
bring a transaction or a proof, and settlements, which may force outputs. -/
structure Vetted (env : Environment) (Fits : Moment → Prop)
    (P : UnsettledBlobTransaction → Prop) : Prop where
  sequenced : ∀ order work parentDpHash laneId tx,
    Fits ⟨order,work,.sequence parentDpHash laneId tx⟩ → checkBlobTx env work.store tx=.ok () →
    P (unsettledBlobTransaction env work.store parentDpHash tx (txContext laneId work.block))
  proven : ∀ order work proofTxHash entry tx,Fits ⟨order,work,.prove proofTxHash entry⟩ →
    work.pending.map[entry.blobTxHash]?=some tx →
    verifyHyleOutput env tx entry.hyleOutput=.ok () → P tx →
    P (tx.pushProof entry.hyleOutput.index (entry.programId,entry.hyleOutput))
  forced : ∀ order work bth settledTx result old tx update,Fits ⟨order,work,.settle bth⟩ →
    (Moment.mk order work (.settle bth)).settled env=some (settledTx,result) →
    work.pending.map[old.hash]?=some old → Retains tx old → P tx →
    Forces settledTx tx.hash update → P (tx.pushProof update.2.index update)

section Calls
variable {env : Environment} {P : UnsettledBlobTransaction → Prop} {work : Work}

theorem pending_handleBlobTx {store next : NodeStateStore} {parentDpHash : DataProposalHash}
    {tx : BlobTransaction} {txContext : TxContext} {handled : BlobTxHandled}
    (h : handleBlobTx env store parentDpHash tx txContext=.ok (handled,next)) :
    checkBlobTx env store tx=.ok () ∧
      (next.unsettledTransactions=store.unsettledTransactions ∨ ∃ isNext,
        store.unsettledTransactions.add (unsettledBlobTransaction env store parentDpHash tx
          txContext)=some (next.unsettledTransactions,isNext)) := by
  unfold handleBlobTx at h
  cases hc : checkBlobTx env store tx with
  | error e => simp [hc] at h
  | ok u =>
    simp only [hc] at h
    refine ⟨rfl,?_⟩
    split at h
    · obtain ⟨_,rfl⟩ := Prod.mk.inj (Except.ok.inj h)
      exact Or.inl rfl
    · next pending isNext ha =>
      obtain ⟨_,rfl⟩ := Prod.mk.inj (Except.ok.inj h)
      rw [scheduleTimeout_unsettledTransactions]
      exact Or.inr ⟨isNext,ha⟩

theorem pending_handleBlobProof (env : Environment) (proofTxHash : TxHash) (work : Work)
    (entry : BlobProofOutput) :
    (handleBlobProof env proofTxHash work entry).1.pending=work.pending ∨
    ∃ tx,work.pending.map[entry.blobTxHash]?=some tx ∧
      verifyHyleOutput env tx entry.hyleOutput=.ok () ∧
      (handleBlobProof env proofTxHash work entry).1.pending=
        work.pending.pushProof entry.blobTxHash entry.hyleOutput.index
          (entry.programId,entry.hyleOutput) := by
  unfold handleBlobProof
  dsimp only
  cases hg : work.pending.getForSettlement entry.blobTxHash with
  | none => exact Or.inl rfl
  | some found =>
    obtain ⟨unsettledTx,shouldSettle⟩ := found
    obtain ⟨tx,hf,hp⟩ := Option.map_eq_some_iff.mp hg
    obtain ⟨rfl,_⟩ := Prod.mk.inj hp
    dsimp only
    cases hv : verifyHyleOutput env tx entry.hyleOutput with
    | error e => exact Or.inl rfl
    | ok u =>
      dsimp only
      split
      · exact Or.inl rfl
      · exact Or.inr ⟨tx,hf,hv,rfl⟩

theorem all_rescheduleTimeout {hashes : TxHashSet} {store : NodeStateStore}
    (h : All P store.unsettledTransactions) :
    All P (hashes.toList.foldl rescheduleTimeout store).unsettledTransactions :=
  List.foldlRecOn (motive := fun store : NodeStateStore => All P store.unsettledTransactions)
    _ _ h fun _ hs _ _ => by rwa [rescheduleTimeout_unsettledTransactions]

/-- Each pending transaction is one of an earlier map with at most some proofs more. -/
def Retained (earlier : OrderedTxMap) (tx : UnsettledBlobTransaction) : Prop :=
  ∃ old,earlier.map[old.hash]?=some old ∧ Retains tx old

theorem all_retained (pending : OrderedTxMap) : All (Retained pending) pending := by
  intro hash tx ht
  refine ⟨tx,?_,Retains.refl tx⟩
  rw [pending.hash_eq hash tx ht]
  exact ht

/-- A settlement withstands the outputs that it forces. -/
theorem all_settleTx_of_forced {order : List TxHash} {bth : TxHash} (h : All P work.pending)
    (hf : ∀ settledTx result,
      (Moment.mk order work (.settle bth)).settled env=some (settledTx,result) →
      ∀ old tx update,work.pending.map[old.hash]?=some old → Retains tx old → P tx →
        Forces settledTx tx.hash update → P (tx.pushProof update.2.index update)) :
    All P (settleTx env bth work).1.pending := by
  obtain ⟨block,_,eq⟩|⟨tx,rest,result,hr,ht,eq⟩ := settleTx_outcome env bth work
  · rw [eq]
    exact h
  · rw [eq]
    have gone : All P rest := (h.remove hr).2
    cases result with
    | error e => exact gone
    | ok result =>
      have settled := @Moment.settled_of_ok env tx result order work bth rest hr ht
      have retained : All (Retained work.pending) rest := ((all_retained work.pending).remove hr).2
      have start : All (fun tx => P tx ∧ Retained work.pending tx) rest :=
        fun hash tx hm => ⟨gone hash tx hm,retained hash tx hm⟩
      have force : WithstandsForce (fun tx => P tx ∧ Retained work.pending tx) tx := by
        intro next update hnext forces
        obtain ⟨hp,old,ho,retains⟩ := hnext
        exact ⟨hf tx result settled old next update ho retains hp forces,
          old,ho,retains.pushProof _ _⟩
      have all : All (fun tx => P tx ∧ Retained work.pending tx)
          (onSettledBlobTx bth tx (settling env bth work tx rest) (.ok result)).1.pending :=
        all_onSettledBlobTx force start
      exact fun hash tx hm => (all hash tx hm).1

end Calls

namespace Vetted

variable {env : Environment} {Fits : Moment → Prop} {P : UnsettledBlobTransaction → Prop}

theorem after (hv : Vetted env Fits P) {moment : Moment} (hm : Fits moment)
    (h : All P moment.work.pending) : All P (moment.after env).pending := by
  obtain ⟨order,work,call⟩ := moment
  cases call with
  | sequence parentDpHash laneId tx =>
    unfold Moment.after
    dsimp only
    split
    · next handled store hh =>
      obtain ⟨checked,same|⟨isNext,added⟩⟩ := pending_handleBlobTx hh
      · show All P store.unsettledTransactions
        rw [same]
        exact h
      · exact h.add (hv.sequenced order work parentDpHash laneId tx hm checked) added
    · exact h
  | prove proofTxHash entry =>
    show All P (handleBlobProof env proofTxHash work entry).1.pending
    obtain same|⟨tx,ht,verified,pushed⟩ := pending_handleBlobProof env proofTxHash work entry
    · rw [same]
      exact h
    · rw [pushed]
      apply h.pushProof
      intro found hf hP
      obtain rfl := Option.some.inj (ht.symm.trans hf)
      exact hv.proven order work proofTxHash entry tx hm ht verified hP
  | settle bth =>
    exact all_settleTx_of_forced h fun settledTx result hs old tx update =>
      hv.forced order work bth settledTx result old tx update hm hs
  | timeOut txHash =>
    show All P (work.drop txHash).pending
    unfold Work.drop
    split
    · exact h
    · next hr => exact (h.remove hr).2
  | reschedule hashes => exact all_rescheduleTimeout h

theorem maintained (hv : Vetted env Fits P) : Maintained env (fun _ => True) fun past work =>
    (∀ moment ∈ past,Fits moment) → All P work.pending where
  note _ _ _ _ h := h
  call := by
    intro past moment _ h fits
    exact hv.after (fits moment (by simp)) (h fun m hm => fits m (by simp [hm]))

/-- In a run whose calls all fit, all pending transactions have the property at any time. -/
theorem moments (hv : Vetted env Fits P) {signedBlocks : List SignedBlock}
    (hf : ∀ moment ∈ NodeState.moments env signedBlocks,Fits moment) :
    ∀ moment ∈ NodeState.moments env signedBlocks,All P moment.work.pending := by
  intro moment hm
  obtain ⟨earlier,later,eq⟩ := List.append_of_mem hm
  have all := hv.maintained.before ⟨fun _ _ h => h,fun _ _ _ h => h⟩ (fun _ _ _ _ h => h)
    (fun _ _ => all_empty) eq
  refine all fun m hmem => hf m ?_
  rw [eq]
  exact List.mem_append_left _ hmem

end Vetted

end NodeState

end TruthSeeker
