import TruthSeeker.NodeState.Histories
import TruthSeeker.NodeState.TimeoutSchedule

namespace TruthSeeker.NodeState

variable {env : Environment}

theorem currentHeight_rescheduleTimeout (store : NodeStateStore) (hash : TxHash) :
    (rescheduleTimeout store hash).currentHeight=store.currentHeight := by
  unfold rescheduleTimeout
  split
  · exact currentHeight_scheduleTimeout
  · rfl

/-- No call changes the height. -/
theorem maintained_height (env : Environment) (height : BlockHeight) :
    Maintained env (fun _ => True) fun _ work => work.store.currentHeight=height where
  note _ _ _ _ h := h
  call := by
    intro past moment _ h
    obtain ⟨order,work,call⟩ := moment
    dsimp only at h ⊢
    rw [← h]
    cases call with
    | settle bth => exact (sameClock_settleTx env bth work).2
    | sequence parentDpHash laneId tx =>
      unfold Moment.after
      dsimp only
      split
      · next handled store hh =>
        unfold handleBlobTx at hh
        split at hh
        · cases hh
        · split at hh
          · obtain ⟨_,rfl⟩ := Prod.mk.inj (Except.ok.inj hh)
            rfl
          · obtain ⟨_,rfl⟩ := Prod.mk.inj (Except.ok.inj hh)
            exact currentHeight_scheduleTimeout
      · rfl
    | prove proofTxHash entry =>
      unfold Moment.after handleBlobProof
      dsimp only
      repeat' split
      all_goals rfl
    | timeOut txHash =>
      unfold Moment.after Work.drop
      dsimp only
      split <;> rfl
    | reschedule hashes =>
      exact List.foldlRecOn
        (motive := fun store : NodeStateStore => store.currentHeight=work.store.currentHeight)
        _ _ rfl fun store hs hash _ => (currentHeight_rescheduleTimeout store hash).trans hs

theorem currentHeight_handleSignedBlock (env : Environment) {store : NodeStateStore}
    {signedBlock : SignedBlock} (ho : InOrder store signedBlock) :
    (handleSignedBlock env store signedBlock).1.currentHeight=signedBlock.height := by
  have kept := @Maintained.blockWork env _ [] (maintained_height env signedBlock.height)
    ⟨fun _ _ h => h,fun _ _ _ h => h⟩ [] store signedBlock ho rfl
  rw [handleSignedBlock_of_inOrder ho]
  exact kept

/-- Exactly a block out of order is refused. -/
theorem isOk_handleSignedBlock_iff (env : Environment) {store : NodeStateStore}
    {signedBlock : SignedBlock} :
    (handleSignedBlock env store signedBlock).2.isOk=true ↔ InOrder store signedBlock := by
  constructor
  · intro ok
    cases hh : (handleSignedBlock env store signedBlock).2 with
    | error e =>
      rw [hh] at ok
      cases ok
    | ok block => exact inOrder_of_ok hh
  · intro ho
    rw [handleSignedBlock_of_inOrder ho]
    rfl

end TruthSeeker.NodeState
