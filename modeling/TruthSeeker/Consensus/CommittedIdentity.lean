import TruthSeeker.Consensus.CommitJustified

namespace TruthSeeker

/-- The slot that an entry ends with the commit of its proposal. -/
def Entry.endedSlot (entry : Entry) : Option Slot :=
  match entry.deed with
  | .applied ticket => if ticket.endsSlot then some entry.round.slot else none
  | _ => none

/-- The node has committed the proposal of the slot by a ticket. -/
def Ended (log : List Entry) (slot : Slot) : Prop := ∃ entry ∈ log,entry.endedSlot=some slot

theorem ended_append {log entries : List Entry} {slot : Slot} :
    Ended (log++entries) slot ↔ Ended log slot ∨ Ended entries slot := by
  simp only [Ended,List.mem_append,or_and_right,exists_or]

theorem ended_singleton {entry : Entry} {slot : Slot} :
    Ended [entry] slot ↔ entry.endedSlot=some slot := by
  simp [Ended]

namespace Consensus

variable {PublicKey BlstSignature : Type} (self : Consensus PublicKey BlstSignature)

/-- After the commit of the proposal of the last slot, the current proposal is the parent. -/
def KeepsIdentity (n : Node) : Prop :=
  Ended n.log n.bftRoundState.currentProposal.slot →
    n.bftRoundState.currentProposal.slot.toNat+1=n.bftRoundState.slot.toNat →
    n.bftRoundState.currentProposal.hashed self.sha3=n.bftRoundState.parentHash

/-- The commits are of proposals whose hash does not read the staking actions that are taken
out, and no block of a slot that the node has committed puts a placeholder with another hash in
the place of its proposal. -/
structure Undisturbed (node : Consensus PublicKey BlstSignature) (n : Node) : Prop where
  commits : ∀ entry ∈ n.log,entry.endedSlot.isSome=true →
    ({ entry.round.currentProposal with stakingActions := [] } : ConsensusProposal).hashed
      node.sha3=entry.round.currentProposal.hashed node.sha3
  blocks : ∀ before entry after block,n.log=before++entry::after →
    entry.deed=.followed block → Ended before block.blockHeight →
    (Node.followBlock block entry.round).currentProposal.hashed node.sha3=block.hash

variable {self} {n m : Node}

theorem Undisturbed.of_change (h : Undisturbed self m) (hc : self.Change n m) :
    Undisturbed self n := by
  obtain ⟨entries,hl⟩ := change_log hc
  constructor
  · intro entry he
    exact h.commits entry ((change_log hc).subset he)
  · intro before entry after block hn
    apply h.blocks before entry (after++entries) block
    rw [← hl,hn,List.append_assoc,List.cons_append]

/-- A change that commits nothing and leaves slot, parent and proposal alone. -/
theorem KeepsIdentity.of_eq (h : self.KeepsIdentity n) {entries : List Entry}
    (hl : m.log=n.log++entries) (he : ∀ entry ∈ entries,entry.endedSlot=none)
    (slot : m.bftRoundState.slot=n.bftRoundState.slot)
    (current : m.bftRoundState.currentProposal=n.bftRoundState.currentProposal)
    (parent : m.bftRoundState.parentHash=n.bftRoundState.parentHash) : self.KeepsIdentity m := by
  unfold KeepsIdentity
  rw [hl,slot,current,parent,ended_append]
  intro ended
  apply h
  apply ended.resolve_right
  intro ⟨entry,hm,ends⟩
  rw [he entry hm] at ends
  cases ends

/-- Nothing is asked of a node whose current proposal is not one of the slot before. -/
theorem KeepsIdentity.of_slot
    (h : m.bftRoundState.currentProposal.slot.toNat+1≠m.bftRoundState.slot.toNat) :
    self.KeepsIdentity m :=
  fun _ last => absurd last h

theorem keepsIdentity_change (hu : Undisturbed self m) (h : self.KeepsIdentity n)
    (hc : self.Change n m) : self.KeepsIdentity m := by
  cases hc with
  | accepted prepare _ slot _ =>
    apply KeepsIdentity.of_slot
    show prepare.2.1.slot.toNat+1≠n.bftRoundState.slot.toNat
    rw [slot]
    omega
  | created proposal slot =>
    apply KeepsIdentity.of_slot
    show proposal.slot.toNat+1≠n.bftRoundState.slot.toNat
    rw [slot]
    omega
  | recalled proposal _ later =>
    apply KeepsIdentity.of_slot
    show proposal.slot.toNat+1≠n.bftRoundState.slot.toNat
    have := UInt64.lt_iff_toNat_lt.mp later
    omega
  | joined qc =>
    apply KeepsIdentity.of_slot
    show n.bftRoundState.currentProposal.slot.toNat+1≠n.bftRoundState.currentProposal.slot.toNat
    omega
  | followed block =>
    intro ended _
    apply hu.blocks n.log ⟨n.bftRoundState,.followed block⟩ [] block rfl rfl
    obtain before|now := ended_append.mp ended
    · exact before
    · simp [ended_singleton,Entry.endedSlot] at now
  | appliedCommit ticket qc ends =>
    intro _ _
    apply hu.commits ⟨n.bftRoundState,.applied ticket⟩ (List.mem_append_right _ List.mem_cons_self)
    simp [Entry.endedSlot,ends]
  | appliedTimeout qc kind =>
    refine h.of_eq rfl ?_ rfl rfl rfl
    simp [Entry.endedSlot,Ticket.endsSlot]
  | seenPrepareQc qc proposal _ whose =>
    have seen : self.KeepsIdentity (n.performRound (.seenPrepareQc n.bftRoundState.slot qc
        proposal) fun round => round.updatePrepareQc n.bftRoundState.slot qc proposal) := by
      obtain ⟨_,_,_,same⟩|⟨_,stored⟩ := n.bftRoundState.updatePrepareQc_cases
        n.bftRoundState.slot qc proposal
      · refine h.of_eq rfl (by simp [Entry.endedSlot]) ?_ ?_ ?_
        · exact (congrArg BFTRoundState.slot same :)
        · exact (congrArg BFTRoundState.currentProposal same :)
        · exact (congrArg BFTRoundState.parentHash same :)
      · obtain rfl|slot := whose
        · refine h.of_eq rfl (by simp [Entry.endedSlot]) ?_ ?_ ?_
          · exact (congrArg BFTRoundState.slot stored :)
          · exact (congrArg BFTRoundState.currentProposal stored :)
          · exact (congrArg BFTRoundState.parentHash stored :)
        · apply KeepsIdentity.of_slot
          show (n.bftRoundState.updatePrepareQc _ qc proposal).currentProposal.slot.toNat+1≠
            (n.bftRoundState.updatePrepareQc _ qc proposal).slot.toNat
          rw [stored]
          show proposal.slot.toNat+1≠n.bftRoundState.slot.toNat
          rw [slot]
          omega
    exact seen
  | candidates | staking | schedule | retag | push | reset | leader =>
    exact h.of_eq (List.append_nil _).symm (by simp) rfl rfl rfl
  | _ => exact h.of_eq rfl (by simp [Entry.endedSlot]) rfl rfl rfl

/-- In every state of a run that nothing disturbs, the proposal that the node has committed
for the last slot is found under the hash of the parent. -/
theorem keepsIdentity_of_run (n : Node) (run : self.Run n) (hu : Undisturbed self n) :
    self.KeepsIdentity n := by
  refine run_induction (I := fun n => Undisturbed self n → self.KeepsIdentity n) ?_ ?_ run hu
  · intro n fresh _ ended
    obtain ⟨entry,he,ends⟩ := ended
    obtain ⟨_,sent⟩|sent := fresh.log entry he
    · simp [Entry.endedSlot,sent] at ends
    · simp [Entry.endedSlot,sent] at ends
  · intro n m _ ih hc hu
    exact keepsIdentity_change hu (ih (hu.of_change hc)) hc

end Consensus

namespace FourValidators

open Consensus

def payingPrepared : Node := fourth.after (prepareOf paying) (started fourth)

def payingCommitted : Node := fourth.after (commitOf payingDigest) payingPrepared

/-- The commits of a history leave the hash of their proposals alone, and no block is followed. -/
def undisturbedBy (entry : Entry) : Bool :=
  match entry.deed with
  | .followed _ => false
  | .applied _ => ({ entry.round.currentProposal with stakingActions := [] } :
      ConsensusProposal).hashed fourth.sha3=entry.round.currentProposal.hashed fourth.sha3
  | _ => true

/-- The node has ended the first slot and holds its proposal still. -/
def heldAfterFirst (n : Node) : Bool :=
  n.log.any (fun entry => entry.endedSlot=some 1) && n.bftRoundState.currentProposal.slot=1 &&
    n.bftRoundState.slot=2

theorem commits_and_pays :
    (committed.log.all undisturbedBy=true ∧ heldAfterFirst committed=true) ∧
    (fourth.handle 0 (prepareOf paying) (started fourth)).1.panics=false ∧
    (fourth.handle 0 (commitOf payingDigest) payingPrepared).1.panics=false ∧
    heldAfterFirst payingCommitted=true ∧
    payingCommitted.bftRoundState.currentProposal.hashed fourth.sha3≠
      payingCommitted.bftRoundState.parentHash := by
  decide +kernel

theorem held {n : Node} (h : heldAfterFirst n=true) :
    Ended n.log n.bftRoundState.currentProposal.slot ∧
      n.bftRoundState.currentProposal.slot.toNat+1=n.bftRoundState.slot.toNat := by
  simp only [heldAfterFirst,Bool.and_eq_true,List.any_eq_true,decide_eq_true_eq] at h
  obtain ⟨⟨ended,current⟩,slot⟩ := h
  rw [current,slot]
  exact ⟨ended,rfl⟩

theorem undisturbed_committed : Undisturbed fourth committed := by
  have all := commits_and_pays.1.1
  rw [List.all_eq_true] at all
  constructor
  · intro entry he ends
    have apart := all entry he
    cases hd : entry.deed with
    | applied ticket =>
      simp only [undisturbedBy,hd,decide_eq_true_eq] at apart
      exact apart
    | _ => simp [Entry.endedSlot,hd] at ends
  · intro before entry after block hl hd
    have apart := all entry (hl ▸ List.mem_append_right _ List.mem_cons_self)
    simp [undisturbedBy,hd] at apart

end FourValidators

open FourValidators in
/-- The first proposal has no staking actions. -/
theorem Consensus.keepsIdentity_committed :
    (Ended committed.log committed.bftRoundState.currentProposal.slot ∧
      committed.bftRoundState.currentProposal.slot.toNat+1=committed.bftRoundState.slot.toNat) ∧
    fourth.KeepsIdentity committed :=
  ⟨held commits_and_pays.1.2,keepsIdentity_of_run committed run_committed undisturbed_committed⟩

open FourValidators in
/-- The hash of a proposal that pays fees is not that of the parent any more once it has been
committed. -/
theorem Consensus.not_keepsIdentity : ¬∀ n : Node,fourth.Run n → fourth.KeepsIdentity n := by
  intro keeps
  have facts := commits_and_pays.2
  have run : fourth.Run payingCommitted :=
    ((run_started commits_and_forces.1.1).after facts.1).after facts.2.1
  have last := held facts.2.2.1
  exact facts.2.2.2 (keeps _ run last.1 last.2)

end TruthSeeker
