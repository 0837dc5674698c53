import TruthSeeker.Consensus.LockConsistency

namespace TruthSeeker

/-- The proposal that an entry signs a prepare vote for. -/
def Entry.prepareVote (entry : Entry) : Option ConsensusProposalHash :=
  match entry.deed with
  | .sent (.message _ (.prepareVote vote)) => some vote.msg.1
  | _ => none

/-- The proposal that an entry signs a commit vote for. -/
def Entry.confirmAck (entry : Entry) : Option ConsensusProposalHash :=
  match entry.deed with
  | .sent (.message _ (.confirmAck ack)) => some ack.msg.1
  | _ => none

/-- Two votes of one slot and view are for one proposal. -/
def SignsOnce (vote : Entry → Option ConsensusProposalHash) (log : List Entry) : Prop :=
  ∀ entry ∈ log,∀ other ∈ log,∀ hash hash',vote entry=some hash → vote other=some hash' →
    entry.round.slot=other.round.slot → entry.round.view=other.round.view → hash=hash'

namespace Consensus

variable {PublicKey BlstSignature : Type} (self : Consensus PublicKey BlstSignature)

/-- A proposal of that hash has been accepted for the slot and view. -/
def AcceptedFor (log : List Entry) (slot : Slot) (view : View) (hash : ConsensusProposalHash) :
    Prop :=
  ∃ entry ∈ log,∃ prepare,entry.deed=.accepted prepare ∧ prepare.2.1.hashed self.sha3=hash ∧
    prepare.2.1.slot=slot ∧ prepare.2.2.2=view

/-- One proposal at most passes the checks of a slot and view, and where a confirmation passes
those of `on_confirm`, the node has accepted its current proposal for the slot and view that it
is in. -/
structure AcceptsOnce (node : Consensus PublicKey BlstSignature) (n : Node) : Prop where
  accepts : ∀ slot view hash hash',node.AcceptedFor n.log slot view hash →
    node.AcceptedFor n.log slot view hash' → hash=hash'
  confirms : ∀ before entry after,n.log=before++entry::after → ∀ qc hint,
    entry.deed=.handledConfirm qc hint → node.PassesConfirm entry.round qc hint →
    node.AcceptedFor before entry.round.slot entry.round.view
      (entry.round.currentProposal.hashed node.sha3)

/-- The votes of a kind are for what the node has accepted in their slot and view. -/
def VotesAccepted (vote : Entry → Option ConsensusProposalHash) (n : Node) : Prop :=
  ∀ entry ∈ n.log,∀ hash,vote entry=some hash →
    self.AcceptedFor n.log entry.round.slot entry.round.view hash

variable {self} {n m : Node} {vote : Entry → Option ConsensusProposalHash}

theorem AcceptedFor.mono {log entries : List Entry} {slot : Slot} {view : View}
    {hash : ConsensusProposalHash} (h : self.AcceptedFor log slot view hash) :
    self.AcceptedFor (log++entries) slot view hash := by
  obtain ⟨entry,he,accepted⟩ := h
  exact ⟨entry,List.mem_append_left _ he,accepted⟩

theorem AcceptsOnce.of_change (h : AcceptsOnce self m) (hc : self.Change n m) :
    AcceptsOnce self n := by
  obtain ⟨entries,hl⟩ := change_log hc
  constructor
  · intro slot view hash hash' first second
    exact h.accepts slot view hash hash' (hl ▸ first.mono) (hl ▸ second.mono)
  · intro before entry after here
    apply h.confirms before entry (after++entries)
    rw [← hl,here,List.append_assoc,List.cons_append]

theorem VotesAccepted.of_log (h : self.VotesAccepted vote n) {entries : List Entry}
    (hl : m.log=n.log++entries)
    (he : ∀ entry ∈ entries,∀ hash,vote entry=some hash →
      self.AcceptedFor n.log entry.round.slot entry.round.view hash) :
    self.VotesAccepted vote m := by
  unfold VotesAccepted
  rw [hl]
  exact List.forall_mem_append.mpr ⟨fun entry hm hash vote => (h entry hm hash vote).mono,
    fun entry hm hash vote => (he entry hm hash vote).mono⟩

/-- A change adds no other votes of the kind than those that a node may send. -/
theorem votesAccepted_change
    (hv : ∀ round deed,(∀ item,deed≠.sent item) → vote ⟨round,deed⟩=none)
    (hs : ∀ item,self.Sends n item → ∀ hash,vote ⟨n.bftRoundState,.sent item⟩=some hash →
      self.AcceptedFor n.log n.bftRoundState.slot n.bftRoundState.view hash)
    (h : self.VotesAccepted vote n) (hc : self.Change n m) : self.VotesAccepted vote m := by
  cases hc with
  | send item sends =>
    refine h.of_log rfl ?_
    intro entry he hash sent
    obtain rfl := List.mem_singleton.mp he
    exact hs item sends hash sent
  | joined qc => exact h.of_log (List.append_assoc _ _ _) (by simp [hv])
  | candidates | staking | schedule | retag | push | reset | leader =>
    exact h.of_log (List.append_nil _).symm (by simp)
  | _ => exact h.of_log rfl (by simp [hv])

theorem prepareVote_of_not_sent (round : BFTRoundState) (deed : Deed)
    (h : ∀ item,deed≠.sent item) : Entry.prepareVote ⟨round,deed⟩=none := by
  unfold Entry.prepareVote
  split
  · next sent => exact absurd sent (h _)
  · rfl

theorem confirmAck_of_not_sent (round : BFTRoundState) (deed : Deed)
    (h : ∀ item,deed≠.sent item) : Entry.confirmAck ⟨round,deed⟩=none := by
  unfold Entry.confirmAck
  split
  · next sent => exact absurd sent (h _)
  · rfl

/-- A prepare vote is sent for the proposal that has just been accepted. -/
theorem accepted_of_prepareVote {item : Sent} (h : self.Sends n item)
    {hash : ConsensusProposalHash}
    (hv : Entry.prepareVote ⟨n.bftRoundState,.sent item⟩=some hash) :
    self.AcceptedFor n.log n.bftRoundState.slot n.bftRoundState.view hash := by
  unfold Entry.prepareVote at hv
  split at hv
  · next recipient vote sent =>
    cases sent
    obtain rfl := Option.some.inj hv
    obtain ⟨message,entry,he,prepare,accepted,current,slot,view⟩ := h
    refine ⟨entry,he,prepare,accepted,?_,slot,view⟩
    rw [message,current]
  · cases hv

/-- A commit vote is sent from `on_confirm`, where the current proposal has been accepted. -/
theorem accepted_of_confirmAck (ha : AcceptsOnce self n) {item : Sent} (h : self.Sends n item)
    {hash : ConsensusProposalHash}
    (hv : Entry.confirmAck ⟨n.bftRoundState,.sent item⟩=some hash) :
    self.AcceptedFor n.log n.bftRoundState.slot n.bftRoundState.view hash := by
  unfold Entry.confirmAck at hv
  split at hv
  · next recipient ack sent =>
    cases sent
    obtain rfl := Option.some.inj hv
    obtain ⟨entry,he,qc,called,passes,slot,view⟩ := h
    obtain ⟨before,after,hl⟩ := List.append_of_mem he
    have accepted := ha.confirms before entry after hl qc _ called passes
    rw [← passes.2.1,slot,view] at accepted
    rw [hl]
    exact accepted.mono
  · cases hv

/-- Votes for accepted proposals are for one, where one at most is accepted. -/
theorem signsOnce_of_accepted (h : self.VotesAccepted vote n)
    (ha : ∀ slot view hash hash',self.AcceptedFor n.log slot view hash →
      self.AcceptedFor n.log slot view hash' → hash=hash') : SignsOnce vote n.log := by
  intro entry he other ho hash hash' hv hv' slot view
  have first := h entry he hash hv
  rw [slot,view] at first
  exact ha _ _ _ _ first (h other ho hash' hv')

/-- In every run in which the node accepts one proposal at most for each slot and view, and has
accepted its current proposal wherever it confirms one, it signs no two votes of a kind for one
slot and view. -/
theorem votesOnce_of_run (n : Node) (run : self.Run n) (ha : AcceptsOnce self n) :
    SignsOnce Entry.prepareVote n.log ∧ SignsOnce Entry.confirmAck n.log := by
  have votes : self.VotesAccepted Entry.prepareVote n := by
    refine run_induction (I := self.VotesAccepted Entry.prepareVote) ?_ ?_ run
    · intro n fresh entry he hash hv
      obtain ⟨_,sent⟩|sent := fresh.log entry he
      · simp [Entry.prepareVote,sent] at hv
      · simp [Entry.prepareVote,sent] at hv
    · intro n m _ ih hc
      exact votesAccepted_change prepareVote_of_not_sent
        (fun _ sends _ hv => accepted_of_prepareVote sends hv) ih hc
  have acks : self.VotesAccepted Entry.confirmAck n := by
    refine run_induction (I := fun n => AcceptsOnce self n →
      self.VotesAccepted Entry.confirmAck n) ?_ ?_ run ha
    · intro n fresh _ entry he hash hv
      obtain ⟨_,sent⟩|sent := fresh.log entry he
      · simp [Entry.confirmAck,sent] at hv
      · simp [Entry.confirmAck,sent] at hv
    · intro n m _ ih hc ha
      have before := ha.of_change hc
      exact votesAccepted_change confirmAck_of_not_sent
        (fun _ sends _ hv => accepted_of_confirmAck before sends hv) (ih before) hc
  exact ⟨signsOnce_of_accepted votes ha.accepts,signsOnce_of_accepted acks ha.accepts⟩

end Consensus

namespace FourValidators

open Consensus

/-- The leader sends a second proposal for the slot and view. -/
def equivocated : Node :=
  fourth.after (prepareOf paid) (prepared fourth)

/-- The hash, slot and view of what an entry accepts. -/
def acceptance (entry : Entry) : Option (ConsensusProposalHash × Slot × View) :=
  match entry.deed with
  | .accepted prepare =>
      some (prepare.2.1.hashed fourth.sha3,prepare.2.1.slot,prepare.2.2.2)
  | _ => none

/-- The current proposal of a call of `on_confirm`, with the slot and view. -/
def confirmation (entry : Entry) : Option (ConsensusProposalHash × Slot × View) :=
  match entry.deed with
  | .handledConfirm _ _ =>
      some (entry.round.currentProposal.hashed fourth.sha3,entry.round.slot,entry.round.view)
  | _ => none

theorem votes_and_equivocates :
    (locked.log.filterMap acceptance=[(Bytes.hex firstDigest.toList,1,0)] ∧
      locked.log.filterMap (fun entry => entry.prepareVote)=[Bytes.hex firstDigest.toList] ∧
      locked.log.filterMap (fun entry => entry.confirmAck)=[Bytes.hex firstDigest.toList] ∧
      ∀ entry ∈ locked.log.zipIdx,∀ confirmed ∈ confirmation entry.1,
        confirmed ∈ (locked.log.take entry.2).filterMap acceptance) ∧
    (fourth.handle 0 (prepareOf paid)
        (prepared fourth)).1.panics=false ∧
      (equivocated.log.filterMap fun entry =>
        entry.prepareVote.map fun hash => (hash,entry.round.slot,entry.round.view))=
          [(Bytes.hex firstDigest.toList,1,0),(Bytes.hex paidDigest.toList,1,0)] := by
  decide +kernel

theorem acceptedFor_iff {log : List Entry} {slot : Slot} {view : View}
    {hash : ConsensusProposalHash} :
    fourth.AcceptedFor log slot view hash ↔ (hash,slot,view) ∈ log.filterMap acceptance := by
  rw [List.mem_filterMap]
  constructor
  · rintro ⟨entry,he,prepare,hd,rfl,rfl,rfl⟩
    exact ⟨entry,he,by rw [acceptance,hd]⟩
  · intro ⟨entry,he,found⟩
    unfold acceptance at found
    split at found
    · next prepare hd =>
      obtain ⟨rfl,rest⟩ := Prod.mk.inj (Option.some.inj found)
      obtain ⟨rfl,rfl⟩ := Prod.mk.inj rest
      exact ⟨entry,he,prepare,hd,rfl,rfl,rfl⟩
    · cases found

theorem acceptsOnce_locked : AcceptsOnce fourth locked := by
  have facts := votes_and_equivocates.1
  constructor
  · intro slot view hash hash' first second
    rw [acceptedFor_iff,facts.1,List.mem_singleton] at first second
    exact (congrArg Prod.fst first).trans (congrArg Prod.fst second).symm
  · intro before entry after hl qc hint called _
    have placed : (entry,before.length) ∈ locked.log.zipIdx := by
      rw [List.mk_mem_zipIdx_iff_getElem?,hl]
      simp
    have accepted := facts.2.2.2 _ placed _ (by rw [confirmation,called]; rfl)
    rw [hl,List.take_left] at accepted
    exact acceptedFor_iff.mpr accepted

/-- The entry of a vote, from the list of the votes with their slots and views. -/
theorem entry_of_votes {log : List Entry} {vote : Entry → Option ConsensusProposalHash}
    {votes : List (ConsensusProposalHash × Slot × View)} {hash : ConsensusProposalHash}
    {slot : Slot} {view : View}
    (hl : (log.filterMap fun entry => (vote entry).map fun hash =>
      (hash,entry.round.slot,entry.round.view))=votes)
    (hm : (hash,slot,view) ∈ votes) :
    ∃ entry ∈ log,vote entry=some hash ∧ entry.round.slot=slot ∧ entry.round.view=view := by
  rw [← hl] at hm
  obtain ⟨entry,he,found⟩ := List.mem_filterMap.mp hm
  obtain ⟨_,hv,found⟩ := Option.map_eq_some_iff.mp found
  obtain ⟨rfl,rest⟩ := Prod.mk.inj found
  obtain ⟨rfl,rfl⟩ := Prod.mk.inj rest
  exact ⟨entry,he,hv,rfl,rfl⟩

end FourValidators

open FourValidators in
/-- The node votes for the first proposal and confirms it. -/
theorem Consensus.votesOnce_locked :
    locked.log.filterMap (fun entry => entry.prepareVote)=[Bytes.hex firstDigest.toList] ∧
    locked.log.filterMap (fun entry => entry.confirmAck)=[Bytes.hex firstDigest.toList] ∧
    SignsOnce Entry.prepareVote locked.log ∧ SignsOnce Entry.confirmAck locked.log :=
  ⟨votes_and_equivocates.1.2.1,votes_and_equivocates.1.2.2.1,
    votesOnce_of_run locked run_locked acceptsOnce_locked⟩

open FourValidators in
/-- A leader that sends two proposals for a slot and view gets two votes. -/
theorem Consensus.not_votesOnce : ¬∀ n : Node,fourth.Run n →
    SignsOnce Entry.prepareVote n.log ∧ SignsOnce Entry.confirmAck n.log := by
  intro once
  have facts := votes_and_equivocates.2
  have accepted := commits_and_forces.1
  have run : fourth.Run equivocated := ((run_started accepted.1).after accepted.2.1).after facts.1
  obtain ⟨entry,he,hv,slot,view⟩ := entry_of_votes facts.2 List.mem_cons_self
  obtain ⟨other,ho,hv',slot',view'⟩ := entry_of_votes facts.2
    (List.mem_cons_of_mem _ List.mem_cons_self)
  have same := (once equivocated run).1 entry he other ho _ _ hv hv' (slot.trans slot'.symm)
    (view.trans view'.symm)
  exact absurd same (by decide)

end TruthSeeker
