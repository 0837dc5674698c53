import TruthSeeker.Consensus.CommitJustified

namespace TruthSeeker

/-- The slot and the proposal that a deed sets, apart from a prepare QC that is seen. -/
def Entry.sets (entry : Entry) : Option (Slot × ConsensusProposal) :=
  match entry.deed with
  | .accepted prepare => some (entry.round.slot,prepare.2.1)
  | .created proposal => some (entry.round.slot,proposal)
  | .recalled proposal => some (entry.round.slot,proposal)
  | .joined => some (entry.round.currentProposal.slot,entry.round.currentProposal)
  | .followed block => some (block.blockHeight+1,(Node.followBlock block entry.round).currentProposal)
  | .applied ticket =>
      if ticket.endsSlot then
        some (entry.round.slot+1,{ entry.round.currentProposal with stakingActions := [] })
      else none
  | _ => none

namespace Consensus

variable {PublicKey BlstSignature : Type} (self : Consensus PublicKey BlstSignature)

/-- The prepare QC has been seen for the slot together with a proposal of that hash. -/
def SeenFor (log : List Entry) (slot : Slot) (qc : PrepareQC) (hash : ConsensusProposalHash) :
    Prop :=
  ∃ entry ∈ log,∃ proposal,entry.deed=.seenPrepareQc slot qc proposal ∧
    proposal.hashed self.sha3=hash

/-- A prepare QC that is stored for the current slot has been verified, with a proposal that has
the hash of the current one. -/
def LockConsistent (n : Node) : Prop :=
  ∀ qc,n.bftRoundState.slotPrepareQc=some qc →
    ∃ entry ∈ n.log,∃ proposal,entry.deed=.seenPrepareQc n.bftRoundState.slot qc proposal ∧
      self.VerifiesPrepareQc entry.round proposal qc ∧
      proposal.hashed self.sha3=n.bftRoundState.currentProposal.hashed self.sha3

/-- What has been stored for the slot before is not of a later view. -/
def LockMonotone (formed : PrepareQC → View) (n : Node) : Prop :=
  ∀ entry ∈ n.log,∀ slot held qc,entry.round.timeout.highestSeenPrepareQc=some (slot,held) →
    n.bftRoundState.timeout.highestSeenPrepareQc=some (slot,qc) → formed held ≤ formed qc

/-- Where the node takes up a proposal or enters a slot for which it has a prepare QC, it has
seen that QC with the proposal. -/
def RespectsLock (n : Node) : Prop :=
  ∀ before entry after slot proposal qc,n.log=before++entry::after →
    entry.sets=some (slot,proposal) →
    entry.round.timeout.highestSeenPrepareQc=some (slot,qc) →
    self.SeenFor before slot qc (proposal.hashed self.sha3)

/-- No verified prepare QC that is seen is of an earlier view than the one stored for its
slot. -/
def SeesLater (formed : PrepareQC → View) (n : Node) : Prop :=
  ∀ entry ∈ n.log,∀ slot qc proposal held,entry.deed=.seenPrepareQc slot qc proposal →
    entry.round.timeout.highestSeenPrepareQc=some (slot,held) → formed held ≤ formed qc

variable {self} {n m : Node} {formed : PrepareQC → View}

theorem RespectsLock.of_change (h : self.RespectsLock m) (hc : self.Change n m) :
    self.RespectsLock n := by
  obtain ⟨entries,hl⟩ := change_log hc
  intro before entry after slot proposal qc hn
  apply h before entry (after++entries)
  rw [← hl,hn,List.append_assoc,List.cons_append]

theorem SeesLater.of_change (h : SeesLater formed m) (hc : self.Change n m) :
    SeesLater formed n :=
  fun entry he => h entry ((change_log hc).subset he)

theorem SeenFor.mono {log entries : List Entry} {slot : Slot} {qc : PrepareQC}
    {hash : ConsensusProposalHash} (h : self.SeenFor log slot qc hash) :
    self.SeenFor (log++entries) slot qc hash := by
  obtain ⟨entry,he,seen⟩ := h
  exact ⟨entry,List.mem_append_left _ he,seen⟩

/-- Everything in the history of a change has the stored prepare QC from before. -/
theorem change_entries (hc : self.Change n m) : ∃ entries,m.log=n.log++entries ∧
    ∀ entry ∈ entries,entry.round.timeout.highestSeenPrepareQc=
      n.bftRoundState.timeout.highestSeenPrepareQc := by
  cases hc with
  | joined qc =>
    refine ⟨_,List.append_assoc _ _ _,?_⟩
    intro entry he
    obtain rfl|he := List.mem_cons.mp he
    · rfl
    · rw [List.mem_singleton.mp he]
      rfl
  | candidates | staking | schedule | retag | push | reset | leader =>
    exact ⟨[],(List.append_nil _).symm,by simp⟩
  | _ => exact ⟨_,rfl,by simp⟩

/-- Only a prepare QC that is seen, of no earlier slot, replaces the stored one. -/
theorem change_lock (hc : self.Change n m) :
    m.bftRoundState.timeout.highestSeenPrepareQc=
      n.bftRoundState.timeout.highestSeenPrepareQc ∨
    ∃ slot qc proposal,m.log=n.log++[⟨n.bftRoundState,.seenPrepareQc slot qc proposal⟩] ∧
      (∀ seen,n.bftRoundState.timeout.highestSeenPrepareQc=some seen → ¬slot<seen.1) ∧
      m.bftRoundState.timeout.highestSeenPrepareQc=some (slot,qc) := by
  cases hc with
  | seenPrepareQc qc proposal =>
    obtain ⟨_,_,_,same⟩|⟨later,stored⟩ := n.bftRoundState.updatePrepareQc_cases
      n.bftRoundState.slot qc proposal
    · left
      exact congrArg (fun round => round.timeout.highestSeenPrepareQc) same
    · right
      exact ⟨_,qc,proposal,rfl,later,
        congrArg (fun round => round.timeout.highestSeenPrepareQc) stored⟩
  | _ => exact Or.inl rfl

/-- What has been stored before is of an earlier slot than now, or of the same slot and no
later view. -/
def Advances (formed : PrepareQC → View) (n : Node) : Prop :=
  ∀ entry ∈ n.log,∀ slot held,entry.round.timeout.highestSeenPrepareQc=some (slot,held) →
    ∃ now qc,n.bftRoundState.timeout.highestSeenPrepareQc=some (now,qc) ∧ slot ≤ now ∧
      (slot=now → formed held ≤ formed qc)

theorem advances_change (hl : SeesLater formed m) (h : Advances formed n)
    (hc : self.Change n m) : Advances formed m := by
  obtain ⟨entries,log,rounds⟩ := change_entries hc
  intro entry he slot held before
  have until_now : ∃ now qc,n.bftRoundState.timeout.highestSeenPrepareQc=some (now,qc) ∧
      slot ≤ now ∧ (slot=now → formed held ≤ formed qc) := by
    rw [log] at he
    obtain old|new := List.mem_append.mp he
    · exact h entry old slot held before
    · rw [rounds entry new] at before
      exact ⟨slot,held,before,UInt64.le_refl _,fun _ => UInt64.le_refl _⟩
  obtain ⟨now,qc,stored,le,same⟩ := until_now
  obtain kept|⟨next,qc',proposal,seen,later,replaced⟩ := change_lock hc
  · exact ⟨now,qc,kept.trans stored,le,same⟩
  · have up : now ≤ next := UInt64.not_lt.mp (later _ stored)
    refine ⟨next,qc',replaced,UInt64.le_trans le up,?_⟩
    rintro rfl
    obtain rfl := UInt64.le_antisymm le up
    have last := hl ⟨n.bftRoundState,.seenPrepareQc slot qc' proposal⟩
      (seen ▸ List.mem_append_right _ List.mem_cons_self) slot qc' proposal qc rfl stored
    exact UInt64.le_trans (same rfl) last

/-- What has been seen is verified, and a prepare QC that is stored for the slot has been seen
with the current proposal. -/
structure Locked (node : Consensus PublicKey BlstSignature) (n : Node) : Prop where
  verified : ∀ entry ∈ n.log,∀ slot qc proposal,entry.deed=.seenPrepareQc slot qc proposal →
    node.VerifiesPrepareQc entry.round proposal qc
  seen : ∀ qc,n.bftRoundState.timeout.highestSeenPrepareQc=some (n.bftRoundState.slot,qc) →
    node.SeenFor n.log n.bftRoundState.slot qc
      (n.bftRoundState.currentProposal.hashed node.sha3)

/-- A change that sees no prepare QC and leaves slot and proposal alone. -/
theorem Locked.of_eq (h : Locked self n) {entries : List Entry} (hl : m.log=n.log++entries)
    (he : ∀ entry ∈ entries,∀ slot qc proposal,entry.deed≠.seenPrepareQc slot qc proposal)
    (lock : m.bftRoundState.timeout.highestSeenPrepareQc=
      n.bftRoundState.timeout.highestSeenPrepareQc)
    (slot : m.bftRoundState.slot=n.bftRoundState.slot)
    (current : m.bftRoundState.currentProposal=n.bftRoundState.currentProposal) :
    Locked self m where
  verified := by
    rw [hl]
    refine List.forall_mem_append.mpr ⟨h.verified,?_⟩
    intro entry hm slot qc proposal hd
    exact absurd hd (he entry hm slot qc proposal)
  seen := by
    rw [hl,lock,slot,current]
    intro qc stored
    exact (h.seen qc stored).mono

/-- A change that sets slot and proposal. -/
theorem Locked.of_sets (h : Locked self n) (hr : self.RespectsLock m) {deed : Deed}
    {entries : List Entry} (hl : m.log=n.log++⟨n.bftRoundState,deed⟩::entries)
    (he : ∀ entry ∈ (⟨n.bftRoundState,deed⟩::entries : List Entry),∀ slot qc proposal,
      entry.deed≠.seenPrepareQc slot qc proposal)
    (lock : m.bftRoundState.timeout.highestSeenPrepareQc=
      n.bftRoundState.timeout.highestSeenPrepareQc)
    (sets : Entry.sets ⟨n.bftRoundState,deed⟩=
      some (m.bftRoundState.slot,m.bftRoundState.currentProposal)) : Locked self m where
  verified := by
    rw [hl]
    refine List.forall_mem_append.mpr ⟨h.verified,?_⟩
    intro entry hm slot qc proposal hd
    exact absurd hd (he entry hm slot qc proposal)
  seen := by
    intro qc stored
    rw [lock] at stored
    rw [hl]
    exact (hr n.log _ entries _ _ qc hl sets stored).mono

theorem locked_change (hr : self.RespectsLock m) (h : Locked self n) (hc : self.Change n m) :
    Locked self m := by
  cases hc with
  | accepted prepare => exact h.of_sets hr rfl (by simp) rfl rfl
  | created proposal => exact h.of_sets hr rfl (by simp) rfl rfl
  | recalled proposal => exact h.of_sets hr rfl (by simp) rfl rfl
  | followed block => exact h.of_sets hr rfl (by simp) rfl rfl
  | joined qc => exact h.of_sets hr (List.append_assoc _ _ _) (by simp) rfl rfl
  | appliedCommit ticket qc ends =>
    refine h.of_sets hr rfl (by simp) rfl ?_
    simp only [Entry.sets,ends]
    rfl
  | seenPrepareQc qc proposal verified =>
    constructor
    · refine List.forall_mem_append.mpr ⟨h.verified,?_⟩
      intro entry he slot qc' proposal' hd
      obtain rfl := List.mem_singleton.mp he
      obtain ⟨rfl,rfl,rfl⟩ := Deed.seenPrepareQc.inj hd
      exact verified
    · intro qc' stored
      simp only [Node.bftRoundState_performRound,Node.log_performRound] at stored ⊢
      obtain ⟨_,_,_,same⟩|⟨_,replaced⟩ := n.bftRoundState.updatePrepareQc_cases
        n.bftRoundState.slot qc proposal
      · rw [same] at stored ⊢
        exact (h.seen qc' stored).mono
      · rw [replaced] at stored ⊢
        obtain ⟨_,rfl⟩ := Prod.mk.inj (Option.some.inj stored)
        exact ⟨_,List.mem_append_right _ List.mem_cons_self,proposal,rfl,rfl⟩
  | candidates | staking | schedule | retag | push | reset | leader =>
    exact h.of_eq (List.append_nil _).symm (by simp) rfl rfl rfl
  | _ => exact h.of_eq rfl (by simp) rfl rfl rfl

/-- In every run that respects the stored prepare QC and sees none of an earlier view, a prepare
QC that is stored for the slot certifies the current proposal, and its view never falls. -/
theorem lockConsistent_of_run (formed : PrepareQC → View) (n : Node) (run : self.Run n)
    (hr : self.RespectsLock n) (hl : SeesLater formed n) :
    self.LockConsistent n ∧ LockMonotone formed n := by
  constructor
  · have locked : Locked self n := by
      refine run_induction (I := fun n => self.RespectsLock n → Locked self n) ?_ ?_ run hr
      · intro n fresh _
        constructor
        · intro entry he slot qc proposal hd
          obtain ⟨_,sent⟩|sent := fresh.log entry he
          · simp [sent] at hd
          · simp [sent] at hd
        · simp [fresh.highestSeenPrepareQc]
      · intro n m _ ih hc hr
        exact locked_change hr (ih (hr.of_change hc)) hc
    intro qc stored
    have held : n.bftRoundState.timeout.highestSeenPrepareQc=some (n.bftRoundState.slot,qc) := by
      unfold BFTRoundState.slotPrepareQc at stored
      split at stored
      · next slot qc' lock =>
        split_ifs at stored with same
        rw [lock,same,Option.some.inj stored]
      · cases stored
    obtain ⟨entry,he,proposal,hd,hash⟩ := locked.seen qc held
    exact ⟨entry,he,proposal,hd,locked.verified entry he _ qc proposal hd,hash⟩
  · have advances : Advances formed n := by
      refine run_induction (I := fun n => SeesLater formed n → Advances formed n) ?_ ?_ run hl
      · intro n fresh _ entry he slot held before
        rw [fresh.unlocked entry he] at before
        cases before
      · intro n m _ ih hc hl
        exact advances_change hl (ih (hl.of_change hc)) hc
    intro entry he slot held qc before now
    obtain ⟨_,_,stored,_,same⟩ := advances entry he slot held before
    rw [now] at stored
    obtain ⟨rfl,rfl⟩ := Prod.mk.inj (Option.some.inj stored)
    exact same rfl

end Consensus

namespace FourValidators

open Consensus

/-- The leader sends the certificate of the prepare votes of three validators. -/
def confirmOf (digest : H256) : ConsensusInput :=
  .netMessage [1] (.confirm
    ⟨⟨(toVec (Bytes.hex digest.toList)).toOption.getD [],[[1],[2],[3]]⟩,⟨⟩⟩
    (Bytes.hex digest.toList)) 0

/-- The node holds a prepare QC of the first proposal. -/
def locked : Node := fourth.after (confirmOf firstDigest) (prepared fourth)

/-- The leader of the second view sends another proposal, after timeouts of three validators. -/
def otherPrepare : ConsensusInput :=
  let message : Slot × View × ConsensusProposalHash × ConsensusTimeoutMarker :=
    (1,0,Bytes.hex genesisDigest.toList,⟨⟩)
  .netMessage [2] (.prepare paid
    (.timeoutQC ⟨⟨(toVec message).toOption.getD [],[[1],[2],[3]]⟩,⟨⟩⟩ .nilProposal) 1) 0

def unlocked : Node := fourth.after otherPrepare locked

/-- An entry without a lock, or one that has nothing to do with it. -/
def freeOfLock (entry : Entry) : Bool :=
  entry.round.timeout.highestSeenPrepareQc.isNone || entry.sets.isNone

/-- The proposal with which a prepare QC is seen does not have the hash. -/
def seenForOther (hash : ConsensusProposalHash) (entry : Entry) : Bool :=
  match entry.deed with
  | .seenPrepareQc _ _ proposal => proposal.hashed fourth.sha3≠hash
  | _ => true

theorem locks_and_unlocks :
    ((fourth.handle 0 (confirmOf firstDigest) (prepared fourth)).1.panics=false ∧
      locked.log.all freeOfLock=true ∧ locked.bftRoundState.slotPrepareQc.isSome=true) ∧
    (fourth.handle 0 otherPrepare locked).1.panics=false ∧
      unlocked.bftRoundState.slotPrepareQc.isSome=true ∧
      unlocked.log.all (seenForOther
        (unlocked.bftRoundState.currentProposal.hashed fourth.sha3))=true := by
  decide +kernel

theorem run_locked : fourth.Run locked := by
  have facts := commits_and_forces.1
  exact ((run_started facts.1).after facts.2.1).after locks_and_unlocks.1.1

theorem respectsLock_locked : fourth.RespectsLock locked := by
  intro before entry after slot proposal qc hl sets held
  have free := locks_and_unlocks.1.2.1
  rw [hl,List.all_append,List.all_cons] at free
  simp [freeOfLock,sets,held] at free

/-- All prepare QCs are of the first view. -/
theorem seesLater_first (n : Node) : SeesLater (fun _ => 0) n := by
  intro entry he slot qc proposal held hd before
  exact UInt64.le_refl _

end FourValidators

open FourValidators in
/-- A prepare QC of the first proposal. -/
theorem Consensus.lockConsistent_locked : locked.bftRoundState.slotPrepareQc.isSome=true ∧
    fourth.LockConsistent locked ∧ LockMonotone (fun _ => 0) locked :=
  ⟨locks_and_unlocks.1.2.2,lockConsistent_of_run (fun _ => 0) locked run_locked
    respectsLock_locked (seesLater_first locked)⟩

open FourValidators in
/-- After timeouts the node accepts another proposal than the one whose prepare QC it holds. -/
theorem Consensus.not_lockConsistent : ¬∀ n : Node,fourth.Run n → fourth.LockConsistent n := by
  intro consistent
  have facts := locks_and_unlocks.2
  obtain ⟨qc,held⟩ := Option.isSome_iff_exists.mp facts.2.1
  have run : fourth.Run unlocked := run_locked.after facts.1
  obtain ⟨entry,he,proposal,hd,_,same⟩ := consistent unlocked run qc held
  have other := List.all_eq_true.mp facts.2.2 entry he
  simp [seenForOther,hd,same] at other

end TruthSeeker
