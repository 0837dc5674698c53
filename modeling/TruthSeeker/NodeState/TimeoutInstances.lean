import TruthSeeker.NodeState.SettlementAccounting

namespace TruthSeeker.NodeState

open OrderedTxMap

section Definitions
variable (env : Environment)

namespace Moment

variable (self : Moment) (hash : TxHash)

def isPending : Bool := (self.work.pending.map[hash]?).isSome

/-- The height at which a timeout of the window ends that is set in the call. -/
def endOf : TimeoutWindow → Option BlockHeight
  | .timeout window => some (self.work.store.currentHeight+window)
  | .noTimeout => none

/-- The height for which the call arms the transaction of the hash as the next to settle: when it
is sequenced, or when it could not be settled. -/
def arms : Option BlockHeight :=
  match self.call with
  | .sequence parentDpHash laneId tx =>
      match handleBlobTx env self.work.store parentDpHash tx (txContext laneId self.work.block) with
      | .ok (.duplicate,_) => none
      | .ok (_,store) =>
          if tx.hashed env.sha3=hash ∧ store.unsettledTransactions.isNextToSettle hash then
            self.endOf (getTxTimeoutWindow self.work.store tx.blobs)
          else none
      | .error _ => none
  | .reschedule unsettlableTxs =>
      match self.work.pending.get hash with
      | some tx =>
          if hash∈unsettlableTxs ∧ self.work.pending.isNextToSettle hash then
            self.endOf (getTxTimeoutWindow self.work.store tx.openBlobs)
          else none
      | none => none
  | _ => none

end Moment

/-- In the past calls, the last one first, the transaction was armed for the height, and it has
been pending ever since. -/
def ArmedSince (hash : TxHash) (height : BlockHeight) : List Moment → Prop
  | [] => False
  | moment::earlier => moment.arms env hash=some height ∨
      moment.isPending hash=true ∧ ArmedSince hash height earlier

/-- A transaction that the call removes was armed for the height of the block. -/
def Moment.TimesOutArmed (self : Moment) (past : List Moment) : Prop :=
  match self.call with
  | .timeOut hash => self.isPending hash=true →
      ArmedSince env hash self.work.block.blockHeight past
  | _ => True

/-- In the calls after the past ones, the same instance that is removed was armed. -/
def TimeoutsSound : List Moment → List Moment → Prop
  | _,[] => True
  | past,moment::later => moment.TimesOutArmed env past ∧ TimeoutsSound (moment::past) later

/-- A valid transaction that is not pending has no timeout left from before. -/
def Moment.LeavesNoTimeout (self : Moment) : Prop :=
  match self.call with
  | .sequence _ _ tx =>
      checkBlobTx env self.work.store tx=.ok () → self.isPending (tx.hashed env.sha3)=false →
        ∀ entry ∈ self.work.store.timeouts.toList,tx.hashed env.sha3∉entry.2
  | _ => True

/-- No transaction of the run is sequenced again while an old timeout of it is left. -/
def RunLeavesNoTimeouts (signedBlocks : List SignedBlock) : Prop :=
  ∀ moment ∈ moments env signedBlocks,moment.LeavesNoTimeout env

instance decidableArmedSince (hash : TxHash) (height : BlockHeight) :
    (past : List Moment) → Decidable (ArmedSince env hash height past)
  | [] => inferInstanceAs (Decidable False)
  | moment::earlier =>
      have := decidableArmedSince hash height earlier
      inferInstanceAs (Decidable (moment.arms env hash=some height ∨
        moment.isPending hash=true ∧ ArmedSince env hash height earlier))

instance decidableTimesOutArmed (past : List Moment) :
    (moment : Moment) → Decidable (moment.TimesOutArmed env past)
  | ⟨_,work,.timeOut hash⟩ => inferInstanceAs (Decidable ((work.pending.map[hash]?).isSome=true →
      ArmedSince env hash work.block.blockHeight past))
  | ⟨_,_,.sequence _ _ _⟩ => inferInstanceAs (Decidable True)
  | ⟨_,_,.prove _ _⟩ => inferInstanceAs (Decidable True)
  | ⟨_,_,.settle _⟩ => inferInstanceAs (Decidable True)
  | ⟨_,_,.reschedule _⟩ => inferInstanceAs (Decidable True)

instance decidableTimeoutsSound :
    (past later : List Moment) → Decidable (TimeoutsSound env past later)
  | _,[] => inferInstanceAs (Decidable True)
  | past,moment::later =>
      have := decidableTimeoutsSound (moment::past) later
      inferInstanceAs (Decidable (moment.TimesOutArmed env past ∧
        TimeoutsSound env (moment::past) later))

instance decidableLeavesNoTimeout : (moment : Moment) → Decidable (moment.LeavesNoTimeout env)
  | ⟨_,work,.sequence _ _ tx⟩ => inferInstanceAs (Decidable (checkBlobTx env work.store tx=.ok () →
      (work.pending.map[tx.hashed env.sha3]?).isSome=false →
        ∀ entry ∈ work.store.timeouts.toList,tx.hashed env.sha3∉entry.2))
  | ⟨_,_,.timeOut _⟩ => inferInstanceAs (Decidable True)
  | ⟨_,_,.prove _ _⟩ => inferInstanceAs (Decidable True)
  | ⟨_,_,.settle _⟩ => inferInstanceAs (Decidable True)
  | ⟨_,_,.reschedule _⟩ => inferInstanceAs (Decidable True)

instance (signedBlocks : List SignedBlock) : Decidable (RunLeavesNoTimeouts env signedBlocks) :=
  inferInstanceAs (Decidable (∀ moment ∈ moments env signedBlocks,moment.LeavesNoTimeout env))

end Definitions

section Arms
variable {env : Environment} {store : NodeStateStore} {hash txHash : TxHash}
  {height : BlockHeight}

/-- What is due after one timeout has been set was due before, or is the new one. -/
theorem mem_timeouts_scheduleTimeout {blobs : List Blob}
    (h : hash∈(scheduleTimeout store txHash blobs).timeouts.getD height []) :
    hash∈store.timeouts.getD height [] ∨ hash=txHash ∧
      store.unsettledTransactions.isNextToSettle hash=true ∧
      ∃ window,getTxTimeoutWindow store blobs=.timeout window ∧
        store.currentHeight+window=height := by
  unfold scheduleTimeout at h
  split at h
  · next hn =>
    split at h
    · next window hw =>
      have set : hash∈(Timeouts.set store.timeouts txHash store.currentHeight window).getD
        height [] := h
      unfold Timeouts.set at set
      rw [Std.ExtTreeMap.getD_insert] at set
      split_ifs at set with same
      · have ends : store.currentHeight+window=height := Std.LawfulEqOrd.eq_of_compare same
        obtain old|new := List.mem_append.mp set
        · rw [ends] at old
          exact Or.inl old
        · obtain rfl := List.mem_singleton.mp new
          exact Or.inr ⟨rfl,hn,window,hw,ends⟩
      · exact Or.inl set
    · exact Or.inl h
  · exact Or.inl h

theorem mem_timeouts_rescheduleTimeout
    (h : hash∈(rescheduleTimeout store txHash).timeouts.getD height []) :
    hash∈store.timeouts.getD height [] ∨ hash=txHash ∧ ∃ window,DueWithin store hash window ∧
      store.currentHeight+window=height := by
  obtain ⟨same,_⟩|⟨tx,hg,eq⟩ := rescheduleTimeout_cases store txHash
  · rw [same] at h
    exact Or.inl h
  · rw [eq] at h
    obtain old|⟨rfl,hn,window,hw,ends⟩ := mem_timeouts_scheduleTimeout h
    · exact Or.inl old
    · exact Or.inr ⟨rfl,window,⟨tx,hg,hn,hw⟩,ends⟩

theorem mem_timeouts_foldl_rescheduleTimeout {hashes : List TxHash}
    (h : hash∈(hashes.foldl rescheduleTimeout store).timeouts.getD height []) :
    hash∈store.timeouts.getD height [] ∨ hash∈hashes ∧ ∃ window,DueWithin store hash window ∧
      store.currentHeight+window=height := by
  induction hashes generalizing store with
  | nil => exact Or.inl h
  | cons first hashes ih =>
    have pending := rescheduleTimeout_unsettledTransactions store first
    have contracts := contracts_rescheduleTimeout store first
    have clock : (rescheduleTimeout store first).currentHeight=store.currentHeight := by
      obtain ⟨same,_⟩|⟨tx,_,eq⟩ := rescheduleTimeout_cases store first
      · rw [same]
      · rw [eq,currentHeight_scheduleTimeout]
    obtain mid|⟨mem,window,due,ends⟩ := ih h
    · obtain old|⟨rfl,window,due,ends⟩ := mem_timeouts_rescheduleTimeout mid
      · exact Or.inl old
      · exact Or.inr ⟨List.mem_cons_self,window,due,ends⟩
    · rw [clock] at ends
      exact Or.inr ⟨List.mem_cons_of_mem _ mem,window,
        (dueWithin_congr pending contracts clock).mp due,ends⟩

theorem exists_of_mem_getD {timeouts : Timeouts} (h : hash∈timeouts.getD height []) :
    ∃ entry ∈ timeouts.toList,hash∈entry.2 := by
  rw [Std.ExtTreeMap.getD_eq_getD_getElem?] at h
  cases hf : timeouts[height]? with
  | none => simp [hf] at h
  | some hashes =>
    rw [hf] at h
    exact ⟨(height,hashes),Std.ExtTreeMap.mem_toList_iff_getElem?_eq_some.mpr hf,h⟩

theorem getElem?_eq_none_of_add {pending next : OrderedTxMap} {tx : UnsettledBlobTransaction}
    {isNext : Bool} (h : pending.add tx=some (next,isNext)) : pending.map[tx.hash]?=none := by
  unfold OrderedTxMap.add at h
  split_ifs at h with absent
  exact absent

/-- A transaction that is accepted is a duplicate, or it is added and may be armed. -/
theorem handleBlobTx_cases {next : NodeStateStore} {parentDpHash : DataProposalHash}
    {tx : BlobTransaction} {txContext : TxContext} {handled : BlobTxHandled}
    (h : handleBlobTx env store parentDpHash tx txContext=.ok (handled,next)) :
    checkBlobTx env store tx=.ok () ∧ (handled=.duplicate ∧ next=store ∨ ∃ pending isNext,
      store.unsettledTransactions.add
        (unsettledBlobTransaction env store parentDpHash tx txContext)=some (pending,isNext) ∧
      handled≠.duplicate ∧
      next=scheduleTimeout (withPending store pending) (tx.hashed env.sha3) tx.blobs) := by
  have checked := (pending_handleBlobTx h).1
  refine ⟨checked,?_⟩
  unfold handleBlobTx at h
  simp only [checked] at h
  split at h
  · obtain ⟨rfl,rfl⟩ := Prod.mk.inj (Except.ok.inj h)
    exact Or.inl ⟨rfl,rfl⟩
  · next pending isNext added =>
    obtain ⟨rfl,rfl⟩ := Prod.mk.inj (Except.ok.inj h)
    refine Or.inr ⟨pending,isNext,added,?_,rfl⟩
    split <;> simp

end Arms

section Calls
variable {env : Environment} {moment : Moment} {hash : TxHash} {height : BlockHeight}

theorem isPending_of_settleTx {work : Work} {bth : TxHash}
    (h : ((settleTx env bth work).1.pending.map[hash]?).isSome) :
    (work.pending.map[hash]?).isSome := by
  have known : All (Known work.pending) (settleTx env bth work).1.pending := by
    obtain ⟨_,same⟩|⟨tx,rest,result,settled,hr,rfl,eq⟩ := settleTx_cases env bth work
    · rw [same]
      exact all_known
    · rw [eq]
      exact all_onSettledBlobTx withstandsForce_known (all_known.remove hr).2
  obtain ⟨tx,ht⟩ := Option.isSome_iff_exists.mp h
  have before : (work.pending.map[tx.hash]?).isSome := known hash tx ht
  rwa [OrderedTxMap.hash_eq _ hash tx ht] at before

/-- Only the sequencing of a transaction makes it pending. -/
theorem isPending_of_after (hs : moment.call.isSequence=false)
    (h : ((moment.after env).pending.map[hash]?).isSome) : moment.isPending hash=true := by
  obtain ⟨order,work,call⟩ := moment
  cases call with
  | sequence parentDpHash laneId tx => cases hs
  | settle bth => exact isPending_of_settleTx h
  | prove proofTxHash entry =>
    have after : ((handleBlobProof env proofTxHash work entry).1.pending.map[hash]?).isSome := h
    obtain same|⟨tx,_,_,pushed⟩ := pending_handleBlobProof env proofTxHash work entry
    · rw [same] at after
      exact after
    · rw [pushed] at after
      obtain ⟨found,hf⟩ := Option.isSome_iff_exists.mp after
      obtain old|⟨_,old,ho,_⟩ := getElem?_pushProof hf
      · exact Option.isSome_iff_exists.mpr ⟨found,old⟩
      · exact Option.isSome_iff_exists.mpr ⟨old,ho⟩
  | timeOut txHash =>
    have after : ((work.drop txHash).pending.map[hash]?).isSome := h
    unfold Work.drop at after
    split at after
    · exact after
    · next hr =>
      obtain ⟨found,hf⟩ := Option.isSome_iff_exists.mp after
      have old := hf
      rw [Work.pending_setPending,(remove_eq_some hr).2,Std.ExtTreeMap.getElem?_erase] at old
      split_ifs at old
      exact Option.isSome_iff_exists.mpr ⟨found,old⟩
  | reschedule hashes =>
    have after : ((hashes.toList.foldl rescheduleTimeout
      work.store).unsettledTransactions.map[hash]?).isSome := h
    rwa [unsettledTransactions_reschedule] at after

/-- Old timeouts of a transaction belong to the instance that is pending, and only the calls
that arm it add new ones. -/
theorem armed_after (fresh : moment.LeavesNoTimeout env)
    (h : hash∈(moment.after env).store.timeouts.getD height [])
    (hp : ((moment.after env).pending.map[hash]?).isSome) :
    moment.isPending hash=true ∧ hash∈moment.work.store.timeouts.getD height [] ∨
      moment.arms env hash=some height := by
  obtain ⟨order,work,call⟩ := moment
  cases call with
  | sequence parentDpHash laneId tx =>
    cases hh : handleBlobTx env work.store parentDpHash tx (txContext laneId work.block) with
    | error e =>
      simp only [Moment.after,hh] at h hp
      exact Or.inl ⟨hp,h⟩
    | ok handled =>
      obtain ⟨handled,next⟩ := handled
      simp only [Moment.after,hh] at h hp
      obtain ⟨checked,⟨_,rfl⟩|⟨pending,isNext,added,accepted,rfl⟩⟩ := handleBlobTx_cases hh
      · exact Or.inl ⟨hp,h⟩
      · have absent := getElem?_eq_none_of_add added
        obtain old|⟨rfl,isFirst,window,hw,ends⟩ := mem_timeouts_scheduleTimeout h
        · have listed : hash∈work.store.timeouts.getD height [] := old
          by_cases same : tx.hashed env.sha3=hash
          · subst same
            have apart := fresh checked (Option.isSome_eq_false_iff.mpr
              (Option.isNone_iff_eq_none.mpr absent))
            obtain ⟨entry,hm,listed⟩ := exists_of_mem_getD listed
            exact absurd listed (apart entry hm)
          · have present : (pending.map[hash]?).isSome := by
              rwa [Work.pending,scheduleTimeout_unsettledTransactions] at hp
            rw [add_eq_some added,Std.ExtTreeMap.getElem?_insert] at present
            split_ifs at present with heq
            · exact absurd (Std.LawfulEqOrd.eq_of_compare heq) same
            · exact Or.inl ⟨present,listed⟩
        · rw [← @scheduleTimeout_unsettledTransactions _ (tx.hashed env.sha3) tx.blobs] at isFirst
          have hw : getTxTimeoutWindow work.store tx.blobs=.timeout window := hw
          have ends : work.store.currentHeight+window=height := ends
          refine Or.inr ?_
          cases handled with
          | duplicate => exact absurd rfl accepted
          | ok => simpa [Moment.arms,hh,isFirst,hw,Moment.endOf] using ends
          | shouldSettle txHash =>
            simpa [Moment.arms,hh,isFirst,hw,Moment.endOf] using ends
  | settle bth =>
    have old : hash∈(settleTx env bth work).1.store.timeouts.getD height [] := h
    rw [(sameClock_settleTx env bth work).1] at old
    exact Or.inl ⟨isPending_of_after rfl hp,old⟩
  | prove proofTxHash entry =>
    have old :
        hash∈(handleBlobProof env proofTxHash work entry).1.store.timeouts.getD height [] := h
    obtain same|⟨index,proof,same⟩ := store_handleBlobProof env proofTxHash work entry
    · rw [same] at old
      exact Or.inl ⟨isPending_of_after rfl hp,old⟩
    · rw [same] at old
      exact Or.inl ⟨isPending_of_after rfl hp,old⟩
  | timeOut txHash =>
    have old : hash∈(work.drop txHash).store.timeouts.getD height [] := h
    have same : (work.drop txHash).store.timeouts=work.store.timeouts := by
      unfold Work.drop
      split <;> rfl
    rw [same] at old
    exact Or.inl ⟨isPending_of_after rfl hp,old⟩
  | reschedule hashes =>
    have pending := @isPending_of_after env _ hash rfl hp
    obtain old|⟨mem,window,⟨tx,hg,hn,hw⟩,ends⟩ := mem_timeouts_foldl_rescheduleTimeout h
    · exact Or.inl ⟨pending,old⟩
    · refine Or.inr ?_
      have listed : hash∈hashes := Std.ExtTreeSet.mem_toList.mp mem
      unfold Moment.arms
      simp [Work.pending,hg,listed,hn,hw,Moment.endOf,ends]

end Calls

section Sound
variable {env : Environment} {past : List Moment} {moment : Moment} {order : List TxHash}
  {height : BlockHeight} {due : List TxHash}

theorem timeoutsSound_concat {acc : List Moment} : TimeoutsSound env acc (past++[moment]) ↔
    TimeoutsSound env acc past ∧ moment.TimesOutArmed env (past.reverse++acc) := by
  induction past generalizing acc with
  | nil => simp [TimeoutsSound]
  | cons first past ih => simp [TimeoutsSound,ih,and_assoc]

/-- The calls were sound, and each timeout of a pending transaction was set for the instance that
is pending. -/
structure Sound (env : Environment) (past : List Moment) (store : NodeStateStore) : Prop where
  sound : TimeoutsSound env [] past
  armed : ∀ height hash,hash∈store.timeouts.getD height [] →
    (store.unsettledTransactions.map[hash]?).isSome → ArmedSince env hash height past.reverse

theorem Sound.step (h : Sound env past moment.work.store) (fresh : moment.LeavesNoTimeout env)
    (ht : moment.TimesOutArmed env past.reverse) :
    Sound env (past++[moment]) (moment.after env).store := by
  constructor
  · rw [timeoutsSound_concat,List.append_nil]
    exact ⟨h.sound,ht⟩
  · intro height hash listed pending
    rw [List.reverse_concat]
    obtain ⟨before,old⟩|arms := armed_after fresh listed pending
    · exact Or.inr ⟨before,h.armed height hash old before⟩
    · exact Or.inl arms

/-- After the timeouts of a block have been cleared. -/
theorem maintained_sound (env : Environment) :
    Maintained env (fun call => call.isTimeOut=false) fun past work =>
      (∀ moment ∈ past,moment.LeavesNoTimeout env) → Sound env past work.store where
  note _ _ _ _ h := h
  call := by
    intro past moment allowed h fresh
    have before := h fun earlier he => fresh earlier (List.mem_append_left _ he)
    have last := fresh moment (List.mem_append_right _ (List.mem_singleton_self _))
    apply before.step last
    unfold Moment.TimesOutArmed
    split
    · next hc =>
      rw [hc] at allowed
      cases allowed
    · trivial

/-- The calls that clear the timeouts of the listed transactions. -/
def Call.Clears (due : List TxHash) : Call → Prop
  | .timeOut hash => hash∈due
  | .sequence _ _ _ => False
  | _ => True

/-- While the timeouts of a height are cleared, those that are still pending of the listed
transactions were armed for it. -/
structure Clearing (env : Environment) (height : BlockHeight) (due : List TxHash)
    (past : List Moment) (work : Work) : Prop extends Sound env past work.store where
  clock : work.block.blockHeight=height
  due : ∀ hash ∈ due,(work.pending.map[hash]?).isSome → ArmedSince env hash height past.reverse

theorem maintained_clearing (env : Environment) (height : BlockHeight) (due : List TxHash) :
    Maintained env (Call.Clears due) (Clearing env height due) where
  note _ _ _ noted h := ⟨h.toSound,(congrArg Outcomes.height (outcomes_noted noted)).trans h.clock,
    h.due⟩
  call := by
    intro past moment allowed h
    have quiet : moment.call.isSequence=false := by
      cases hc : moment.call with
      | sequence parentDpHash laneId tx =>
        rw [hc] at allowed
        exact allowed.elim
      | _ => rfl
    refine ⟨h.step ?_ ?_,(accounts env moment).height.trans h.clock,?_⟩
    · unfold Moment.LeavesNoTimeout
      split
      · next hc =>
        rw [hc] at quiet
        cases quiet
      · trivial
    · unfold Moment.TimesOutArmed
      split
      · next hash hc =>
        rw [hc] at allowed
        intro pending
        rw [h.clock]
        exact h.due hash allowed pending
      · trivial
    · intro hash hm pending
      have before := isPending_of_after quiet pending
      rw [List.reverse_concat]
      exact Or.inr ⟨before,h.due hash hm before⟩

theorem sound_clearTimeouts {work : Work} (h : Sound env past work.store) :
    Sound env (past++clearMoments env order work) (clearTimeouts env work).store := by
  let started : Work := ⟨{ work.store with
    timeouts := work.store.timeouts.erase work.block.blockHeight },work.block⟩
  let due := work.store.timeouts.getD work.block.blockHeight []
  have start : Clearing env work.block.blockHeight due past started := by
    refine ⟨⟨h.sound,?_⟩,rfl,h.armed work.block.blockHeight⟩
    intro height hash listed pending
    have kept : hash∈(work.store.timeouts.erase work.block.blockHeight).getD height [] := listed
    rw [Std.ExtTreeMap.getD_erase] at kept
    split_ifs at kept
    · cases kept
    · exact h.armed height hash kept pending
  have cleared : Clearing env work.block.blockHeight due (past++clearMoments env order work)
      (due.foldl (clearTimeout env) (started,[])).1 := by
    refine Trace.foldl_of_past (I := fun past (state : Work × List TxHash) =>
      Clearing env work.block.blockHeight due past state.1) start ?_
    intro past state hash hm hp
    exact (maintained_clearing env _ due).clearTimeout (fun _ => trivial) (fun _ => trivial) hm hp
  exact cleared.toSound

theorem sound_blockStep {state : List TxHash × NodeStateStore} {signedBlock : SignedBlock}
    (h : (∀ moment ∈ past,moment.LeavesNoTimeout env) → Sound env past state.2)
    (fresh : ∀ moment ∈ past++blockMoments env state signedBlock,moment.LeavesNoTimeout env) :
    Sound env (past++blockMoments env state signedBlock) (blockStep env state signedBlock).2 := by
  have before := h fun moment hm => fresh moment (List.mem_append_left _ hm)
  by_cases ho : InOrder state.2 signedBlock
  · have begun : Sound env past (beginBlock env state.2 signedBlock).store :=
      ⟨before.sound,before.armed⟩
    let clearing := clearMoments env state.1 (beginBlock env state.2 signedBlock)
    let cleared := clearedBlock env state signedBlock
    let handling := Trace.outputs (txStep env) (txMoments env) cleared
      (signedBlock.iterTxsWithId env.sha3)
    have clears : Sound env (past++clearing) cleared.2.store := sound_clearTimeouts begun
    have handled : (∀ moment ∈ past++clearing++handling,moment.LeavesNoTimeout env) →
        Sound env (past++clearing++handling) (blockWork env state.2 signedBlock).store :=
      (maintained_sound env).handleTxs (fun _ hc => hc) (fun _ he _ hd => txHash_of_mem he hd)
        fun _ => clears
    have eq : past++blockMoments env state signedBlock=past++clearing++handling := by
      unfold blockMoments
      rw [if_pos ho,List.append_assoc]
    rw [blockStep_eq,handleSignedBlock_of_inOrder ho]
    rw [eq] at fresh ⊢
    exact handled fresh
  · unfold blockMoments blockStep
    rw [if_neg ho,if_neg ho,List.append_nil]
    exact before

/-- In a run in which no transaction is accepted again while an old timeout of it is left, each
transaction that times out was armed for that height, and has been pending ever since. -/
theorem timeoutsSound (env : Environment) (signedBlocks : List SignedBlock)
    (h : RunLeavesNoTimeouts env signedBlocks) :
    TimeoutsSound env [] (moments env signedBlocks) := by
  have start : (∀ moment ∈ ([] : List Moment),moment.LeavesNoTimeout env) →
      Sound env [] NodeStateStore.default := by
    refine fun _ => ⟨trivial,?_⟩
    intro height hash _ pending
    have none : NodeStateStore.default.unsettledTransactions.map[hash]?=none :=
      Std.ExtTreeMap.getElem?_empty
    rw [none] at pending
    cases pending
  have ran : (∀ moment ∈ []++moments env signedBlocks,moment.LeavesNoTimeout env) →
      Sound env ([]++moments env signedBlocks)
        (signedBlocks.foldl (blockStep env) ([],NodeStateStore.default)).2 :=
    Trace.foldl_of_past (I := fun past (state : List TxHash × NodeStateStore) =>
      (∀ moment ∈ past,moment.LeavesNoTimeout env) → Sound env past state.2) start
      fun _ _ _ _ hp => sound_blockStep hp
  rw [List.nil_append] at ran
  exact (ran h).sound

end Sound

namespace Resequenced

open TwoContracts (proofTx)

/-- Registers a contract whose transactions time out after three blocks. -/
def registerTx : BlobTransaction :=
  ⟨"hyle@hyle",[⟨"hyle",(Borsh.ser
    (⟨none,none,⟨"test",[1],[0],"foo",some (.timeout 3),none⟩⟩ :
      StructuredBlobData RegisterContractAction)).getD []⟩]⟩

def tx : BlobTransaction := ⟨"bob@foo",[⟨"foo",[]⟩]⟩

def digest : H256 :=
  ByteVec.ofNat 32 0x76a59ebf432f12aca299ccc290436d334194469fcd1ef291aacad51a11471285

def hash : TxHash := Bytes.hex digest.toList

def entry : BlobProofOutput where
  blobTxHash := hash
  originalProofHash := ""
  hyleOutput := { TwoContracts.output with
    nextState := [5]
    identity := "bob@foo"
    txBlobCount := 1
    txHash := hash }
  programId := [1]

def block (height : BlockHeight) (txs : List Transaction) : SignedBlock :=
  ⟨[([1],[⟨none,txs⟩])],⟨height,"",[],[],0⟩,default⟩

/-- The transaction waits for its proof until it times out. -/
def waitingBlocks : List SignedBlock :=
  [block 1 [⟨1,.blob registerTx⟩,⟨1,.blob tx⟩],block 2 [],block 3 [],block 4 []]

/-- The transaction settles, and the same one is sequenced once more. -/
def resequencedBlocks : List SignedBlock :=
  [block 1 [⟨1,.blob registerTx⟩,⟨1,.blob tx⟩],block 2 [proofTx "foo" entry,⟨1,.blob tx⟩],
    block 3 [],block 4 []]

def blobDigests : List (Bytes × H256) :=
  [(registerTx.blobs.flatMap fun blob => utf8 blob.contractName++blob.data,
    ByteVec.ofNat 32 0x4b27e5c373e04b412532c5645149fdfe8b22882f6960b8667c34614be397a396),
   (utf8 "foo",
    ByteVec.ofNat 32 0x76d3bc41c9f588f7fcd0d5bf4718f8f84b1c41b20882703100b9eb9413807c01)]

def txDigests : List (Bytes × H256) :=
  let sha3 := ByteVec.lookup blobDigests
  [(Transaction.preimage sha3 (.blob registerTx),
    ByteVec.ofNat 32 0x08da68bf9b6e5e4f5d04cc53f446431d43c1b9155ba224484458ed32867cff46),
   (Transaction.preimage sha3 (.blob tx),digest),
   (entry.hyleOutput.preimage sha3,
    ByteVec.ofNat 32 0xcb65eda6c2ae8a3d151b9eb02147387fe25d42cc7017e58caaade6096af715ab),
   ((block 1 []).consensusProposal.preimage,
    ByteVec.ofNat 32 0x152058c4aded5c45e6c5b36c46c22faa4172e1829870023dacbcce408221b1c4),
   ((block 2 []).consensusProposal.preimage,
    ByteVec.ofNat 32 0xd69be0d35a02eaad6d4ff3316a44ef7e5c12a8dd819f592e1835eebb0a601748),
   ((block 3 []).consensusProposal.preimage,
    ByteVec.ofNat 32 0xe27ff53013de223de0e77b2c4b7c43f78362d58328390af031747170a7526246),
   ((block 4 []).consensusProposal.preimage,
    ByteVec.ofNat 32 0x417b24c93db5922f801ef1cc082568b4592ef4ecae6e92a56821da4789799669)]

def entryDigests : List (Bytes × H256) :=
  [(entry.preimage (ByteVec.lookup txDigests),
    ByteVec.ofNat 32 0xe9740289864fc58cf45c5541ad95617dbf38ecdb2000a4d2184f1657c1e35321)]

def proofDigests : List (Bytes × H256) :=
  let sha3 := ByteVec.lookup (blobDigests++txDigests++entryDigests)
  [(Transaction.preimage sha3 (proofTx "foo" entry).transactionData,
    ByteVec.ofNat 32 0x6c2f4929c54b06c19683f5199c310c92ad4ef2cd38241f68d03659defe170e6c)]

/-- SHA3-256 at the byte strings that the blocks lead to. -/
def env : Environment :=
  let digests := blobDigests++txDigests++entryDigests++proofDigests
  { TwoContracts.env with sha3 := ByteVec.lookup digests }

/-- The transactions that time out in the run, with the heights. -/
def timedOut (signedBlocks : List SignedBlock) : List (TxHash × BlockHeight) :=
  (moments env signedBlocks).flatMap fun moment =>
    moment.timedOut.map fun hash => (hash,moment.work.block.blockHeight)

/-- The timeouts of the first run are due, and one of the second run is not. -/
theorem runs_resequenced : timedOut waitingBlocks=[(hash,4)] ∧
    RunLeavesNoTimeouts env waitingBlocks ∧
    ¬TimeoutsSound env [] (moments env resequencedBlocks) := by
  decide +kernel

end Resequenced

open Resequenced in
theorem timeoutsSound_waitingBlocks : timedOut waitingBlocks=[(hash,4)] ∧
    TimeoutsSound env [] (moments env waitingBlocks) :=
  ⟨runs_resequenced.1,timeoutsSound env waitingBlocks runs_resequenced.2.1⟩

open Resequenced in
/-- The second instance is removed by the timeout of the first one, which has settled. -/
theorem not_timeoutsSound : ¬TimeoutsSound env [] (moments env resequencedBlocks) :=
  runs_resequenced.2.2

end TruthSeeker.NodeState
