import TruthSeeker.DataAvailability.OrderedDelivery

namespace TruthSeeker

open DataAvailability (keyOf)

structure DAListener where
  nodeState : NodeStateStore
  /-- In the order of the heights. -/
  blockBuffer : List SignedBlock
  /-- All blocks that were passed to the node state, for the record. -/
  passed : List SignedBlock
  bus : List Block

namespace DAListener

section Code
variable (env : Environment) (self : DAListener) (block : SignedBlock)

def new : DAListener := ⟨NodeStateStore.default,[],[],[]⟩

/-- The call of `handle_signed_block`, and the event about the block if it went well. -/
def handle : Except String Unit × DAListener :=
  match NodeState.handleSignedBlock env self.nodeState block with
  | (store,.error e) => (.error e,{ self with
      nodeState := store
      passed := self.passed++[block] })
  | (store,.ok processedBlock) => (.ok (),{ self with
      nodeState := store
      passed := self.passed++[block]
      bus := self.bus++[processedBlock] })

/-- The loop of `process_buffered_blocks` over the buffer from its front. -/
def bufferLoop : List SignedBlock → DAListener → Except String Unit × DAListener
  | [],self => (.ok (),{ self with blockBuffer := [] })
  | block::rest,self =>
      if block.height=self.nodeState.currentHeight+1 then
        match self.handle env block with
        | (.error e,self) => (.error e,{ self with blockBuffer := rest })
        | (.ok _,self) => bufferLoop rest self
      else (.ok (),{ self with blockBuffer := Reorder.insertReplace keyOf block rest })

def processBufferedBlocks : Except String Unit × DAListener :=
  match self.blockBuffer with
  | [] => bufferLoop env [] self
  | first::rest =>
      if self.nodeState.currentHeight+1<first.height then (.ok (),self)
      else bufferLoop env (first::rest) self

def processBlock : Except String Unit × DAListener :=
  if block.height=0 ∧ self.nodeState.currentHeight=0 then self.handle env block
  else
    let next := self.nodeState.currentHeight+1
    if block.height<next then (.ok (),self)
    else if block.height=next then
      match self.handle env block with
      | (.error e,self) => (.error e,self)
      | (.ok _,self) => self.processBufferedBlocks env
    else (.ok (),{ self with
      blockBuffer := Reorder.insertReplace keyOf block self.blockBuffer })

/-- The blocks of the stream one after the other; an error is only logged. -/
def run (blocks : List SignedBlock) : DAListener :=
  blocks.foldl (fun self block => (self.processBlock env block).2) new

end Code

/-- The heights that were passed to the node state are 0, 1, 2 and so on. -/
def InSequence (self : DAListener) : Prop :=
  self.passed.map keyOf=List.range self.passed.length

/-- A block of height 1 comes only after genesis, and genesis comes again only after such a block,
and not any more when blocks of all heights have come. -/
def Timely (before : List Nat) (height : Nat) : Prop :=
  (height=1 → 0∈before) ∧ (height=0 → 0∈before → 1∈before ∧ ∃ h < 2^64,h∉before)

def GenesisFirst (heights : List Nat) : Prop :=
  ∀ before height after,heights=before++height::after → Timely before height

/-- What was passed and what waits, told by the heights. -/
def progress (self : DAListener) : Reorder.Buffer :=
  ⟨self.passed.length,self.blockBuffer.map keyOf⟩

/-- All blocks were passed in sequence and accepted, the last one has the current height. -/
structure Tracks (da : DAListener) : Prop where
  sequence : da.InSequence
  height : da.nodeState.currentHeight.toNat=da.passed.length-1
  sent : da.bus.length=da.passed.length

variable {env : Environment} {self : DAListener} {block : SignedBlock}

theorem handle_of_inOrder (env : Environment) (h : NodeState.InOrder self.nodeState block) :
    ∃ store processed,self.handle env block=(.ok (),{ self with
        nodeState := store
        passed := self.passed++[block]
        bus := self.bus++[processed] }) ∧ store.currentHeight=block.height := by
  have height := NodeState.currentHeight_handleSignedBlock env h
  have accepted := (NodeState.isOk_handleSignedBlock_iff env).mpr h
  unfold handle
  split
  · next store e eq =>
    rw [eq] at accepted
    cases accepted
  · next store processed eq =>
    rw [eq] at height
    exact ⟨store,processed,rfl,height⟩

/-- The block after the passed ones is accepted. -/
theorem Tracks.handle (env : Environment) (h : self.Tracks) (hn : keyOf block=self.passed.length) :
    ∃ next,self.handle env block=(.ok (),next) ∧ next.Tracks ∧
      next.passed=self.passed++[block] ∧ next.blockBuffer=self.blockBuffer := by
  have bound : keyOf block<2^64 := block.height.toNat_lt
  have height := h.height
  have inOrder : NodeState.InOrder self.nodeState block := by
    unfold NodeState.InOrder
    by_cases none : self.passed.length=0
    · rw [none] at height hn
      exact Or.inr ⟨UInt64.toNat_inj.mp height,UInt64.toNat_inj.mp hn⟩
    · refine Or.inl (UInt64.toNat_inj.mp ?_)
      rw [UInt64.toNat_add,height]
      show (self.passed.length-1+1)%2^64=keyOf block
      rw [Nat.sub_add_cancel (by omega),← hn,Nat.mod_eq_of_lt bound]
  obtain ⟨store,processed,eq,now⟩ := handle_of_inOrder env inOrder
  refine ⟨_,eq,⟨?_,?_,?_⟩,rfl,rfl⟩
  · unfold InSequence
    dsimp only
    rw [List.map_append,h.sequence,List.length_append,List.length_singleton,List.range_succ]
    rw [List.map_singleton,hn]
  · dsimp only
    rw [now,List.length_append,List.length_singleton,Nat.add_sub_cancel]
    exact hn
  · dsimp only
    rw [List.length_append,List.length_append,h.sent]
    rfl

theorem height_eq_iff (h : self.Tracks) (hl : 0<self.passed.length)
    (hb : self.passed.length<2^64) :
    block.height=self.nodeState.currentHeight+1 ↔ keyOf block=self.passed.length := by
  rw [← UInt64.toNat_inj,UInt64.toNat_add,h.height]
  show keyOf block=(self.passed.length-1+1)%2^64 ↔ _
  rw [Nat.sub_add_cancel hl,Nat.mod_eq_of_lt hb]

theorem insertReplace_front {rest : List SignedBlock}
    (h : Reorder.Ascending keyOf (block::rest)) :
    Reorder.insertReplace keyOf block rest=block::rest := by
  cases rest with
  | nil => rfl
  | cons next rest =>
    have less := (List.pairwise_cons.mp h).1 next List.mem_cons_self
    rw [Reorder.insertReplace,if_pos less]

/-- Draining the buffer passes what waits for nothing else. -/
theorem Tracks.bufferLoop (env : Environment) {waiting : List SignedBlock}
    (h : self.Tracks) (hl : 0<self.passed.length) (hw : ∀ b ∈ waiting,self.passed.length≤keyOf b)
    (ha : Reorder.Ascending keyOf waiting) :
    (bufferLoop env waiting self).2.Tracks ∧
      (bufferLoop env waiting self).2.progress=
        Reorder.drain self.passed.length (waiting.map keyOf) := by
  induction waiting generalizing self with
  | nil => exact ⟨⟨h.sequence,h.height,h.sent⟩,rfl⟩
  | cons first rest ih =>
    obtain ⟨head,tail⟩ := List.pairwise_cons.mp ha
    have above := hw first List.mem_cons_self
    have bound : keyOf first<2^64 := first.height.toNat_lt
    unfold DAListener.bufferLoop
    rw [List.map_cons,Reorder.drain]
    simp only [height_eq_iff h hl (above.trans_lt bound)]
    by_cases here : keyOf first=self.passed.length
    · rw [if_pos here,if_pos here]
      obtain ⟨next,eq,tracks,passed,_⟩ := h.handle env here
      rw [eq]
      have count : next.passed.length=self.passed.length+1 := by
        rw [passed,List.length_append,List.length_singleton]
      rw [← count]
      apply ih tracks
      · omega
      · intro b hb
        have := head b hb
        omega
      · exact tail
    · rw [if_neg here,if_neg here,insertReplace_front ha]
      exact ⟨⟨h.sequence,h.height,h.sent⟩,rfl⟩

theorem Tracks.processBufferedBlocks (h : self.Tracks) (hl : 0<self.passed.length)
    (hw : ∀ b ∈ self.blockBuffer,self.passed.length≤keyOf b)
    (ha : Reorder.Ascending keyOf self.blockBuffer) :
    (self.processBufferedBlocks env).2.Tracks ∧ (self.processBufferedBlocks env).2.progress=
      Reorder.drain self.passed.length (self.blockBuffer.map keyOf) := by
  have drained := h.bufferLoop env hl hw ha
  unfold DAListener.processBufferedBlocks
  cases hb : self.blockBuffer with
  | nil =>
    rw [hb] at drained
    exact drained
  | cons first rest =>
    rw [hb] at drained
    dsimp only
    split_ifs with early
    · refine ⟨h,?_⟩
      have bound : keyOf first<2^64 := first.height.toNat_lt
      have above := hw first (by rw [hb]; exact List.mem_cons_self)
      have later : keyOf first≠self.passed.length := by
        intro same
        rw [(height_eq_iff h hl (above.trans_lt bound)).mpr same] at early
        exact UInt64.lt_irrefl _ early
      rw [List.map_cons,Reorder.drain,if_neg later,progress,hb]
      rfl
    · exact drained

/-- What is known after blocks of the given heights. In the end all heights may be used up. -/
structure Follows (before : List Nat) (da : DAListener) : Prop where
  tracks : da.Tracks
  genesis : 1∈before → 0∈before
  progress : da.progress.Holds {n | n∈before} ∨
    da.passed.length=2^64 ∧ ∀ h < 2^64,h∈before

theorem length_le (h : self.Tracks) : self.passed.length≤2^64 := by
  have bound := self.nodeState.currentHeight.toNat_lt
  rw [h.height] at bound
  omega

/-- After genesis, and while there are more heights, a block is taken in as the reordering of
heights does. -/
theorem Tracks.processBlock (h : self.Tracks) {arrived : Set Nat}
    (hb : self.progress.Holds arrived) (hl : 0<self.passed.length)
    (hu : self.passed.length<2^64) (hg : ¬(keyOf block=0 ∧ self.passed.length=1)) :
    (self.processBlock env block).2.Tracks ∧
      (self.processBlock env block).2.progress=self.progress.arrive (keyOf block) := by
  have genesis : ¬(block.height=0 ∧ self.nodeState.currentHeight=0) := by
    rintro ⟨zero,start⟩
    have height := h.height
    rw [start] at height
    refine hg ⟨congrArg UInt64.toNat zero,?_⟩
    have : (0 : UInt64).toNat=0 := rfl
    omega
  have next : (self.nodeState.currentHeight+1).toNat=self.passed.length := by
    rw [UInt64.toNat_add,h.height]
    show (self.passed.length-1+1)%2^64=_
    rw [Nat.sub_add_cancel hl,Nat.mod_eq_of_lt hu]
  have less : block.height<self.nodeState.currentHeight+1 ↔ keyOf block<self.passed.length := by
    rw [UInt64.lt_iff_toNat_lt,next]
    rfl
  unfold DAListener.processBlock
  simp only [if_neg genesis,less,height_eq_iff h hl hu]
  obtain past|here|early := lt_trichotomy (keyOf block) self.passed.length
  · rw [if_pos past,Reorder.Buffer.arrive_past past]
    exact ⟨h,rfl⟩
  · rw [if_neg here.not_lt,if_pos here,Reorder.Buffer.arrive_next here]
    obtain ⟨after,eq,tracks,passed,buffer⟩ := h.handle env here
    rw [eq]
    have count : after.passed.length=self.passed.length+1 := by
      rw [passed,List.length_append,List.length_singleton]
    rw [here,← count]
    dsimp only
    rw [show self.progress.waiting=after.blockBuffer.map keyOf by rw [buffer]; rfl]
    apply tracks.processBufferedBlocks
    · omega
    · intro b hb'
      rw [buffer] at hb'
      have later := ((hb.waits (keyOf b)).mp (List.mem_map_of_mem hb')).2
      rw [count]
      exact later
    · rw [buffer]
      exact Reorder.ascending_iff_map.mpr hb.ascending
  · rw [if_neg early.not_gt,if_neg early.ne',Reorder.Buffer.arrive_early early]
    refine ⟨⟨h.sequence,h.height,h.sent⟩,?_⟩
    exact congrArg (Reorder.Buffer.mk _) (Reorder.map_insertReplace block _)

/-- Genesis is passed first. -/
theorem Tracks.genesis (h : self.Tracks) {arrived : Set Nat} (hb : self.progress.Holds arrived)
    (hl : self.passed.length=0) (hn : keyOf block=0) (hf : 1∉arrived) :
    (self.processBlock env block).2.Tracks ∧
      (self.processBlock env block).2.progress=self.progress.arrive (keyOf block) := by
  have start : self.nodeState.currentHeight=0 := by
    apply UInt64.toNat_inj.mp
    rw [h.height,hl]
    rfl
  obtain ⟨after,eq,tracks,passed,buffer⟩ := h.handle env (hn.trans hl.symm)
  unfold DAListener.processBlock
  rw [if_pos ⟨UInt64.toNat_inj.mp hn,start⟩,eq]
  refine ⟨tracks,?_⟩
  have later : ∀ n ∈ self.progress.waiting,1<n := by
    intro n hw
    obtain ⟨here,above⟩ := (hb.waits n).mp hw
    have other : n≠1 := by
      rintro rfl
      exact hf here
    omega
  rw [Reorder.Buffer.arrive_next (hn.trans hl.symm),hn,Reorder.drain_of_early later]
  simp only [progress,passed,buffer,List.length_append,List.length_singleton,hl]

/-- Before genesis, the blocks after the first one wait. -/
theorem Tracks.early (h : self.Tracks) (hl : self.passed.length=0) (hn : 1<keyOf block) :
    (self.processBlock env block).2.Tracks ∧
      (self.processBlock env block).2.progress=self.progress.arrive (keyOf block) := by
  have height := h.height
  have next : (self.nodeState.currentHeight+1).toNat=1 := by
    rw [UInt64.toNat_add,height,hl]
    rfl
  have nonzero : block.height≠0 := by
    intro zero
    have : keyOf block=0 := congrArg UInt64.toNat zero
    omega
  have notLess : ¬block.height<self.nodeState.currentHeight+1 := by
    rw [UInt64.lt_iff_toNat_lt,next]
    exact hn.not_gt
  have other : block.height≠self.nodeState.currentHeight+1 := by
    intro same
    have : keyOf block=1 := (congrArg UInt64.toNat same).trans next
    omega
  unfold DAListener.processBlock
  simp only [nonzero,notLess,other,false_and,if_false]
  refine ⟨⟨h.sequence,height,h.sent⟩,?_⟩
  have later : self.progress.next<keyOf block := by
    show self.passed.length<_
    omega
  rw [Reorder.Buffer.arrive_early later]
  exact congrArg (Reorder.Buffer.mk _) (Reorder.map_insertReplace block _)

theorem currentHeight_full (h : self.Tracks) (hl : self.passed.length=2^64) :
    self.nodeState.currentHeight+1=0 := by
  apply UInt64.toNat_inj.mp
  rw [UInt64.toNat_add,h.height,hl]
  rfl

theorem Follows.step {before : List Nat} (h : self.Follows before)
    (ht : Timely before (keyOf block)) :
    (self.processBlock env block).2.Follows (before++[keyOf block]) := by
  have genesis : 1∈before++[keyOf block] → 0∈before++[keyOf block] := by
    intro one
    obtain old|new := List.mem_append.mp one
    · exact List.mem_append_left _ (h.genesis old)
    · exact List.mem_append_left _ (ht.1 (List.mem_singleton.mp new).symm)
  have full : self.passed.length=2^64 → (∀ h < 2^64,h∈before) →
      (self.processBlock env block).2.Follows (before++[keyOf block]) := by
    intro count all
    have nonzero : block.height≠0 := by
      intro zero
      obtain ⟨_,missing,less,absent⟩ := ht.2 (congrArg UInt64.toNat zero) (all 0 (by decide))
      exact absent (all missing less)
    unfold DAListener.processBlock
    simp only [nonzero,currentHeight_full h.tracks count,false_and,if_false,UInt64.not_lt_zero]
    exact ⟨⟨h.tracks.sequence,h.tracks.height,h.tracks.sent⟩,genesis,
      Or.inr ⟨count,fun n hn => List.mem_append_left _ (all n hn)⟩⟩
  obtain holds|⟨count,all⟩ := h.progress
  · have unmissed : ∀ n < self.passed.length,n∈before := holds.passed
    have missing : self.passed.length∉before := holds.missing
    obtain less|count := lt_or_eq_of_le (length_le h.tracks)
    · have moved : (self.processBlock env block).2.Tracks ∧
          (self.processBlock env block).2.progress=self.progress.arrive (keyOf block) := by
        by_cases start : self.passed.length=0
        · rw [start] at missing
          obtain zero|one|later : keyOf block=0 ∨ keyOf block=1 ∨ 1<keyOf block := by omega
          · exact h.tracks.genesis holds start zero (mt h.genesis missing)
          · exact absurd (ht.1 one) missing
          · exact h.tracks.early start later
        · apply h.tracks.processBlock holds (by omega) less
          rintro ⟨zero,one⟩
          rw [one] at missing
          exact missing (ht.2 zero (unmissed 0 (by omega))).1
      have same : {n | n∈before++[keyOf block]}=insert (keyOf block) {n | n∈before} := by
        ext n
        simp [or_comm]
      refine ⟨moved.1,genesis,Or.inl ?_⟩
      rw [moved.2,same]
      exact holds.arrive _
    · exact full count fun n hn => unmissed n (by omega)
  · exact full count all

section Passed

/-- Each call adds its block to the record. -/
theorem passed_handle (env : Environment) (self : DAListener) (block : SignedBlock) :
    (self.handle env block).2.passed=self.passed++[block] := by
  unfold handle
  split <;> rfl

theorem passed_bufferLoop {waiting : List SignedBlock} :
    self.passed <+: (bufferLoop env waiting self).2.passed := by
  induction waiting generalizing self with
  | nil => exact List.prefix_rfl
  | cons first rest ih =>
    unfold bufferLoop
    have added := passed_handle env self first
    split_ifs
    · split
      · next eq =>
        rw [eq] at added
        exact ⟨[first],added.symm⟩
      · next eq =>
        rw [eq] at added
        have more : self.passed <+: self.passed++[first] := List.prefix_append _ _
        rw [← added] at more
        exact more.trans ih
    · exact List.prefix_rfl

theorem passed_processBufferedBlocks :
    self.passed <+: (self.processBufferedBlocks env).2.passed := by
  unfold processBufferedBlocks
  split
  · exact passed_bufferLoop
  · split_ifs
    · exact List.prefix_rfl
    · exact passed_bufferLoop

/-- A block of the current height 0 or of the next height is passed. -/
theorem passed_processBlock_of_inOrder (h : NodeState.InOrder self.nodeState block) :
    self.passed++[block] <+: (self.processBlock env block).2.passed := by
  have added := passed_handle env self block
  unfold processBlock
  dsimp only
  split_ifs with genesis past next
  · exact ⟨[],(List.append_nil _).trans added.symm⟩
  · obtain next|start := h
    · rw [next] at past
      exact absurd past (UInt64.lt_irrefl _)
    · exact absurd ⟨start.2,start.1⟩ genesis
  · split
    · next eq =>
      rw [eq] at added
      exact ⟨[],(List.append_nil _).trans added.symm⟩
    · next eq =>
      rw [eq] at added
      rw [← added]
      exact passed_processBufferedBlocks
  · obtain same|start := h
    · exact absurd same.symm next
    · exact absurd ⟨start.2,start.1⟩ genesis

theorem passed_processBlock : self.passed <+: (self.processBlock env block).2.passed := by
  by_cases h : NodeState.InOrder self.nodeState block
  · exact (List.prefix_append _ _).trans (passed_processBlock_of_inOrder h)
  · unfold processBlock
    dsimp only
    split_ifs with genesis past next
    · exact absurd (Or.inr ⟨genesis.2,genesis.1⟩) h
    · exact List.prefix_rfl
    · exact absurd (Or.inl next.symm) h
    · exact List.prefix_rfl

theorem inSequence_of_passed {passed : List SignedBlock} (h : self.InSequence)
    (hp : passed <+: self.passed) : passed.map keyOf=List.range passed.length := by
  obtain ⟨more,eq⟩ := hp
  unfold InSequence at h
  rw [← eq,List.map_append,List.length_append,List.range_add] at h
  exact List.append_inj_left h (by simp)

end Passed

/-- A block that comes at the wrong time is passed out of sequence. -/
theorem Follows.not_inSequence {before : List Nat} (h : self.Follows before)
    (ht : ¬Timely before (keyOf block)) : ¬(self.processBlock env block).2.InSequence := by
  have passes : NodeState.InOrder self.nodeState block → keyOf block≠self.passed.length →
      ¬(self.processBlock env block).2.InSequence := by
    intro inOrder other sequence
    have passed := inSequence_of_passed sequence (passed_processBlock_of_inOrder inOrder)
    rw [List.map_append,List.length_append,List.length_singleton,List.range_succ] at passed
    have last := List.append_inj_right' passed rfl
    exact other (List.singleton_inj.mp last)
  have height := h.tracks.height
  have current : ∀ n,self.nodeState.currentHeight.toNat=n → n+1<2^64 →
      (self.nodeState.currentHeight+1).toNat=n+1 := by
    intro n hn less
    rw [UInt64.toNat_add,hn]
    exact Nat.mod_eq_of_lt less
  obtain ⟨one,none⟩|⟨zero,started,again⟩ : keyOf block=1 ∧ 0∉before ∨ keyOf block=0 ∧ 0∈before ∧
      ¬(1∈before ∧ ∃ h < 2^64,h∉before) := by
    obtain one|zero := not_and_or.mp ht
    · exact Or.inl (Classical.not_imp.mp one)
    · obtain ⟨zero,rest⟩ := Classical.not_imp.mp zero
      exact Or.inr ⟨zero,Classical.not_imp.mp rest⟩
  · have start : self.passed.length=0 := by
      obtain holds|⟨_,all⟩ := h.progress
      · by_contra other
        exact none (holds.passed 0 (Nat.pos_of_ne_zero other))
      · exact absurd (all 0 (by decide)) none
    apply passes
    · refine Or.inl (UInt64.toNat_inj.mp ?_)
      rw [current 0 (by omega) (by decide)]
      exact one.symm
    · omega
  · have genesis : block.height=0 := UInt64.toNat_inj.mp zero
    by_cases first : 1∈before
    · have all : ∀ h < 2^64,h∈before := by
        intro n less
        by_contra absent
        exact again ⟨first,n,less,absent⟩
      have count : self.passed.length=2^64 := by
        obtain holds|⟨count,_⟩ := h.progress
        · have missing : self.passed.length∉before := holds.missing
          have bound := length_le h.tracks
          by_contra other
          exact missing (all _ (by omega))
        · exact count
      apply passes
      · refine Or.inl ?_
        rw [currentHeight_full h.tracks count]
        exact genesis.symm
      · omega
    · have count : self.passed.length=1 := by
        obtain holds|⟨_,all⟩ := h.progress
        · have missing : self.passed.length∉before := holds.missing
          have waits : ¬1<self.passed.length := fun less => first (holds.passed 1 less)
          have other : self.passed.length≠0 := by
            intro same
            rw [same] at missing
            exact missing started
          omega
        · exact absurd (all 1 (by decide)) first
      apply passes
      · have start : self.nodeState.currentHeight.toNat=0 := by rw [height,count]
        exact Or.inr ⟨UInt64.toNat_inj.mp start,genesis⟩
      · omega

section Runs

theorem run_concat (blocks : List SignedBlock) :
    run env (blocks++[block])=((run env blocks).processBlock env block).2 := by
  rw [run,List.foldl_append]
  rfl

theorem follows_new : new.Follows [] where
  tracks := ⟨rfl,rfl,rfl⟩
  genesis h := absurd h List.not_mem_nil
  progress := by
    have none : {n | n∈([] : List Nat)}=∅ := by simp
    rw [none]
    exact Or.inl Reorder.holds_empty

theorem genesisFirst_nil : GenesisFirst [] := by
  intro before height after eq
  simp at eq

theorem genesisFirst_concat (heights : List Nat) (height : Nat) :
    GenesisFirst (heights++[height]) ↔ GenesisFirst heights ∧ Timely heights height :=
  Trace.forall_split_concat (P := Timely)

/-- The blocks are passed in sequence exactly if they come at the right times. -/
theorem run_spec (env : Environment) (blocks : List SignedBlock) :
    (GenesisFirst (blocks.map keyOf) → (run env blocks).Follows (blocks.map keyOf)) ∧
      ((run env blocks).InSequence → GenesisFirst (blocks.map keyOf)) := by
  induction blocks using List.reverseRecOn with
  | nil => exact ⟨fun _ => follows_new,fun _ => genesisFirst_nil⟩
  | append_singleton blocks block ih =>
    obtain ⟨follows,timely⟩ := ih
    rw [List.map_append,List.map_singleton,genesisFirst_concat,run_concat]
    constructor
    · intro ⟨earlier,now⟩
      exact (follows earlier).step now
    · intro sequence
      have earlier := timely (inSequence_of_passed sequence passed_processBlock)
      refine ⟨earlier,?_⟩
      by_contra now
      exact (follows earlier).not_inSequence now sequence

end Runs

section Given
variable {given : SignedBlock → Prop}

/-- Everything that the listener passed or keeps was given to it. -/
def Holds (given : SignedBlock → Prop) (da : DAListener) : Prop :=
  (∀ b ∈ da.passed,given b) ∧ ∀ b ∈ da.blockBuffer,given b

theorem holds_handle (env : Environment) (h : self.Holds given) (hb : given block) :
    (self.handle env block).2.Holds given := by
  have more : ∀ b ∈ self.passed++[block],given b := by
    intro b hb'
    obtain old|new := List.mem_append.mp hb'
    · exact h.1 b old
    · rwa [List.mem_singleton.mp new]
  unfold handle
  split
  · exact ⟨more,h.2⟩
  · exact ⟨more,h.2⟩

theorem holds_bufferLoop {waiting : List SignedBlock} (h : self.Holds given)
    (hw : ∀ b ∈ waiting,given b) : (bufferLoop env waiting self).2.Holds given := by
  induction waiting generalizing self with
  | nil => exact ⟨h.1,fun _ hb => absurd hb List.not_mem_nil⟩
  | cons first rest ih =>
    have here := hw first List.mem_cons_self
    have later : ∀ b ∈ rest,given b := fun b hb => hw b (List.mem_cons_of_mem _ hb)
    have added := holds_handle env h here
    unfold bufferLoop
    split_ifs
    · split
      · next eq =>
        rw [eq] at added
        exact ⟨added.1,later⟩
      · next eq =>
        rw [eq] at added
        exact ih added later
    · refine ⟨h.1,fun b hb => ?_⟩
      obtain rfl|old := Reorder.mem_insertReplace hb
      · exact here
      · exact later b old

theorem holds_processBufferedBlocks (h : self.Holds given) :
    (self.processBufferedBlocks env).2.Holds given := by
  unfold processBufferedBlocks
  split
  · exact holds_bufferLoop h (by simp)
  · next eq =>
    split_ifs
    · exact h
    · rw [← eq]
      exact holds_bufferLoop h h.2

theorem holds_processBlock (h : self.Holds given) (hb : given block) :
    (self.processBlock env block).2.Holds given := by
  have added := holds_handle env h hb
  unfold processBlock
  dsimp only
  split_ifs
  · exact added
  · exact h
  · split
    · next eq =>
      rw [eq] at added
      exact added
    · next eq =>
      rw [eq] at added
      exact holds_processBufferedBlocks added
  · refine ⟨h.1,fun b hb' => ?_⟩
    obtain rfl|old := Reorder.mem_insertReplace hb'
    · exact hb
    · exact h.2 b old

theorem holds_run {blocks : List SignedBlock} (hg : ∀ b ∈ blocks,given b) :
    (run env blocks).Holds given := by
  induction blocks using List.reverseRecOn with
  | nil => exact ⟨by simp [run,new],by simp [run,new]⟩
  | append_singleton blocks block ih =>
    rw [run_concat]
    apply holds_processBlock
    · exact ih fun b hb => hg b (List.mem_append_left _ hb)
    · exact hg block (List.mem_append_right _ List.mem_cons_self)

end Given

section Chain
open DataAvailability (ProposalChain)
variable {sha3 : Bytes → H256} {chain : List ConsensusProposal}

/-- When all blocks of a chain have come, as many are passed as the chain has. -/
theorem Follows.length_passed (hc : ProposalChain sha3 chain) {blocks : List SignedBlock}
    (h : self.Follows (blocks.map keyOf)) (hk : ∀ b ∈ blocks,b.consensusProposal∈chain)
    (ha : ∀ p ∈ chain,∃ b ∈ blocks,b.consensusProposal=p) : self.passed.length=chain.length := by
  have arrived : ∀ n,n∈blocks.map keyOf ↔ n<chain.length := by
    intro n
    rw [List.mem_map]
    constructor
    · rintro ⟨b,hb,rfl⟩
      exact DataAvailability.slot_lt hc (hk b hb)
    · intro less
      obtain ⟨b,hb,same⟩ := ha chain[n] (List.getElem_mem less)
      refine ⟨b,hb,?_⟩
      show b.consensusProposal.slot.toNat=n
      rw [same,hc.slot n _ (List.getElem?_eq_getElem less)]
  obtain holds|⟨count,all⟩ := h.progress
  · have same : {n | n∈blocks.map keyOf}={n | n<chain.length} := by
      ext n
      exact arrived n
    rw [same] at holds
    exact congrArg Reorder.Buffer.next holds.complete
  · rw [count]
    apply le_antisymm
    · by_contra short
      exact absurd ((arrived _).mp (all chain.length (by omega))) (lt_irrefl _)
    · by_contra long
      have found := hc.slot (2^64) _ (List.getElem?_eq_getElem (by omega))
      have bound := chain[2^64].slot.toNat_lt
      omega

/-- Blocks of a chain that are passed in sequence are the first blocks of the chain. -/
theorem InSequence.passed_eq (hc : ProposalChain sha3 chain) (h : self.InSequence)
    (hk : ∀ b ∈ self.passed,b.consensusProposal∈chain) :
    self.passed.map SignedBlock.consensusProposal=chain.take self.passed.length := by
  apply List.ext_getElem?
  intro i
  rw [List.getElem?_map,List.getElem?_take]
  split_ifs with less
  · have here : self.passed[i]?=some self.passed[i] := List.getElem?_eq_getElem less
    have height : keyOf self.passed[i]=i := by
      have found := congrArg (·[i]?) h
      simpa [here,less] using found
    have slot := DataAvailability.getElem?_slot hc (hk _ (List.getElem_mem less))
    rw [here,Option.map_some,← slot]
    exact congrArg (chain[·]?) height
  · rw [List.getElem?_eq_none (by omega)]
    rfl

end Chain

open DataAvailability (ProposalChain genesis first second blockOf proposalChain_known)

/-- The blocks of a chain are passed to the node state once and in order, and all of them once all
have come, exactly if no block of height 1 comes before genesis and genesis does not come again
before such a block. -/
theorem passes_in_sequence_iff (env : Environment) (chain : List ConsensusProposal)
    (hc : ProposalChain env.sha3 chain) (blocks : List SignedBlock)
    (hk : ∀ b ∈ blocks,b.consensusProposal∈chain) :
    let da := run env blocks
    (da.InSequence ∧ ((∀ p ∈ chain,∃ b ∈ blocks,b.consensusProposal=p) →
      da.passed.map SignedBlock.consensusProposal=chain ∧ da.bus.length=chain.length)) ↔
        GenesisFirst (blocks.map keyOf) := by
  intro da
  obtain ⟨follows,timely⟩ := run_spec env blocks
  constructor
  · exact fun h => timely h.1
  · intro h
    have tracks := (follows h).tracks
    refine ⟨tracks.sequence,fun ha => ?_⟩
    have count : da.passed.length=chain.length := (follows h).length_passed hc hk ha
    have given : da.Holds (·.consensusProposal∈chain) := holds_run hk
    constructor
    · rw [tracks.sequence.passed_eq hc given.1,count,List.take_length]
    · rw [show da.bus.length=_ from tracks.sent,count]

theorem passes_in_sequence_known :
    let da := run DataAvailability.env [blockOf second,blockOf genesis,blockOf first]
    da.InSequence ∧ da.passed.map SignedBlock.consensusProposal=[genesis,first,second] ∧
      da.bus.length=3 := by
  have timely : GenesisFirst ([blockOf second,blockOf genesis,blockOf first].map keyOf) := by
    apply (genesisFirst_concat [2,0] 1).mpr
    refine ⟨(genesisFirst_concat [2] 0).mpr ⟨?_,by simp [Timely]⟩,?_⟩
    · exact (genesisFirst_concat [] 2).mpr ⟨genesisFirst_nil,by simp [Timely]⟩
    · exact ⟨by simp,fun zero => absurd zero (by decide)⟩
  have passes := (passes_in_sequence_iff DataAvailability.env [genesis,first,second]
    proposalChain_known [blockOf second,blockOf genesis,blockOf first] (by simp [blockOf])).mpr timely
  exact ⟨passes.1,passes.2 (by simp [blockOf])⟩

/-- A block of height 1 that comes first is passed at once, and genesis is then ignored; and
genesis is passed again if it comes twice. -/
theorem not_inSequence_first :
    let late := run DataAvailability.env [blockOf first,blockOf genesis]
    let twice := run DataAvailability.env [blockOf genesis,blockOf genesis]
    late.passed=[blockOf first] ∧ ¬late.InSequence ∧
      twice.passed=[blockOf genesis,blockOf genesis] ∧ ¬twice.InSequence := by
  have late : (run DataAvailability.env [blockOf first,blockOf genesis]).passed=
      [blockOf first] := by
    decide +kernel
  have twice : (run DataAvailability.env [blockOf genesis,blockOf genesis]).passed=
      [blockOf genesis,blockOf genesis] := by
    decide +kernel
  unfold InSequence
  dsimp only
  rw [late,twice]
  exact ⟨rfl,by decide,rfl,by decide⟩

end DAListener

end TruthSeeker
