import Mathlib.Data.List.Induction
import TruthSeeker.DataAvailability.ChainDelivery
import TruthSeeker.Framework.Trace
import TruthSeeker.NodeState.Heights
import TruthSeeker.NodeState.Provenance

namespace TruthSeeker.DataAvailability

section Definitions
variable (sha3 : Bytes → H256)

/-- The block comes right after the last one, or is of height 0 if there is none. -/
def Succeeds : Option SignedBlock → SignedBlock → Prop
  | none,block => block.height=0
  | some last,block =>
      block.height.toNat=last.height.toNat+1 ∧ block.parentHash=last.hashed sha3

/-- Each block comes right after the one before it, from height 0 on. -/
def Chained (blocks : List SignedBlock) : Prop :=
  ∀ before block after,blocks=before++block::after → Succeeds sha3 before.getLast? block

/-- The blocks at the front of the buffer that descend from a hash, one from the other. -/
def descendants : ConsensusProposalHash → List SignedBlock → List SignedBlock
  | _,[] => []
  | hash,block::rest =>
      if block.parentHash=hash then block::descendants (block.hashed sha3) rest else []

/-- The results of storing one block after the other. -/
def putAll (faults : Nat → Option PutFault) : Nat → Blocks → List SignedBlock →
    List (SignedBlock × Bool)
  | _,_,[] => []
  | n,blocks,block::rest =>
      (block,(blocks.put sha3 (faults n) block).1)::
        putAll faults (n+1) (blocks.put sha3 (faults n) block).2 rest

variable (self : DataAvailability) (arrival : Arrival)

/-- Whether a block is not put aside: it is new, and its parent is stored or it is the first. -/
def letsThrough (block : SignedBlock) : Bool :=
  !self.blocks.contains (block.hashed sha3) &&
    if self.blocks.isEmpty then block.height=0 else self.blocks.contains block.parentHash

/-- The writes that the arrival of a block leads to, with their results. -/
def writes : List (SignedBlock × Bool) :=
  if self.letsThrough sha3 arrival.block then
    putAll sha3 arrival.faults 0 self.blocks (arrival.block::
      descendants sha3 (arrival.block.hashed sha3) self.bufferedSignedBlocks)
  else []

/-- The heights of the written blocks go up one by one, and none is written after a write that
failed. -/
def Rising : BlockHeight → List (SignedBlock × Bool) → Prop
  | _,[] => True
  | height,(block,true)::rest => block.height.toNat=height.toNat+1 ∧ Rising block.height rest
  | _,(_,false)::rest => ∀ write ∈ rest,write.2=false

/-- The first block that is written comes right after the one delivered last, and no write failed
before it unless nothing has been delivered yet. -/
def Orderly : Option SignedBlock → List (SignedBlock × Bool) → Prop
  | _,[] => True
  | last,(block,true)::rest => Succeeds sha3 last block ∧ Rising block.height rest
  | none,(_,false)::rest => Orderly none rest
  | some _,(_,false)::rest => ∀ write ∈ rest,write.2=false

def KeepsOrder : Prop := Orderly sha3 self.bus.getLast? (self.writes sha3 arrival)

end Definitions

def delivered (writes : List (SignedBlock × Bool)) : List SignedBlock :=
  (writes.filter Prod.snd).map Prod.fst

variable {sha3 : Bytes → H256} {self : DataAvailability} {arrival : Arrival}
  {blocks : List SignedBlock} {block : SignedBlock}

theorem chained_nil : Chained sha3 [] := by
  intro before block after h
  simp at h

theorem chained_concat :
    Chained sha3 (blocks++[block]) ↔ Chained sha3 blocks ∧ Succeeds sha3 blocks.getLast? block :=
  Trace.forall_split_concat (P := fun before block => Succeeds sha3 before.getLast? block)

theorem Chained.left {after : List SignedBlock} (h : Chained sha3 (blocks++after)) :
    Chained sha3 blocks := by
  intro before b rest eq
  exact h before b (rest++after) (by rw [eq,List.append_assoc,List.cons_append])

theorem addProcessedBlock_eq (fault : Option PutFault) :
    self.addProcessedBlock sha3 fault block=
      ((self.blocks.put sha3 fault block).1,{ self with
        blocks := (self.blocks.put sha3 fault block).2
        bus := self.bus++if (self.blocks.put sha3 fault block).1 then [block] else [] }) := by
  unfold addProcessedBlock
  split
  · next h => simp [h]
  · next h => simp [h]

theorem delivered_putAll_cons {faults : Nat → Option PutFault} {n : Nat} {stored : Blocks} :
    delivered (putAll sha3 faults n stored (block::blocks))=
      (if (stored.put sha3 (faults n) block).1 then [block] else [])++
        delivered (putAll sha3 faults (n+1) (stored.put sha3 (faults n) block).2 blocks) := by
  rw [putAll,delivered,List.filter_cons]
  split <;> rfl

/-- What the loop delivers: the descendants that could be stored. -/
theorem bus_popLoop {faults : Nat → Option PutFault} {hash : ConsensusProposalHash} {n : Nat}
    {res : Option BlockHeight} : (self.popLoop sha3 faults blocks hash n res).2.bus=
      self.bus++delivered (putAll sha3 faults n self.blocks (descendants sha3 hash blocks)) := by
  induction blocks generalizing hash n res self with
  | nil => simp [popLoop,descendants,putAll,delivered]
  | cons first rest ih =>
    unfold popLoop descendants
    by_cases child : first.parentHash=hash
    · rw [if_neg (not_not_intro child),if_pos child,delivered_putAll_cons,addProcessedBlock_eq]
      dsimp only
      rw [ih,List.append_assoc]
    · rw [if_pos child,if_neg child]
      simp [putAll,delivered]

theorem bus_step : (self.step sha3 arrival).bus=
    self.bus++delivered (self.writes sha3 arrival) := by
  unfold step handleSignedBlock writes letsThrough
  dsimp only
  by_cases known : self.blocks.contains (arrival.block.hashed sha3)=true
  · simp [known,delivered]
  · by_cases started : self.blocks.isEmpty=true
    · by_cases genesis : arrival.block.height=0
      · simp only [known,started,genesis,not_true_eq_false,false_and,and_false,ne_eq,if_false,
          popBuffer,bus_popLoop,addProcessedBlock_eq,Bool.false_eq_true,Bool.not_false,
          Bool.true_and,decide_true,if_true,delivered_putAll_cons]
        rw [List.append_assoc]
      · simp [known,started,genesis,delivered,bufferBlock]
    · by_cases child : self.blocks.contains arrival.block.parentHash=true
      · simp only [known,started,child,not_true_eq_false,false_and,and_false,ne_eq,if_false,
          popBuffer,bus_popLoop,addProcessedBlock_eq,Bool.false_eq_true,Bool.not_false,
          Bool.true_and,if_true,delivered_putAll_cons,not_false_eq_true]
        rw [List.append_assoc]
      · simp [known,started,child,delivered,bufferBlock]

/-- What was delivered is stored. -/
def Known (sha3 : Bytes → H256) (stored : Blocks) (sent : List SignedBlock) : Prop :=
  ∀ b ∈ sent,stored.contains (b.hashed sha3)=true

section Put
variable {stored : Blocks} {fault : Option PutFault} {sent : List SignedBlock}

theorem contains_put {hash : ConsensusProposalHash} (h : stored.contains hash=true) :
    (stored.put sha3 fault block).2.contains hash=true := by
  unfold Blocks.put
  dsimp only
  split_ifs
  · exact h
  · unfold Blocks.contains at h ⊢
    split <;> simp [Std.ExtTreeMap.contains_insert,h]

theorem contains_of_put (h : (stored.put sha3 fault block).1=true) :
    (stored.put sha3 fault block).2.contains (block.hashed sha3)=true := by
  unfold Blocks.put at h ⊢
  dsimp only at h ⊢
  split_ifs at h ⊢ with known
  · exact known
  · unfold Blocks.contains
    cases fault with
    | none => simp
    | some fault => cases fault <;> cases h

theorem not_contains_of_put (h : (stored.put sha3 fault block).1=false) :
    stored.contains (block.hashed sha3)=false := by
  unfold Blocks.put at h
  dsimp only at h
  split_ifs at h with known
  exact Bool.eq_false_iff.mpr known

theorem Known.put (h : Known sha3 stored sent) : Known sha3 (stored.put sha3 fault block).2 sent :=
  fun b hb => contains_put (h b hb)

theorem Known.concat (h : Known sha3 stored sent) (ok : (stored.put sha3 fault block).1=true) :
    Known sha3 (stored.put sha3 fault block).2 (sent++[block]) := by
  intro b hb
  obtain old|new := List.mem_append.mp hb
  · exact contains_put (h b old)
  · rw [List.mem_singleton.mp new]
    exact contains_of_put ok

end Put

section Writes
variable {faults : Nat → Option PutFault} {n : Nat} {stored : Blocks} {sent waiting : List SignedBlock}

theorem delivered_eq_nil {writes : List (SignedBlock × Bool)} (h : ∀ write ∈ writes,write.2=false) :
    delivered writes=[] := by
  rw [delivered,List.map_eq_nil_iff,List.filter_eq_nil_iff]
  intro write hw
  simp [h write hw]

/-- A block that could not be stored has no descendant that comes right after the last block. -/
theorem none_written {block last : SignedBlock} (hk : Known sha3 stored sent)
    (hl : sent.getLast?=some last) (hn : ∀ b ∈ sent,b.hashed sha3≠block.hashed sha3)
    (h : Chained sha3 (sent++delivered
      (putAll sha3 faults n stored (descendants sha3 (block.hashed sha3) waiting)))) :
    ∀ write ∈ putAll sha3 faults n stored (descendants sha3 (block.hashed sha3) waiting),
      write.2=false := by
  induction waiting generalizing block n stored with
  | nil => simp [descendants,putAll]
  | cons first rest ih =>
    unfold descendants at h ⊢
    by_cases child : first.parentHash=block.hashed sha3
    · rw [if_pos child] at h ⊢
      rw [delivered_putAll_cons] at h
      rw [putAll]
      cases ok : (stored.put sha3 (faults n) first).1 with
      | true =>
        rw [ok,if_pos rfl,← List.append_assoc] at h
        have here := (chained_concat.mp h.left).2
        rw [hl] at here
        have member : last∈sent := List.mem_of_getLast? hl
        exact absurd (here.2.symm.trans child) (hn last member)
      | false =>
        rw [ok,if_neg Bool.false_ne_true,List.nil_append] at h
        have fresh := not_contains_of_put ok
        intro write hw
        obtain rfl|later := List.mem_cons.mp hw
        · rfl
        · refine ih hk.put ?_ h write later
          intro b hb same
          rw [← same,hk b hb] at fresh
          cases fresh
    · rw [if_neg child]
      simp [putAll]

theorem orderly_child {first : SignedBlock} (h : first.parentHash=block.hashed sha3) :
    Orderly sha3 (some block) (putAll sha3 faults n stored (first::blocks)) ↔
      Rising block.height (putAll sha3 faults n stored (first::blocks)) := by
  rw [putAll]
  cases (stored.put sha3 (faults n) first).1 with
  | true => simp [Orderly,Rising,Succeeds,h]
  | false => rfl

/-- The writes of one arrival keep the order exactly if they are orderly. -/
theorem chained_writes (hk : Known sha3 stored sent) :
    Chained sha3 (sent++delivered (putAll sha3 faults n stored
      (block::descendants sha3 (block.hashed sha3) waiting))) ↔
    Chained sha3 sent ∧ Orderly sha3 sent.getLast? (putAll sha3 faults n stored
      (block::descendants sha3 (block.hashed sha3) waiting)) := by
  induction waiting generalizing block n stored sent with
  | nil =>
    rw [delivered_putAll_cons,putAll]
    cases ok : (stored.put sha3 (faults n) block).1 with
    | true => simp [descendants,putAll,delivered,chained_concat,Orderly,Rising]
    | false =>
      cases hl : sent.getLast? with
      | none => simp [descendants,putAll,delivered,Orderly]
      | some last => simp [descendants,putAll,delivered,Orderly]
  | cons first rest ih =>
    rw [delivered_putAll_cons,putAll]
    cases ok : (stored.put sha3 (faults n) block).1 with
    | true =>
      have known := hk.concat ok
      rw [if_pos rfl,← List.append_assoc,Orderly,← and_assoc,← chained_concat]
      unfold descendants
      split_ifs with child
      · rw [ih known,List.getLast?_concat,orderly_child child]
      · simp [putAll,delivered,Rising]
    | false =>
      rw [if_neg Bool.false_ne_true,List.nil_append]
      cases hl : sent.getLast? with
      | none =>
        rw [List.getLast?_eq_none_iff] at hl
        subst hl
        unfold descendants
        split_ifs with child
        · rw [ih hk.put,List.getLast?_nil,Orderly]
        · simp [putAll,delivered,Orderly]
      | some last =>
        have fresh := not_contains_of_put ok
        have other : ∀ b ∈ sent,b.hashed sha3≠block.hashed sha3 := by
          intro b hb same
          rw [← same,hk b hb] at fresh
          cases fresh
        rw [Orderly]
        constructor
        · intro h
          exact ⟨h.left,none_written hk.put hl other h⟩
        · intro ⟨h,failed⟩
          rwa [delivered_eq_nil failed,List.append_nil]

end Writes

theorem known_addProcessedBlock {fault : Option PutFault} (h : Known sha3 self.blocks self.bus) :
    Known sha3 (self.addProcessedBlock sha3 fault block).2.blocks
      (self.addProcessedBlock sha3 fault block).2.bus := by
  rw [addProcessedBlock_eq]
  split_ifs with ok
  · exact h.concat ok
  · rw [List.append_nil]
    exact h.put

theorem known_popLoop {faults : Nat → Option PutFault} {hash : ConsensusProposalHash} {n : Nat}
    {res : Option BlockHeight} (h : Known sha3 self.blocks self.bus) :
    Known sha3 (self.popLoop sha3 faults blocks hash n res).2.blocks
      (self.popLoop sha3 faults blocks hash n res).2.bus := by
  induction blocks generalizing hash n res self with
  | nil => exact h
  | cons first rest ih =>
    unfold popLoop
    split_ifs
    · exact h
    · exact ih (known_addProcessedBlock h)

theorem known_step (h : Known sha3 self.blocks self.bus) :
    Known sha3 (self.step sha3 arrival).blocks (self.step sha3 arrival).bus := by
  unfold step handleSignedBlock
  dsimp only
  split_ifs
  · exact h
  · exact h
  · exact h
  · exact known_popLoop (known_addProcessedBlock h)

theorem chained_step (h : Known sha3 self.blocks self.bus) :
    Chained sha3 (self.step sha3 arrival).bus ↔
      Chained sha3 self.bus ∧ self.KeepsOrder sha3 arrival := by
  rw [bus_step,KeepsOrder,writes]
  split_ifs
  · exact chained_writes h
  · simp [delivered,Orderly]

theorem run_concat (arrivals : List Arrival) :
    run sha3 (arrivals++[arrival])=(run sha3 arrivals).step sha3 arrival := by
  rw [run,List.foldl_append]
  rfl

theorem known_run (arrivals : List Arrival) :
    Known sha3 (run sha3 arrivals).blocks (run sha3 arrivals).bus := by
  induction arrivals using List.reverseRecOn with
  | nil => simp [run,new,Known]
  | append_singleton arrivals arrival ih =>
    rw [run_concat]
    exact known_step ih

theorem chained_run (arrivals : List Arrival) : Chained sha3 (run sha3 arrivals).bus ↔
    ∀ before arrival after,arrivals=before++arrival::after →
      (run sha3 before).KeepsOrder sha3 arrival := by
  induction arrivals using List.reverseRecOn with
  | nil => simp [run,new,chained_nil]
  | append_singleton arrivals arrival ih =>
    rw [run_concat,chained_step (known_run arrivals),ih]
    exact (Trace.forall_split_concat
      (P := fun before arrival => (run sha3 before).KeepsOrder sha3 arrival)).symm

section NodeState
variable (env : Environment)

/-- No block is refused by the state of a node that starts with the first one. -/
def Accepted (blocks : List SignedBlock) : Prop :=
  ∀ before block after,blocks=before++block::after →
    (NodeState.handleSignedBlock env
      (NodeState.handleSignedBlocks env NodeStateStore.default before) block).2.isOk=true

variable {env}

theorem handleSignedBlocks_concat (store : NodeStateStore) (blocks : List SignedBlock)
    (block : SignedBlock) : NodeState.handleSignedBlocks env store (blocks++[block])=
      (NodeState.handleSignedBlock env (NodeState.handleSignedBlocks env store blocks) block).1 := by
  rw [NodeState.handleSignedBlocks,List.foldl_append]
  rfl

/-- The node accepts a chain of blocks and is then at the height of the last one. -/
theorem accepted_of_chained (h : Chained sha3 blocks) : Accepted env blocks ∧
    (NodeState.handleSignedBlocks env NodeStateStore.default blocks).currentHeight=
      (blocks.getLast?.elim 0 SignedBlock.height) := by
  induction blocks using List.reverseRecOn with
  | nil => exact ⟨fun before block after eq => by simp at eq,rfl⟩
  | append_singleton blocks block ih =>
    obtain ⟨earlier,next⟩ := chained_concat.mp h
    obtain ⟨accepted,height⟩ := ih earlier
    have inOrder : NodeState.InOrder
        (NodeState.handleSignedBlocks env NodeStateStore.default blocks) block := by
      unfold NodeState.InOrder
      rw [height]
      cases hl : blocks.getLast? with
      | none =>
        rw [hl] at next
        exact Or.inr ⟨rfl,next⟩
      | some last =>
        rw [hl] at next
        refine Or.inl (UInt64.toNat_inj.mp ?_)
        have bound := block.height.toNat_lt
        rw [next.1] at bound
        rw [next.1,Option.elim_some,UInt64.toNat_add]
        exact Nat.mod_eq_of_lt bound
    constructor
    · exact Trace.forall_split_concat.mpr
        ⟨accepted,(NodeState.isOk_handleSignedBlock_iff env).mpr inOrder⟩
    · rw [handleSignedBlocks_concat,NodeState.currentHeight_handleSignedBlock env inOrder,
        List.getLast?_concat]
      rfl

end NodeState

/-- The delivered blocks are a chain, which the state of the node accepts, exactly if no arrival
breaks the order. -/
theorem delivers_chain_iff (env : Environment) (arrivals : List Arrival) :
    (Chained env.sha3 (run env.sha3 arrivals).bus ∧ Accepted env (run env.sha3 arrivals).bus) ↔
      ∀ before arrival after,arrivals=before++arrival::after →
        (run env.sha3 before).KeepsOrder env.sha3 arrival := by
  rw [← chained_run]
  exact ⟨And.left,fun h => ⟨h,(accepted_of_chained h).1⟩⟩

deriving instance DecidableEq for SignedBlock

def env : Environment := { NodeState.TwoContracts.env with sha3 := knownSha3 }

/-- The fork of the first block is let through, as the storage knows its parent. -/
theorem not_chained_forked :
    let bus := (run env.sha3 (healthy [blockOf genesis,blockOf first,blockOf forked])).bus
    bus=[blockOf genesis,blockOf first,blockOf forked] ∧
      ¬Chained env.sha3 bus ∧ ¬Accepted env bus := by
  have sent : (run env.sha3 (healthy [blockOf genesis,blockOf first,blockOf forked])).bus=
      [blockOf genesis,blockOf first,blockOf forked] := by
    decide +kernel
  dsimp only
  rw [sent]
  refine ⟨rfl,?_,?_⟩
  · intro chained
    have rises := (chained [blockOf genesis,blockOf first] (blockOf forked) [] rfl).1
    exact absurd rises (by decide)
  · intro accepted
    have ok := accepted [blockOf genesis,blockOf first] (blockOf forked) [] rfl
    exact absurd ok (by decide +kernel)

end TruthSeeker.DataAvailability
