import TruthSeeker.Framework.Reorder
import TruthSeeker.Model.Block

namespace TruthSeeker

/-- The stored blocks under their hashes, and the hashes under the heights. -/
structure Blocks where
  byHash : Std.ExtTreeMap ConsensusProposalHash SignedBlock
  byHeight : Std.ExtTreeMap BlockHeight ConsensusProposalHash

/-- The insertion of `put` that fails. -/
inductive PutFault where
  | byHash
  | byHeight
  deriving DecidableEq

namespace Blocks

def empty : Blocks := ⟨∅,∅⟩

section
variable (self : Blocks)

def isEmpty : Bool := self.byHash.isEmpty

def contains (block : ConsensusProposalHash) : Bool := self.byHash.contains block

def get (blockHash : ConsensusProposalHash) : Option SignedBlock := self.byHash[blockHash]?

/-- Whether the block is stored in the end. It is kept by hash even if the second insertion
fails. -/
def put (sha3 : Bytes → H256) (fault : Option PutFault) (block : SignedBlock) : Bool × Blocks :=
  let blockHash := block.hashed sha3
  if self.contains blockHash then (true,self)
  else
    match fault with
    | some .byHash => (false,self)
    | some .byHeight => (false,{ self with byHash := self.byHash.insert blockHash block })
    | none => (true,
        { byHash := self.byHash.insert blockHash block
          byHeight := self.byHeight.insert block.height blockHash })

end

end Blocks

/-- What decides the delivery of blocks. The bus holds the blocks that were sent as
`OrderedSignedBlock`, which are those that streaming peers get, too. -/
structure DataAvailability where
  blocks : Blocks
  /-- Ordered by height alone. -/
  bufferedSignedBlocks : List SignedBlock
  bus : List SignedBlock

namespace DataAvailability

/-- A block that is given to the module, with the faults of the writes that it leads to. -/
structure Arrival where
  block : SignedBlock
  faults : Nat → Option PutFault

def new : DataAvailability := ⟨Blocks.empty,[],[]⟩

def keyOf (block : SignedBlock) : Nat := block.height.toNat

section Code
variable (sha3 : Bytes → H256) (self : DataAvailability)

def bufferBlock (block : SignedBlock) : DataAvailability :=
  { self with
    bufferedSignedBlocks := Reorder.insertKeep keyOf block self.bufferedSignedBlocks }

def addProcessedBlock (fault : Option PutFault) (block : SignedBlock) :
    Bool × DataAvailability :=
  match self.blocks.put sha3 fault block with
  | (false,blocks) => (false,{ self with blocks := blocks })
  | (true,blocks) => (true,{ self with
      blocks := blocks
      bus := self.bus++[block] })

/-- The loop of `pop_buffer` over the buffer from its front, with the number of writes so far.
The hash goes on to that of the popped block also where it could not be stored. -/
def popLoop (faults : Nat → Option PutFault) :
    List SignedBlock → ConsensusProposalHash → Nat → Option BlockHeight → DataAvailability →
      Option BlockHeight × DataAvailability
  | [],_,_,res,self => (res,{ self with bufferedSignedBlocks := [] })
  | firstBuffered::rest,lastBlockHash,n,res,self =>
      if firstBuffered.parentHash≠lastBlockHash then
        (res,{ self with bufferedSignedBlocks := firstBuffered::rest })
      else
        let height := firstBuffered.height
        let (added,self) := self.addProcessedBlock sha3 (faults n) firstBuffered
        let res := if added then some (res.elim height fun r => max r height) else res
        popLoop faults rest (firstBuffered.hashed sha3) (n+1) res self

def popBuffer (faults : Nat → Option PutFault) (lastBlockHash : ConsensusProposalHash) :
    Option BlockHeight × DataAvailability :=
  popLoop sha3 faults self.bufferedSignedBlocks lastBlockHash 1 none self

/-- The highest height of the processed blocks, if the block was handled. -/
def handleSignedBlock (arrival : Arrival) : Option BlockHeight × DataAvailability :=
  let block := arrival.block
  let hash := block.hashed sha3
  if self.blocks.contains hash then (none,self)
  else if ¬self.blocks.isEmpty ∧ ¬self.blocks.contains block.parentHash then
    (none,self.bufferBlock block)
  else if self.blocks.isEmpty ∧ block.height≠0 then (none,self.bufferBlock block)
  else
    let added := (self.addProcessedBlock sha3 (arrival.faults 0) block).2
    let (highestProcessedHeight,popped) := added.popBuffer sha3 arrival.faults hash
    (some (highestProcessedHeight.getD block.height),popped)

def step (arrival : Arrival) : DataAvailability := (self.handleSignedBlock sha3 arrival).2

def run (arrivals : List Arrival) : DataAvailability := arrivals.foldl (step sha3) new

end Code

end DataAvailability

end TruthSeeker

namespace TruthSeeker.DataAvailability

open Bytes

section Definitions
variable (sha3 : Bytes → H256)

/-- The proposals of consecutive blocks from height 0 on, each with its predecessor as parent. -/
structure ProposalChain (chain : List ConsensusProposal) : Prop where
  slot : ∀ i (p : ConsensusProposal),chain[i]?=some p → p.slot.toNat=i
  parent : ∀ i (p q : ConsensusProposal),chain[i]?=some p → chain[i+1]?=some q →
    q.parentHash=p.hashed sha3

/-- Blocks given one after the other while the storage works. -/
def healthy (blocks : List SignedBlock) : List Arrival :=
  blocks.map fun block => ⟨block,fun _ => none⟩

/-- What was delivered and what waits, told by the heights. -/
def progress (self : DataAvailability) : Reorder.Buffer :=
  ⟨self.bus.length,self.bufferedSignedBlocks.map keyOf⟩

/-- The delivered blocks are the first ones of the chain, and they alone are stored. -/
structure Follows (chain : List ConsensusProposal) (da : DataAvailability) : Prop where
  sent : da.bus.map SignedBlock.consensusProposal=chain.take da.bus.length
  stored : ∀ hash block,da.blocks.get hash=some block ↔ block∈da.bus ∧ block.hashed sha3=hash
  buffered : ∀ block ∈ da.bufferedSignedBlocks,block.consensusProposal∈chain

end Definitions

variable {sha3 : Bytes → H256} {chain : List ConsensusProposal} {self : DataAvailability}
  {p q : ConsensusProposal} {block : SignedBlock}

theorem isEmpty_iff (hf : Follows sha3 chain self) : self.blocks.isEmpty=true ↔ self.bus=[] := by
  rw [Blocks.isEmpty,Std.ExtTreeMap.isEmpty_iff]
  constructor
  · intro none
    rw [List.eq_nil_iff_forall_not_mem]
    intro block sent
    have found := (hf.stored _ block).mpr ⟨sent,rfl⟩
    simp [Blocks.get,none] at found
  · intro none
    ext hash block
    have stored := hf.stored hash block
    simpa [Blocks.get,none] using stored

section Chain
variable (hc : ProposalChain sha3 chain)

include hc

theorem getElem?_slot (hp : p∈chain) : chain[p.slot.toNat]?=some p := by
  obtain ⟨i,found⟩ := List.mem_iff_getElem?.mp hp
  rwa [hc.slot i p found]

theorem slot_lt (hp : p∈chain) : p.slot.toNat<chain.length :=
  (List.getElem?_eq_some_iff.mp (getElem?_slot hc hp)).1

theorem exists_parent (hq : q∈chain) (h : 0<q.slot.toNat) :
    ∃ p ∈ chain,p.slot.toNat+1=q.slot.toNat ∧ q.parentHash=p.hashed sha3 := by
  obtain ⟨j,hj⟩ : ∃ j,q.slot.toNat=j+1 := ⟨q.slot.toNat-1,by omega⟩
  have here := getElem?_slot hc hq
  have before : j<chain.length := by
    have := slot_lt hc hq
    omega
  have found : chain[j]?=some chain[j] := List.getElem?_eq_getElem before
  rw [hj] at here
  refine ⟨chain[j],List.getElem_mem before,?_,hc.parent j _ _ found here⟩
  rw [hc.slot j _ found,hj]

theorem mem_bus_iff (hf : Follows sha3 chain self) (hp : p∈chain) :
    p∈self.bus.map SignedBlock.consensusProposal ↔ p.slot.toNat<self.bus.length := by
  have here := getElem?_slot hc hp
  rw [hf.sent,List.mem_iff_getElem?]
  constructor
  · rintro ⟨i,found⟩
    rw [List.getElem?_take] at found
    split_ifs at found with less
    rwa [hc.slot i p found]
  · intro less
    exact ⟨p.slot.toNat,by rw [List.getElem?_take,if_pos less,here]⟩

variable (hi : Set.InjOn sha3 {bs | bs∈chain.map ConsensusProposal.preimage})

include hi

/-- The hash tells the height, and by it the proposal. -/
theorem eq_of_hashed (hp : p∈chain) (hq : q∈chain) (h : p.hashed sha3=q.hashed sha3) : p=q := by
  have digests : sha3 p.preimage=sha3 q.preimage := ByteVec.ext (hex_injective h)
  have preimages : p.preimage=q.preimage :=
    hi (List.mem_map_of_mem hp) (List.mem_map_of_mem hq) digests
  simp only [ConsensusProposal.preimage,List.append_assoc] at preimages
  have slots : p.slot=q.slot := u64Bytes_injective (List.append_inj preimages (by simp)).1
  have found := getElem?_slot hc hp
  rw [slots,getElem?_slot hc hq] at found
  exact (Option.some.inj found).symm

theorem contains_iff (hf : Follows sha3 chain self) (hp : p∈chain) :
    self.blocks.contains (p.hashed sha3)=true ↔ p.slot.toNat<self.bus.length := by
  rw [← mem_bus_iff hc hf hp,List.mem_map]
  have known : self.blocks.contains (p.hashed sha3)=true ↔
      ∃ block,self.blocks.get (p.hashed sha3)=some block := by
    rw [Blocks.contains,Blocks.get,Std.ExtTreeMap.contains_eq_isSome_getElem?,
      Option.isSome_iff_exists]
  rw [known]
  constructor
  · rintro ⟨block,found⟩
    obtain ⟨sent,hash⟩ := (hf.stored _ _).mp found
    have listed : block.consensusProposal∈chain := by
      have taken := List.mem_map_of_mem (f := SignedBlock.consensusProposal) sent
      rw [hf.sent] at taken
      exact List.mem_of_mem_take taken
    exact ⟨block,sent,eq_of_hashed hc hi listed hp hash⟩
  · rintro ⟨block,sent,rfl⟩
    exact ⟨block,(hf.stored _ _).mpr ⟨sent,rfl⟩⟩

/-- After genesis, a proposal has the parent of the given hash exactly if it is the next one. -/
theorem parentHash_iff (hp : p∈chain) (hq : q∈chain) (h : 0<q.slot.toNat) :
    q.parentHash=p.hashed sha3 ↔ q.slot.toNat=p.slot.toNat+1 := by
  obtain ⟨parent,listed,slot,hash⟩ := exists_parent hc hq h
  rw [hash]
  constructor
  · intro same
    rw [← slot,eq_of_hashed hc hi listed hp same]
  · intro next
    have here := getElem?_slot hc listed
    rw [show parent.slot.toNat=p.slot.toNat by omega,getElem?_slot hc hp] at here
    rw [Option.some.inj here]

/-- The next block of the chain is stored and delivered. -/
theorem follows_addProcessedBlock (hf : Follows sha3 chain self)
    (hp : block.consensusProposal∈chain) (hn : keyOf block=self.bus.length) :
    (self.addProcessedBlock sha3 none block).1=true ∧
      (self.addProcessedBlock sha3 none block).2.bus=self.bus++[block] ∧
      Follows sha3 chain (self.addProcessedBlock sha3 none block).2 := by
  have fresh : self.blocks.contains (block.hashed sha3)=false := by
    rw [Bool.eq_false_iff]
    intro known
    have := (contains_iff hc hi hf hp).mp known
    exact absurd this (not_lt.mpr (ge_of_eq hn))
  have here : chain[self.bus.length]?=some block.consensusProposal := by
    rw [← hn]
    exact getElem?_slot hc hp
  simp only [addProcessedBlock,Blocks.put,fresh,Bool.false_eq_true,if_false]
  refine ⟨trivial,trivial,?_,?_,hf.buffered⟩
  · rw [List.map_append,hf.sent,List.length_append,List.length_singleton,List.take_add_one,here]
    rfl
  · intro hash other
    rw [List.mem_append,List.mem_singleton]
    show (self.blocks.byHash.insert _ _)[hash]?=_ ↔ _
    rw [Std.ExtTreeMap.getElem?_insert]
    split_ifs with same
    · rw [Std.LawfulEqOrd.compare_eq_iff_eq] at same
      subst same
      have absent : self.blocks.get (block.hashed sha3)=none :=
        Std.ExtTreeMap.getElem?_eq_none_of_contains_eq_false fresh
      constructor
      · intro eq
        obtain rfl := Option.some.inj eq
        exact ⟨Or.inr rfl,rfl⟩
      · rintro ⟨sent|rfl,hash⟩
        · rw [(hf.stored _ _).mpr ⟨sent,hash⟩] at absent
          cases absent
        · rfl
    · rw [Std.LawfulEqOrd.compare_eq_iff_eq] at same
      have stored := hf.stored hash other
      rw [Blocks.get] at stored
      rw [stored]
      constructor
      · exact fun ⟨sent,eq⟩ => ⟨Or.inl sent,eq⟩
      · rintro ⟨sent|rfl,eq⟩
        · exact ⟨sent,eq⟩
        · exact absurd eq same

/-- Draining the buffer delivers what waits for nothing else. -/
theorem follows_popLoop {last : ConsensusProposal} (hl : last∈chain) {waiting : List SignedBlock}
    {n : Nat} {r : Option BlockHeight} {other : DataAvailability}
    (hf : Follows sha3 chain other) (hn : last.slot.toNat+1=other.bus.length)
    (hw : ∀ b ∈ waiting,b.consensusProposal∈chain ∧ other.bus.length≤keyOf b)
    (ha : Reorder.Ascending keyOf waiting) :
    let popped := (other.popLoop sha3 (fun _ => none) waiting (last.hashed sha3) n r).2
    Follows sha3 chain popped ∧
      popped.progress=Reorder.drain other.bus.length (waiting.map keyOf) := by
  induction waiting generalizing last n r other with
  | nil => exact ⟨⟨hf.sent,hf.stored,by simp [popLoop]⟩,rfl⟩
  | cons first rest ih =>
    obtain ⟨known,above⟩ := hw first List.mem_cons_self
    obtain ⟨head,tail⟩ := List.pairwise_cons.mp ha
    have later : 0<first.consensusProposal.slot.toNat := by
      have : other.bus.length≤first.consensusProposal.slot.toNat := above
      omega
    have child : first.parentHash=last.hashed sha3 ↔ keyOf first=other.bus.length := by
      rw [← hn]
      exact parentHash_iff hc hi hl known later
    unfold popLoop
    rw [List.map_cons,Reorder.drain]
    by_cases here : keyOf first=other.bus.length
    · rw [if_neg (not_not_intro (child.mpr here)),if_pos here]
      have spec := follows_addProcessedBlock hc hi hf known here
      generalize other.addProcessedBlock sha3 none first=result at spec ⊢
      obtain ⟨added,next⟩ := result
      obtain ⟨_,bus,follows⟩ := spec
      have count : next.bus.length=other.bus.length+1 := by
        rw [bus,List.length_append,List.length_singleton]
      rw [← count]
      refine ih known follows ?_ ?_ tail
      · rw [count]
        exact congrArg (·+1) here
      · intro b hb
        have less := head b hb
        exact ⟨(hw b (List.mem_cons_of_mem _ hb)).1,by omega⟩
    · rw [if_pos (mt child.mp here),if_neg here]
      exact ⟨⟨hf.sent,hf.stored,fun b hb => (hw b hb).1⟩,rfl⟩

/-- The module takes in a copy of a block of the chain as the reordering of positions does. -/
theorem follows_step (hf : Follows sha3 chain self) {arrived : Set Nat}
    (hb : self.progress.Holds arrived) (hp : block.consensusProposal∈chain) :
    Follows sha3 chain (self.step sha3 ⟨block,fun _ => none⟩) ∧
      (self.step sha3 ⟨block,fun _ => none⟩).progress=self.progress.arrive (keyOf block) := by
  have known : self.blocks.contains (block.hashed sha3)=true ↔ keyOf block<self.bus.length :=
    contains_iff hc hi hf hp
  have started : self.blocks.isEmpty=true ↔ self.bus.length=0 := by
    rw [isEmpty_iff hf,List.length_eq_zero_iff]
  have genesis : block.height=0 ↔ keyOf block=0 := by
    rw [keyOf,← UInt64.toNat_inj]
    rfl
  have child : 0<keyOf block →
      (self.blocks.contains block.parentHash=true ↔ keyOf block≤ self.bus.length) := by
    intro later
    obtain ⟨parent,listed,slot,hash⟩ := exists_parent hc hp later
    rw [SignedBlock.parentHash,hash,contains_iff hc hi hf listed]
    show _ ↔ block.consensusProposal.slot.toNat≤_
    omega
  unfold step handleSignedBlock
  simp only [known,started,genesis,ne_eq]
  obtain past|here|early := lt_trichotomy (keyOf block) self.bus.length
  · rw [if_pos past,Reorder.Buffer.arrive_past past]
    exact ⟨hf,rfl⟩
  · have ready : ¬(¬self.bus.length=0 ∧ ¬self.blocks.contains block.parentHash=true) := by
      rintro ⟨nonempty,orphan⟩
      exact orphan ((child (by omega)).mpr here.le)
    rw [if_neg (by omega),if_neg ready,if_neg (by omega),Reorder.Buffer.arrive_next here]
    have spec := follows_addProcessedBlock hc hi hf hp here
    have kept : (self.addProcessedBlock sha3 none block).2.bufferedSignedBlocks=
        self.bufferedSignedBlocks := by
      unfold addProcessedBlock
      split <;> rfl
    generalize self.addProcessedBlock sha3 none block=result at spec kept ⊢
    obtain ⟨added,next⟩ := result
    obtain ⟨_,bus,follows⟩ := spec
    have count : next.bus.length=self.bus.length+1 := by
      rw [bus,List.length_append,List.length_singleton]
    have waits : ∀ b ∈ self.bufferedSignedBlocks,b.consensusProposal∈chain ∧
        next.bus.length≤keyOf b := by
      intro b hb'
      have later := ((hb.waits (keyOf b)).mp (List.mem_map_of_mem hb')).2
      exact ⟨hf.buffered b hb',by rw [count]; exact later⟩
    have drained := follows_popLoop hc hi (n := 1) (r := none) hp follows
      (by rw [count]; exact congrArg (·+1) here) waits (Reorder.ascending_iff_map.mpr hb.ascending)
    rw [count,← here] at drained
    dsimp only at kept
    rw [popBuffer,kept]
    exact drained
  · have waits : Follows sha3 chain (self.bufferBlock block) ∧
        (self.bufferBlock block).progress=self.progress.arrive (keyOf block) := by
      refine ⟨⟨hf.sent,hf.stored,?_⟩,?_⟩
      · intro b hb
        obtain rfl|old := Reorder.mem_insertKeep hb
        · exact hp
        · exact hf.buffered b old
      · rw [Reorder.Buffer.arrive_early early]
        exact congrArg (Reorder.Buffer.mk _) (Reorder.map_insertKeep block _)
    rw [if_neg (not_lt.mpr early.le)]
    split_ifs with orphan missing
    · exact waits
    · exact waits
    · exfalso
      have later : 0<keyOf block := by omega
      have orphaned : ¬self.blocks.contains block.parentHash=true :=
        fun h => absurd ((child later).mp h) (not_le.mpr early)
      by_cases nonempty : self.bus.length=0
      · exact missing ⟨nonempty,later.ne'⟩
      · exact orphan ⟨nonempty,orphaned⟩

theorem follows_run {arrived : Set Nat} (hf : Follows sha3 chain self)
    (hb : self.progress.Holds arrived) {blocks : List SignedBlock}
    (hk : ∀ b ∈ blocks,b.consensusProposal∈chain) :
    Follows sha3 chain ((healthy blocks).foldl (step sha3) self) ∧
      ((healthy blocks).foldl (step sha3) self).progress.Holds
        (arrived ∪ {n | n∈blocks.map keyOf}) := by
  induction blocks generalizing self arrived with
  | nil => simpa [healthy] using ⟨hf,hb⟩
  | cons b bs ih =>
    obtain ⟨follows,moves⟩ := follows_step hc hi hf hb (hk b List.mem_cons_self)
    have holds := hb.arrive (keyOf b)
    rw [← moves] at holds
    have rest := ih follows holds fun c hc => hk c (List.mem_cons_of_mem _ hc)
    have same : insert (keyOf b) arrived ∪ {n | n∈bs.map keyOf}=
        arrived ∪ {n | n∈(b::bs).map keyOf} := by
      ext n
      simp only [Set.mem_union,Set.mem_insert_iff,Set.mem_ofPred_eq,List.map_cons,List.mem_cons]
      tauto
    rwa [same] at rest

end Chain

section Given
variable {given : SignedBlock → Prop}

/-- Everything that the module holds was given to it. -/
def Holds (given : SignedBlock → Prop) (self : DataAvailability) : Prop :=
  (∀ b ∈ self.bus,given b) ∧ ∀ b ∈ self.bufferedSignedBlocks,given b

theorem holds_addProcessedBlock (sha3 : Bytes → H256) (fault : Option PutFault)
    (h : self.Holds given) (hb : given block) : (self.addProcessedBlock sha3 fault block).2.Holds given := by
  unfold addProcessedBlock
  split
  · exact h
  · refine ⟨fun b hb' => ?_,h.2⟩
    obtain old|new := List.mem_append.mp hb'
    · exact h.1 b old
    · rwa [List.mem_singleton.mp new]

theorem holds_popLoop {faults : Nat → Option PutFault} {waiting : List SignedBlock}
    {hash : ConsensusProposalHash} {n : Nat} {res : Option BlockHeight} (h : self.Holds given)
    (hw : ∀ b ∈ waiting,given b) : (self.popLoop sha3 faults waiting hash n res).2.Holds given := by
  induction waiting generalizing hash n res self with
  | nil => exact ⟨h.1,fun _ hb => absurd hb List.not_mem_nil⟩
  | cons first rest ih =>
    unfold popLoop
    split_ifs
    · exact ⟨h.1,hw⟩
    · have added := holds_addProcessedBlock sha3 (faults n) h
        (hw first List.mem_cons_self)
      exact ih added fun b hb => hw b (List.mem_cons_of_mem _ hb)

theorem holds_step {arrival : Arrival} (h : self.Holds given) (hb : given arrival.block) :
    (self.step sha3 arrival).Holds given := by
  have waits : (self.bufferBlock arrival.block).Holds given := by
    refine ⟨h.1,fun b hb' => ?_⟩
    obtain rfl|old := Reorder.mem_insertKeep hb'
    · exact hb
    · exact h.2 b old
  unfold step handleSignedBlock
  dsimp only
  split_ifs
  · exact h
  · exact waits
  · exact waits
  · have added := holds_addProcessedBlock sha3 (arrival.faults 0) h hb
    exact holds_popLoop added added.2

theorem holds_run {arrivals : List Arrival} (h : self.Holds given)
    (hg : ∀ a ∈ arrivals,given a.block) : (arrivals.foldl (step sha3) self).Holds given := by
  induction arrivals generalizing self with
  | nil => exact h
  | cons a arrivals ih =>
    exact ih (holds_step h (hg a List.mem_cons_self)) fun b hb => hg b (List.mem_cons_of_mem _ hb)

end Given

/-- Once every block of a chain has been given, in whatever order and however often, each of them
is stored and was delivered once, in the order of their heights, and none waits. -/
theorem delivers_all (sha3 : Bytes → H256) (chain : List ConsensusProposal)
    (hc : ProposalChain sha3 chain)
    (hi : Set.InjOn sha3 {bs | bs∈chain.map ConsensusProposal.preimage})
    (blocks : List SignedBlock) (hk : ∀ b ∈ blocks,b.consensusProposal∈chain)
    (ha : ∀ p ∈ chain,∃ b ∈ blocks,b.consensusProposal=p) :
    let da := run sha3 (healthy blocks)
    da.bus.map SignedBlock.consensusProposal=chain ∧
      (∀ b ∈ da.bus,b∈blocks ∧ da.blocks.get (b.hashed sha3)=some b) ∧
      da.bufferedSignedBlocks=[] := by
  intro da
  have start : Follows sha3 chain new := by
    refine ⟨rfl,?_,by simp [new]⟩
    intro hash block
    simp [new,Blocks.get,Blocks.empty]
  obtain ⟨follows,holds⟩ := follows_run hc hi start Reorder.holds_empty hk
  have arrived : ∅ ∪ {n | n∈blocks.map keyOf}={n | n<chain.length} := by
    ext n
    simp only [Set.empty_union,Set.mem_ofPred_eq,List.mem_map]
    constructor
    · rintro ⟨b,hb,rfl⟩
      exact slot_lt hc (hk b hb)
    · intro less
      obtain ⟨b,hb,same⟩ := ha chain[n] (List.getElem_mem less)
      refine ⟨b,hb,?_⟩
      show b.consensusProposal.slot.toNat=n
      rw [same,hc.slot n _ (List.getElem?_eq_getElem less)]
  rw [arrived] at holds
  have done := holds.complete
  have count : da.bus.length=chain.length := congrArg Reorder.Buffer.next done
  have none : da.bufferedSignedBlocks.map keyOf=[] := congrArg Reorder.Buffer.waiting done
  have given : da.Holds (·∈blocks) := by
    apply holds_run ⟨by simp [new],by simp [new]⟩
    intro a ha
    obtain ⟨b,hb,rfl⟩ := List.mem_map.mp ha
    exact hb
  refine ⟨?_,fun b hb => ⟨given.1 b hb,(follows.stored _ b).mpr ⟨hb,rfl⟩⟩,List.map_eq_nil_iff.mp none⟩
  rw [show da.bus.map SignedBlock.consensusProposal=_ from follows.sent]
  exact List.take_of_length_le count.ge

/-- The proposals of three consecutive blocks, and of another block after the first one. -/
def genesis : ConsensusProposal := ⟨0,"",[],[],0⟩

def first : ConsensusProposal :=
  ⟨1,"dd65132c50b1b0b6d6f2ee368ef4b1446ab4b06e9cd5d9769bf4150196f19e58",[],[],0⟩

def second : ConsensusProposal :=
  ⟨2,"5eeba6ea8118d321f17a4b33b007bb73cf36590a4d733320db4fe3f4a4a51653",[],[],0⟩

def forked : ConsensusProposal := { first with timestamp := 1 }

def digests : List (Bytes × H256) :=
  [(genesis.preimage,
    ByteVec.ofNat 32 0xdd65132c50b1b0b6d6f2ee368ef4b1446ab4b06e9cd5d9769bf4150196f19e58),
   (first.preimage,
    ByteVec.ofNat 32 0x5eeba6ea8118d321f17a4b33b007bb73cf36590a4d733320db4fe3f4a4a51653),
   (second.preimage,
    ByteVec.ofNat 32 0x787c2a5cbc8b80cb565cf90b15c12441ef74291b3f4e368583fbe9b7794403fc),
   (forked.preimage,
    ByteVec.ofNat 32 0xae28ef3860e6850c574880a5eba5cc0b41eccde32c26d274ce103d7d7214d10b)]

/-- SHA3-256 at the byte strings of these proposals. -/
def knownSha3 : Bytes → H256 := ByteVec.lookup digests

def blockOf (proposal : ConsensusProposal) : SignedBlock := ⟨[],proposal,default⟩

theorem nodup_digests : (digests.map Prod.snd).Nodup := by decide +kernel

theorem injOn_knownSha3 {proposals : List ConsensusProposal}
    (h : proposals ⊆ [genesis,first,second,forked]) :
    Set.InjOn knownSha3 {bs | bs∈proposals.map ConsensusProposal.preimage} := by
  refine (ByteVec.lookup_injOn digests nodup_digests).mono ?_
  intro bs hb
  exact List.map_subset ConsensusProposal.preimage h hb

theorem proposalChain_known : ProposalChain knownSha3 [genesis,first,second] where
  slot i p h := by
    rcases i with _ | _ | _ | i
    · obtain rfl := Option.some.inj h
      rfl
    · obtain rfl := Option.some.inj h
      rfl
    · obtain rfl := Option.some.inj h
      rfl
    · simp at h
  parent i p q h h' := by
    rcases i with _ | _ | i
    · obtain rfl := Option.some.inj h
      obtain rfl := Option.some.inj h'
      decide +kernel
    · obtain rfl := Option.some.inj h
      obtain rfl := Option.some.inj h'
      decide +kernel
    · simp at h'

/-- The blocks come the last one first, and one of them twice with different certificates. -/
def arrivals : List SignedBlock :=
  [blockOf second,blockOf first,⟨[],second,⟨[1],[]⟩⟩,blockOf genesis,blockOf genesis]

theorem delivers_all_arrivals :
    (run knownSha3 (healthy arrivals)).bus.map SignedBlock.consensusProposal=
      [genesis,first,second] ∧
    (∀ b ∈ (run knownSha3 (healthy arrivals)).bus,b∈arrivals ∧
      (run knownSha3 (healthy arrivals)).blocks.get (b.hashed knownSha3)=some b) ∧
    (run knownSha3 (healthy arrivals)).bufferedSignedBlocks=[] := by
  apply delivers_all knownSha3 _ proposalChain_known
  · exact injOn_knownSha3 (by simp)
  · simp [arrivals,blockOf]
  · simp [arrivals,blockOf]

end TruthSeeker.DataAvailability
