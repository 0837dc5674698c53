import Std.Data.ExtTreeSet
import TruthSeeker.Framework.Maps
import TruthSeeker.Framework.Throttle
import TruthSeeker.Mempool.MessageHeaders

namespace TruthSeeker

open Outcome ParentWalk P2p MempoolNetMessage Throttle

/-- What the mempool passes on of a request for entries of its lane. -/
structure SyncRequest where
  fromHash : Option DataProposalHash
  toHash : DataProposalHash
  validator : ValidatorPublicKey
  deriving DecidableEq

abbrev Validators := Std.ExtTreeSet ValidatorPublicKey

structure MempoolSync where
  laneId : LaneId
  /-- When a validator was last sent a reply with a data proposal, or was meant to be. -/
  byPubkeyByDpHash :
    Std.ExtTreeMap ValidatorPublicKey (Std.ExtTreeMap DataProposalHash TimestampMs)
  /-- The validators that are interested in a data proposal. -/
  todo : Std.ExtTreeMap DataProposalHash (LaneEntryMetadata × Validators)

/-- What a reply meets on its way: the readings of the clock, for the check, the record and the
header, the storage, and whether anybody listens to the channel of the network. -/
structure Meeting where
  checked : TimestampMs
  stamped : TimestampMs
  signed : TimestampMs
  lanes : LanesStorage
  heard : Bool

/-- A reply that was not throttled, with its message if it was sent. -/
structure SyncAttempt where
  validator : ValidatorPublicKey
  dpHash : DataProposalHash
  metadata : LaneEntryMetadata
  meeting : Meeting
  reply : Option (MsgWithHeader MempoolNetMessage)

/-- Whether the attempt is about the pair. -/
def SyncAttempt.isFor (v : ValidatorPublicKey) (h : DataProposalHash) (a : SyncAttempt) : Bool :=
  a.validator=v && a.dpHash=h

def SyncAttempt.outcome (a : SyncAttempt) : Attempt TimestampMs :=
  ⟨a.meeting.checked,a.meeting.stamped,a.reply.isSome⟩

/-- The difference of two timestamps wraps around, and keeps its low 64 bits. -/
def TimestampMs.since (now record : TimestampMs) : UInt64 := UInt64.ofNat (now-record).toNat

namespace MempoolSync

def create (laneId : LaneId) : MempoolSync := ⟨laneId,∅,∅⟩

/-- A reply rests unless it was emitted a long time ago. -/
def rests (record now : TimestampMs) : Bool :=
  if TimestampMs.since now record>10000 then false else true

section Code
variable (self : MempoolSync)

def record (validator : ValidatorPublicKey) (dpHash : DataProposalHash) : Option TimestampMs :=
  self.byPubkeyByDpHash[validator]?.bind fun records => records[dpHash]?

def shouldThrottle (now : TimestampMs) (validator : ValidatorPublicKey)
    (dpHash : DataProposalHash) : Bool :=
  match self.record validator dpHash with
  | none => false
  | some record => rests record now

/-- Metadata that are there already stay. -/
def addTodo (dpHash : DataProposalHash) (metadata : LaneEntryMetadata)
    (validator : ValidatorPublicKey) : MempoolSync :=
  let (metadata,validators) := self.todo.getD dpHash (metadata,∅)
  { self with todo := self.todo.insert dpHash (metadata,validators.insert validator) }

def insertRecord (validator : ValidatorPublicKey) (dpHash : DataProposalHash)
    (now : TimestampMs) : MempoolSync :=
  let records := self.byPubkeyByDpHash.getD validator ∅
  { self with
    byPubkeyByDpHash := self.byPubkeyByDpHash.insert validator (records.insert dpHash now) }

/-- The entries of a request, unless there is no end to them. Without a start it is about the
last entry only. -/
def requested (laneId : LaneId) (lanes : LanesStorage) (request : SyncRequest) :
    Option (List (DataProposalHash × LaneEntryMetadata)) :=
  if request.fromHash=some request.toHash then some []
  else
    match request.fromHash with
    | none =>
        match lanes.getMetadataByHash laneId request.toHash with
        | none => some []
        | some metadata => some [(request.toHash,metadata)]
    | some fromHash =>
        (lanes.getEntriesMetadataBetweenHashes laneId (some fromHash) (some request.toHash)).map
          Walk.entries

def addEntries (validator : ValidatorPublicKey)
    (entries : List (DataProposalHash × LaneEntryMetadata)) : MempoolSync :=
  entries.foldl (fun self entry => self.addTodo entry.1 entry.2 validator) self

def unfoldSyncRequestInterval (lanes : LanesStorage) (request : SyncRequest) :
    Option MempoolSync :=
  (requested self.laneId lanes request).map (self.addEntries request.validator)

variable {PublicKey BlstSignature : Type} (crypto : BlstCrypto PublicKey BlstSignature)
  (sha3 : Bytes → H256)

/-- The signed message with a stored data proposal, if the network takes it. -/
def syncReply (laneId : LaneId) (meeting : Meeting) (dpHash : DataProposalHash)
    (metadata : LaneEntryMetadata) : Option (MsgWithHeader MempoolNetMessage) :=
  let _ : IntoHeaderSignableData MempoolNetMessage := ⟨toHeaderSignableData sha3⟩
  match meeting.lanes.getDpByHash laneId dpHash with
  | none => none
  | some dp =>
      match signMsgWithHeader crypto meeting.signed (.syncReply metadata dp) with
      | .error _ => none
      | .ok signedReply => if meeting.heard then some signedReply else none

/-- The record is made before the reply, which is put back if it cannot be sent. -/
def sendReply (meeting : Meeting) (dpHash : DataProposalHash) (metadata : LaneEntryMetadata)
    (validator : ValidatorPublicKey) : MempoolSync × List SyncAttempt :=
  if self.shouldThrottle meeting.checked validator dpHash then (self,[])
  else
    let self := self.insertRecord validator dpHash meeting.stamped
    let reply := syncReply crypto sha3 self.laneId meeting dpHash metadata
    let next := match reply with
      | some _ => self
      | none => self.addTodo dpHash metadata validator
    (next,[⟨validator,dpHash,metadata,meeting,reply⟩])

/-- The entries of the map of replies, and the validators of each, in the order in which they
are gone through. -/
abbrev Todo := List (DataProposalHash × LaneEntryMetadata × List ValidatorPublicKey)

/-- The turns of the two loops. -/
def turns (todo : Todo) : List (DataProposalHash × LaneEntryMetadata × ValidatorPublicKey) :=
  todo.flatMap fun entry => entry.2.2.map fun validator => (entry.1,entry.2.1,validator)

def sendTurns (meet : DataProposalHash → ValidatorPublicKey → Meeting) :
    MempoolSync → List (DataProposalHash × LaneEntryMetadata × ValidatorPublicKey) →
      MempoolSync × List SyncAttempt
  | self,[] => (self,[])
  | self,(dpHash,metadata,validator)::rest =>
      let (self,sent) := self.sendReply crypto sha3 (meet dpHash validator) dpHash metadata
        validator
      let (self,later) := sendTurns meet self rest
      (self,sent++later)

def sendReplies (todo : Todo) (meet : DataProposalHash → ValidatorPublicKey → Meeting) :
    MempoolSync × List SyncAttempt :=
  if self.todo.isEmpty then (self,[])
  else sendTurns crypto sha3 meet { self with todo := ∅ } (turns todo)

/-- Whether a reply with the data proposal waits to be sent to the validator. -/
def wants (validator : ValidatorPublicKey) (dpHash : DataProposalHash) : Bool :=
  match self.todo[dpHash]? with
  | none => false
  | some entry => entry.2.contains validator

def wish (validator : ValidatorPublicKey) (dpHash : DataProposalHash) : Wish TimestampMs :=
  ⟨self.wants validator dpHash,self.record validator dpHash⟩

end Code

/-- The entries of the map and their sets, each in any order. -/
structure Lists (sync : MempoolSync) (todo : Todo) : Prop where
  distinct : (todo.map Prod.fst).Nodup
  single : ∀ entry ∈ todo,entry.2.2.Nodup
  listed : ∀ dpHash metadata validator,
    (dpHash,metadata,validator)∈turns todo ↔
      ∃ validators,sync.todo[dpHash]?=some (metadata,validators) ∧ validator∈validators

/-- The order of the keys. -/
def inOrder (self : MempoolSync) : Todo :=
  self.todo.toList.map fun entry => (entry.1,entry.2.1,entry.2.2.toList)

theorem lists_inOrder (self : MempoolSync) : self.Lists self.inOrder where
  distinct := by
    rw [inOrder,List.map_map]
    exact Maps.nodup_map_fst_toList self.todo
  single := by
    intro entry he
    obtain ⟨stored,_,rfl⟩ := List.mem_map.mp he
    refine stored.2.2.distinct_toList.imp ?_
    intro v w apart same
    subst same
    exact apart Std.ReflOrd.compare_self
  listed := by
    intro h metadata v
    simp only [turns,inOrder,List.mem_flatMap,List.mem_map]
    constructor
    · rintro ⟨_,⟨entry,he,rfl⟩,w,hw,same⟩
      obtain ⟨rfl,rfl,rfl⟩ : entry.1=h ∧ entry.2.1=metadata ∧ w=v := by simpa using same
      exact ⟨entry.2.2,Std.ExtTreeMap.mem_toList_iff_getElem?_eq_some.mp he,
        Std.ExtTreeSet.mem_toList.mp hw⟩
    · rintro ⟨validators,found,member⟩
      exact ⟨_,⟨(h,metadata,validators),
        Std.ExtTreeMap.mem_toList_iff_getElem?_eq_some.mpr found,rfl⟩,v,
        Std.ExtTreeSet.mem_toList.mpr member,rfl⟩

section Pairs
variable {self : MempoolSync} {v w : ValidatorPublicKey} {h k : DataProposalHash}
  {metadata : LaneEntryMetadata} {now : TimestampMs}

theorem shouldThrottle_eq : self.shouldThrottle now v h=
    (self.record v h).any (fun record => rests record now) := by
  unfold shouldThrottle
  cases self.record v h with
  | none => rfl
  | some record => rfl

theorem getElem?_addTodo : (self.addTodo h metadata v).todo[k]?=
    if k=h then
      some ((self.todo.getD h (metadata,∅)).1,(self.todo.getD h (metadata,∅)).2.insert v)
    else self.todo[k]? := by
  unfold addTodo
  simp only [Std.ExtTreeMap.getElem?_insert,LanesStorage.compare_key]

theorem wants_addTodo : (self.addTodo h metadata v).wants w k=
    (decide (k=h ∧ w=v)||self.wants w k) := by
  unfold wants
  rw [getElem?_addTodo]
  by_cases here : k=h
  · subst here
    have same : (compare v w==.eq)=decide (w=v) := by
      rw [Bool.eq_iff_iff,beq_iff_eq,decide_eq_true_eq,Std.LawfulEqOrd.compare_eq_iff_eq,eq_comm]
    rw [if_pos rfl,Std.ExtTreeMap.getD_eq_getD_getElem?]
    cases self.todo[k]? with
    | none => simp [Std.ExtTreeSet.contains_insert,same]
    | some entry => simp [Std.ExtTreeSet.contains_insert,same]
  · simp [here]

@[simp] theorem record_addTodo : (self.addTodo h metadata v).record w k=self.record w k := rfl

@[simp] theorem wants_insertRecord : (self.insertRecord v h now).wants w k=self.wants w k := rfl

theorem record_insertRecord : (self.insertRecord v h now).record w k=
    if k=h ∧ w=v then some now else self.record w k := by
  unfold insertRecord record
  dsimp only
  have same : compare v w=.eq ↔ w=v := Std.LawfulEqOrd.compare_eq_iff_eq.trans eq_comm
  rw [Std.ExtTreeMap.getElem?_insert]
  simp only [same]
  by_cases here : w=v
  · subst here
    rw [if_pos rfl,Option.bind_some,Std.ExtTreeMap.getElem?_insert]
    simp only [LanesStorage.compare_key,and_true]
    by_cases this : k=h
    · rw [if_pos this,if_pos this]
    · rw [if_neg this,if_neg this,Std.ExtTreeMap.getD_eq_getD_getElem?]
      cases self.byPubkeyByDpHash[w]? with
      | none => simp
      | some records => rfl
  · simp [here]

@[simp] theorem wish_create {laneId : LaneId} : (create laneId).wish v h=Wish.fresh := by
  simp [wish,wants,record,create,Wish.fresh]

theorem wish_addTodo_of_ne (apart : ¬(k=h ∧ w=v)) :
    (self.addTodo h metadata v).wish w k=self.wish w k := by
  simp [wish,wants_addTodo,apart]

theorem wish_drained :
    { self with todo := ∅ : MempoolSync }.wish v h=⟨false,self.record v h⟩ := by
  simp [wish,wants,record]

theorem laneId_addEntries {entries : List (DataProposalHash × LaneEntryMetadata)} :
    (self.addEntries v entries).laneId=self.laneId := by
  unfold addEntries
  induction entries generalizing self with
  | nil => rfl
  | cons entry entries ih => exact ih

theorem wish_addEntries {entries : List (DataProposalHash × LaneEntryMetadata)} :
    (self.addEntries v entries).wish w k=
      ⟨decide (w=v)&&entries.any (fun entry => entry.1=k)||self.wants w k,self.record w k⟩ := by
  unfold addEntries
  induction entries generalizing self with
  | nil => simp [wish]
  | cons entry entries ih =>
    rw [List.foldl_cons,ih,wants_addTodo,record_addTodo,List.any_cons]
    congr 1
    by_cases here : w=v
    · by_cases this : k=entry.1
      · simp [here,this]
      · simp [here,this,Ne.symm this]
    · simp [here]

end Pairs

section Turns
variable {PublicKey BlstSignature : Type} {crypto : BlstCrypto PublicKey BlstSignature}
  {sha3 : Bytes → H256} {self : MempoolSync} {v w : ValidatorPublicKey} {h k : DataProposalHash}
  {metadata : LaneEntryMetadata} {meeting : Meeting}
  {meet : DataProposalHash → ValidatorPublicKey → Meeting}
  {ts : List (DataProposalHash × LaneEntryMetadata × ValidatorPublicKey)}

theorem sendReply_of_throttle (hr : self.shouldThrottle meeting.checked v h=true) :
    self.sendReply crypto sha3 meeting h metadata v=(self,[]) := by
  rw [sendReply,if_pos hr]

theorem sendReply_of_none (hr : ¬self.shouldThrottle meeting.checked v h=true)
    (hs : syncReply crypto sha3 self.laneId meeting h metadata=none) :
    self.sendReply crypto sha3 meeting h metadata v=
      ((self.insertRecord v h meeting.stamped).addTodo h metadata v,
        [⟨v,h,metadata,meeting,none⟩]) := by
  have same : (self.insertRecord v h meeting.stamped).laneId=self.laneId := rfl
  rw [sendReply,if_neg hr]
  simp only [same,hs]

theorem sendReply_of_some (hr : ¬self.shouldThrottle meeting.checked v h=true)
    {reply : MsgWithHeader MempoolNetMessage}
    (hs : syncReply crypto sha3 self.laneId meeting h metadata=some reply) :
    self.sendReply crypto sha3 meeting h metadata v=
      (self.insertRecord v h meeting.stamped,[⟨v,h,metadata,meeting,some reply⟩]) := by
  have same : (self.insertRecord v h meeting.stamped).laneId=self.laneId := rfl
  rw [sendReply,if_neg hr]
  simp only [same,hs]

theorem laneId_sendReply :
    (self.sendReply crypto sha3 meeting h metadata v).1.laneId=self.laneId := by
  by_cases hr : self.shouldThrottle meeting.checked v h=true
  · rw [sendReply_of_throttle hr]
  · cases hs : syncReply crypto sha3 self.laneId meeting h metadata with
    | none => rw [sendReply_of_none hr hs]; rfl
    | some reply => rw [sendReply_of_some hr hs]; rfl

/-- A reply is one turn of its pair. -/
theorem wish_sendReply (hw : self.wants v h=false) :
    ((self.sendReply crypto sha3 meeting h metadata v).1.wish v h,
        (self.sendReply crypto sha3 meeting h metadata v).2.map SyncAttempt.outcome)=
      (⟨true,self.record v h⟩ : Wish TimestampMs).next rests (.turn meeting.checked
        meeting.stamped (syncReply crypto sha3 self.laneId meeting h metadata).isSome) := by
  by_cases hr : self.shouldThrottle meeting.checked v h=true
  · rw [sendReply_of_throttle hr,wish,hw]
    rw [shouldThrottle_eq] at hr
    rw [Wish.next_turn_of_rests rfl hr]
    rfl
  · have due := hr
    rw [shouldThrottle_eq,Bool.not_eq_true] at due
    rw [Wish.next_turn_of_due rfl due]
    cases hs : syncReply crypto sha3 self.laneId meeting h metadata with
    | none =>
      rw [sendReply_of_none hr hs]
      simp [wish,wants_addTodo,record_insertRecord,SyncAttempt.outcome]
    | some reply =>
      rw [sendReply_of_some hr hs]
      simp [wish,record_insertRecord,hw,SyncAttempt.outcome]

variable (crypto sha3 self metadata meeting) in
/-- It is no turn of any other pair. -/
theorem wish_sendReply_of_ne (apart : ¬(k=h ∧ w=v)) :
    (self.sendReply crypto sha3 meeting h metadata v).1.wish w k=self.wish w k ∧
      (self.sendReply crypto sha3 meeting h metadata v).2.filter (SyncAttempt.isFor w k)=[] := by
  have other : ¬(v=w ∧ h=k) := fun same => apart ⟨same.2.symm,same.1.symm⟩
  by_cases hr : self.shouldThrottle meeting.checked v h=true
  · rw [sendReply_of_throttle hr]
    exact ⟨rfl,rfl⟩
  · cases hs : syncReply crypto sha3 self.laneId meeting h metadata with
    | none =>
      rw [sendReply_of_none hr hs,wish_addTodo_of_ne apart]
      simp [wish,record_insertRecord,apart,SyncAttempt.isFor,other]
    | some reply =>
      rw [sendReply_of_some hr hs]
      simp [wish,record_insertRecord,apart,SyncAttempt.isFor,other]

theorem isFor_of_mem_sendReply {a : SyncAttempt}
    (ha : a∈(self.sendReply crypto sha3 meeting h metadata v).2) :
    a=⟨v,h,metadata,meeting,syncReply crypto sha3 self.laneId meeting h metadata⟩ := by
  by_cases hr : self.shouldThrottle meeting.checked v h=true
  · rw [sendReply_of_throttle hr] at ha
    cases ha
  · cases hs : syncReply crypto sha3 self.laneId meeting h metadata with
    | none =>
      rw [sendReply_of_none hr hs] at ha
      exact List.mem_singleton.mp ha
    | some reply =>
      rw [sendReply_of_some hr hs] at ha
      exact List.mem_singleton.mp ha

theorem filter_sendReply :
    (self.sendReply crypto sha3 meeting h metadata v).2.filter (SyncAttempt.isFor v h)=
      (self.sendReply crypto sha3 meeting h metadata v).2 := by
  rw [List.filter_eq_self]
  intro a ha
  rw [isFor_of_mem_sendReply ha]
  simp [SyncAttempt.isFor]

theorem laneId_sendTurns :
    (self.sendTurns crypto sha3 meet ts).1.laneId=self.laneId := by
  induction ts generalizing self with
  | nil => rfl
  | cons t ts ih => exact ih.trans laneId_sendReply

variable (crypto sha3 self meet) in
/-- A pair that is not among the turns is left alone. -/
theorem wish_sendTurns_of_forall_ne (ha : ∀ t ∈ ts,¬(k=t.1 ∧ w=t.2.2)) :
    (self.sendTurns crypto sha3 meet ts).1.wish w k=self.wish w k ∧
      (self.sendTurns crypto sha3 meet ts).2.filter (SyncAttempt.isFor w k)=[] := by
  induction ts generalizing self with
  | nil => exact ⟨rfl,rfl⟩
  | cons t ts ih =>
    obtain ⟨same,none⟩ := wish_sendReply_of_ne crypto sha3 self t.2.1 (meet t.1 t.2.2)
      (ha t List.mem_cons_self)
    obtain ⟨later,rest⟩ := ih (self.sendReply crypto sha3 (meet t.1 t.2.2) t.1 t.2.1 t.2.2).1
      fun t' ht => ha t' (List.mem_cons_of_mem _ ht)
    refine ⟨later.trans same,?_⟩
    rw [sendTurns,List.filter_append,none,rest]
    rfl

variable (crypto sha3 self meet) in
/-- A pair that is among the turns has one, whatever the others are. -/
theorem wish_sendTurns_of_mem (distinct : (ts.map fun t => (t.1,t.2.2)).Nodup)
    (ht : (h,metadata,v)∈ts) (hw : self.wants v h=false) :
    ((self.sendTurns crypto sha3 meet ts).1.wish v h,
        ((self.sendTurns crypto sha3 meet ts).2.filter (SyncAttempt.isFor v h)).map
          SyncAttempt.outcome)=
      (⟨true,self.record v h⟩ : Wish TimestampMs).next rests (.turn (meet h v).checked
        (meet h v).stamped (syncReply crypto sha3 self.laneId (meet h v) h metadata).isSome) := by
  induction ts generalizing self with
  | nil => cases ht
  | cons t ts ih =>
    obtain ⟨fresh,distinct⟩ := List.nodup_cons.mp distinct
    rw [sendTurns,List.filter_append]
    by_cases here : t=(h,metadata,v)
    · subst here
      have others : ∀ t ∈ ts,¬(h=t.1 ∧ v=t.2.2) := by
        intro t ht same
        refine fresh (List.mem_map.mpr ⟨t,ht,?_⟩)
        rw [← same.1,← same.2]
      obtain ⟨later,rest⟩ := wish_sendTurns_of_forall_ne crypto sha3
        (self.sendReply crypto sha3 (meet h v) h metadata v).1 meet others
      rw [later,rest,filter_sendReply,List.append_nil,wish_sendReply hw]
    · have later : (h,metadata,v)∈ts := List.mem_of_ne_of_mem (Ne.symm here) ht
      have apart : ¬(h=t.1 ∧ v=t.2.2) := by
        intro same
        refine fresh (List.mem_map.mpr ⟨_,later,?_⟩)
        rw [same.1,same.2]
      obtain ⟨same,none⟩ := wish_sendReply_of_ne crypto sha3 self t.2.1 (meet t.1 t.2.2)
        apart
      have wants := congrArg Wish.waiting same
      have record := congrArg Wish.last same
      simp only [wish] at wants record
      rw [none,List.nil_append,ih _ distinct later (wants.trans hw),laneId_sendReply,record]

theorem of_mem_sendTurns {a : SyncAttempt} (ha : a∈(self.sendTurns crypto sha3 meet ts).2) :
    (a.dpHash,a.metadata,a.validator)∈ts ∧ a.meeting=meet a.dpHash a.validator ∧
      a.reply=syncReply crypto sha3 self.laneId a.meeting a.dpHash a.metadata := by
  induction ts generalizing self with
  | nil => cases ha
  | cons t ts ih =>
    rw [sendTurns,List.mem_append] at ha
    cases ha with
    | inl first =>
      rw [isFor_of_mem_sendReply first]
      exact ⟨List.mem_cons_self,rfl,rfl⟩
    | inr later =>
      obtain ⟨listed,met,sent⟩ := ih later
      rw [laneId_sendReply] at sent
      exact ⟨List.mem_cons_of_mem _ listed,met,sent⟩

theorem nodup_turns {todo : Todo} (hl : self.Lists todo) :
    ((turns todo).map fun t => (t.1,t.2.2)).Nodup := by
  have pairs : (turns todo).map (fun t => (t.1,t.2.2))=
      todo.flatMap fun entry => entry.2.2.map fun v => (entry.1,v) := by
    rw [turns,List.map_flatMap]
    simp only [List.map_map]
    rfl
  rw [pairs,List.nodup_flatMap]
  constructor
  · intro entry he
    exact (hl.single entry he).map (Prod.mk_right_injective _)
  · have apart := List.pairwise_map.mp hl.distinct
    refine apart.imp ?_
    intro entry entry' ne pair hp hp'
    obtain ⟨_,_,rfl⟩ := List.mem_map.mp hp
    obtain ⟨_,_,same⟩ := List.mem_map.mp hp'
    exact ne (congrArg Prod.fst same).symm

variable (crypto sha3 meet) in
/-- Sending the replies is one turn of every pair, in whatever order they are gone through. -/
theorem wish_sendReplies {todo : Todo} (hl : self.Lists todo) (v : ValidatorPublicKey)
    (h : DataProposalHash) :
    (self.wish v h).next rests (.turn (meet h v).checked (meet h v).stamped
        ((((self.sendReplies crypto sha3 todo meet).2.filter (SyncAttempt.isFor v h)).map
          SyncAttempt.outcome).any (·.met)))=
      ((self.sendReplies crypto sha3 todo meet).1.wish v h,
        ((self.sendReplies crypto sha3 todo meet).2.filter (SyncAttempt.isFor v h)).map
          SyncAttempt.outcome) := by
  unfold sendReplies
  by_cases hw : self.wants v h=true
  · obtain ⟨metadata,validators,found,member⟩ :
        ∃ metadata validators,self.todo[h]?=some (metadata,validators) ∧ v∈validators := by
      unfold wants at hw
      cases found : self.todo[h]? with
      | none => simp [found] at hw
      | some entry => exact ⟨entry.1,entry.2,rfl,by simpa [found] using hw⟩
    have filled : ¬self.todo.isEmpty=true := by
      intro empty
      rw [Std.ExtTreeMap.isEmpty_iff.mp empty,Std.ExtTreeMap.getElem?_empty] at found
      cases found
    rw [if_neg filled]
    have turn := wish_sendTurns_of_mem crypto sha3 { self with todo := ∅ } meet (nodup_turns hl)
      ((hl.listed h metadata v).mpr ⟨validators,found,member⟩) (by simp [wants])
    have start : (⟨true,self.record v h⟩ : Wish TimestampMs)=self.wish v h := by rw [wish,hw]
    change (_,_)=(⟨true,self.record v h⟩ : Wish TimestampMs).next rests _ at turn
    rw [start] at turn
    have tried := congrArg Prod.snd turn
    dsimp only at tried
    rw [tried,Wish.next_turn_any,← turn,tried]
  · have absent : ∀ t ∈ turns todo,¬(h=t.1 ∧ v=t.2.2) := by
      intro t ht same
      obtain ⟨validators,found,member⟩ := (hl.listed t.1 t.2.1 t.2.2).mp ht
      rw [← same.1] at found
      rw [← same.2] at member
      exact hw (by simpa [wants,found] using member)
    rw [Bool.not_eq_true] at hw
    rw [Wish.next_turn_of_not_waiting hw]
    split_ifs with empty
    · rfl
    · obtain ⟨same,none⟩ :=
        wish_sendTurns_of_forall_ne crypto sha3 { self with todo := ∅ } meet absent
      rw [same,none,wish_drained,wish,hw]
      rfl

end Turns

/-- A request comes in, while the storage has these entries, or the replies are sent. -/
inductive Moment where
  | asked (request : SyncRequest) (lanes : LanesStorage)
  | answered (meet : DataProposalHash → ValidatorPublicKey → Meeting)
      (attempts : List SyncAttempt)

section Log
variable (laneId : LaneId) (v : ValidatorPublicKey) (h : DataProposalHash)

def Moment.attempts : Moment → List SyncAttempt
  | .asked _ _ => []
  | .answered _ attempts => attempts

def Moment.meet? : Moment → Option (DataProposalHash → ValidatorPublicKey → Meeting)
  | .asked _ _ => none
  | .answered meet _ => some meet

/-- Whether the validator requests the data proposal, alone or with others. -/
def Moment.asksFor : Moment → Bool
  | .asked request lanes =>
      match requested laneId lanes request with
      | none => false
      | some entries => decide (v=request.validator)&&entries.any (fun entry => entry.1=h)
  | .answered _ _ => false

/-- What it is for the pair of the validator and the data proposal. -/
def Moment.events (moment : Moment) : List (Event TimestampMs) :=
  match moment with
  | .asked _ _ => if moment.asksFor laneId v h then [.wish] else []
  | .answered meet attempts =>
      [.turn (meet h v).checked (meet h v).stamped
        (((attempts.filter (SyncAttempt.isFor v h)).map SyncAttempt.outcome).any (·.met))]

def events (log : List Moment) : List (Event TimestampMs) :=
  log.flatMap (Moment.events laneId v h)

def attemptsFor (log : List Moment) : List SyncAttempt :=
  (log.flatMap Moment.attempts).filter (SyncAttempt.isFor v h)

/-- An entry that the storage had at the time of a request for it. -/
def Requested (log : List Moment) (metadata : LaneEntryMetadata) : Prop :=
  ∃ request lanes entries,Moment.asked request lanes∈log ∧
    requested laneId lanes request=some entries ∧ (h,metadata)∈entries

end Log

section Runs
variable {PublicKey BlstSignature : Type} (crypto : BlstCrypto PublicKey BlstSignature)
  (sha3 : Bytes → H256) (laneId : LaneId)

/-- The states after requests and ticks in any order. -/
inductive Reaches : List Moment → MempoolSync → Prop
  | create : Reaches [] (create laneId)
  | request {log : List Moment} {self next : MempoolSync} {request : SyncRequest}
      {lanes : LanesStorage} (hr : Reaches log self)
      (hn : self.unfoldSyncRequestInterval lanes request=some next) :
      Reaches (log++[.asked request lanes]) next
  | replies {log : List Moment} {self : MempoolSync} {todo : Todo}
      {meet : DataProposalHash → ValidatorPublicKey → Meeting} (hr : Reaches log self)
      (hl : self.Lists todo) :
      Reaches (log++[.answered meet (self.sendReplies crypto sha3 todo meet).2])
        (self.sendReplies crypto sha3 todo meet).1

variable {crypto sha3 laneId} {log more : List Moment} {self : MempoolSync}
  {v : ValidatorPublicKey} {h : DataProposalHash} {metadata : LaneEntryMetadata}
  {now : TimestampMs}

theorem Reaches.laneId_eq (hr : Reaches crypto sha3 laneId log self) : self.laneId=laneId := by
  induction hr with
  | create => rfl
  | request hr hn ih =>
    obtain ⟨entries,_,rfl⟩ := Option.map_eq_some_iff.mp hn
    rw [laneId_addEntries,ih]
  | replies hr hl ih =>
    unfold sendReplies
    split_ifs with empty
    · exact ih
    · rw [laneId_sendTurns]
      exact ih

theorem Reaches.prefix (hr : Reaches crypto sha3 laneId (log++more) self) :
    ∃ mid,Reaches crypto sha3 laneId log mid := by
  generalize hw : log++more=whole at hr
  induction hr generalizing more with
  | create =>
    obtain ⟨rfl,_⟩ := List.append_eq_nil_iff.mp hw
    exact ⟨_,.create⟩
  | request hr hn ih =>
    cases more using List.reverseRecOn with
    | nil =>
      rw [List.append_nil] at hw
      subst hw
      exact ⟨_,.request hr hn⟩
    | append_singleton more last _ =>
      rw [← List.append_assoc] at hw
      exact ih (List.append_inj_left' hw rfl)
  | replies hr hl ih =>
    cases more using List.reverseRecOn with
    | nil =>
      rw [List.append_nil] at hw
      subst hw
      exact ⟨_,.replies hr hl⟩
    | append_singleton more last _ =>
      rw [← List.append_assoc] at hw
      exact ih (List.append_inj_left' hw rfl)

theorem wish_unfoldSyncRequestInterval {next : MempoolSync} {request : SyncRequest}
    {lanes : LanesStorage} (hn : self.unfoldSyncRequestInterval lanes request=some next) :
    next.wish v h=((self.wish v h).run rests
      ((Moment.asked request lanes).events self.laneId v h)).1 ∧
    ((self.wish v h).run rests ((Moment.asked request lanes).events self.laneId v h)).2=[] := by
  obtain ⟨entries,he,rfl⟩ := Option.map_eq_some_iff.mp hn
  rw [wish_addEntries]
  cases asked : (Moment.asked request lanes).asksFor self.laneId v h with
  | true =>
    have wanted := asked
    simp only [Moment.asksFor,he] at wanted
    simp only [Moment.events,asked,if_true,wanted,Bool.true_or]
    exact ⟨rfl,rfl⟩
  | false =>
    have wanted := asked
    simp only [Moment.asksFor,he] at wanted
    simp only [Moment.events,asked,wanted,Bool.false_or,Bool.false_eq_true,if_false]
    exact ⟨rfl,rfl⟩

/-- Every pair goes through its own wishes and turns, and no other pair comes in between. -/
theorem Reaches.run_events (hr : Reaches crypto sha3 laneId log self) :
    (Wish.fresh.run rests (events laneId v h log))=
      (self.wish v h,(attemptsFor v h log).map SyncAttempt.outcome) := by
  induction hr with
  | create =>
    rw [wish_create]
    rfl
  | @request log self next request lanes hr hn ih =>
    obtain ⟨state,none⟩ := wish_unfoldSyncRequestInterval (v := v) (h := h) hn
    rw [hr.laneId_eq] at state none
    simp only [events,attemptsFor,List.flatMap_append,List.flatMap_cons,List.flatMap_nil,
      List.append_nil] at ih ⊢
    rw [Wish.run_append,ih,none,← state]
    simp [Moment.attempts]
  | @replies log self todo meet hr hl ih =>
    have turn := wish_sendReplies crypto sha3 meet hl v h
    simp only [events,attemptsFor,List.flatMap_append,List.flatMap_cons,List.flatMap_nil,
      List.append_nil,List.filter_append,List.map_append] at ih ⊢
    rw [Wish.run_append,ih,Moment.events,Wish.run_singleton]
    simp only [Moment.attempts,turn]

theorem isWish_of_mem_events {moment : Moment} {e : Event TimestampMs}
    (he : e∈moment.events laneId v h) : e.isWish=moment.asksFor laneId v h := by
  cases moment with
  | asked request lanes =>
    unfold Moment.events at he
    split_ifs at he with asks
    · rw [List.mem_singleton.mp he,asks]
      rfl
    · cases he
  | answered meet attempts =>
    rw [List.mem_singleton.mp he]
    rfl

theorem countP_events :
    (events laneId v h log).countP Event.isWish=log.countP (Moment.asksFor laneId v h) := by
  induction log with
  | nil => rfl
  | cons moment log ih =>
    rw [events,List.flatMap_cons,List.countP_append,List.countP_cons,← ih,Nat.add_comm]
    congr 1
    cases moment with
    | asked request lanes =>
      unfold Moment.events
      split_ifs with asks
      · rfl
      · rfl
    | answered meet attempts => rfl

theorem rests_eq_false {record now : TimestampMs} :
    rests record now=false ↔ 10000<TimestampMs.since now record := by
  simp [rests]

/-- Unless the clock was set back, more than ten seconds have passed. -/
theorem late_of_rests_eq_false {record now : TimestampMs} (hr : rests record now=false) :
    now<record ∨ record.toNat+10000<now.toNat := by
  rw [rests_eq_false,UInt64.lt_iff_toNat_lt,TimestampMs.since,UInt64.toNat_ofNat'] at hr
  by_cases back : now<record
  · exact .inl back
  · have order : record.toNat≤now.toNat := by
      rw [BitVec.lt_def] at back
      omega
    have gap : (now-record).toNat=now.toNat-record.toNat := BitVec.toNat_sub_of_le order
    have low := Nat.mod_le (now.toNat-record.toNat) (2^64)
    rw [gap] at hr
    have least : (10000 : UInt64).toNat=10000 := rfl
    omega

theorem Requested.mono (hm : Requested laneId h log metadata) :
    Requested laneId h (log++more) metadata := by
  obtain ⟨request,lanes,entries,listed,he,hm⟩ := hm
  exact ⟨request,lanes,entries,List.mem_append_left _ listed,he,hm⟩

section Metadata
variable {P : DataProposalHash → LaneEntryMetadata → Prop}

/-- What holds of the metadata that wait, and of those that are added. -/
def TodoHas (P : DataProposalHash → LaneEntryMetadata → Prop) (self : MempoolSync) : Prop :=
  ∀ h entry,self.todo[h]?=some entry → P h entry.1

theorem TodoHas.addTodo (hs : self.TodoHas P) (hp : P h metadata) :
    (self.addTodo h metadata v).TodoHas P := by
  intro k entry found
  rw [getElem?_addTodo] at found
  by_cases here : k=h
  · subst here
    rw [if_pos rfl] at found
    obtain rfl := Option.some.inj found
    rw [Std.ExtTreeMap.getD_eq_getD_getElem?]
    cases there : self.todo[k]? with
    | none => exact hp
    | some entry => exact hs k entry there
  · rw [if_neg here] at found
    exact hs k entry found

theorem TodoHas.addEntries {entries : List (DataProposalHash × LaneEntryMetadata)}
    (hs : self.TodoHas P) (hp : ∀ entry ∈ entries,P entry.1 entry.2) :
    (self.addEntries v entries).TodoHas P := by
  unfold MempoolSync.addEntries
  induction entries generalizing self with
  | nil => exact hs
  | cons entry entries ih =>
    exact ih (hs.addTodo (hp entry List.mem_cons_self))
      fun entry he => hp entry (List.mem_cons_of_mem _ he)

theorem TodoHas.sendReply {meeting : Meeting} (hs : self.TodoHas P) (hp : P h metadata) :
    (self.sendReply crypto sha3 meeting h metadata v).1.TodoHas P := by
  by_cases hr : self.shouldThrottle meeting.checked v h=true
  · rw [sendReply_of_throttle hr]
    exact hs
  · cases sent : syncReply crypto sha3 self.laneId meeting h metadata with
    | none =>
      rw [sendReply_of_none hr sent]
      exact TodoHas.addTodo hs hp
    | some reply =>
      rw [sendReply_of_some hr sent]
      exact hs

theorem TodoHas.sendTurns {meet : DataProposalHash → ValidatorPublicKey → Meeting}
    {ts : List (DataProposalHash × LaneEntryMetadata × ValidatorPublicKey)}
    (hs : self.TodoHas P) (hp : ∀ t ∈ ts,P t.1 t.2.1) :
    (self.sendTurns crypto sha3 meet ts).1.TodoHas P := by
  induction ts generalizing self with
  | nil => exact hs
  | cons t ts ih =>
    exact ih (hs.sendReply (hp t List.mem_cons_self))
      fun t ht => hp t (List.mem_cons_of_mem _ ht)

end Metadata

theorem Reaches.todoHas (hr : Reaches crypto sha3 laneId log self) :
    self.TodoHas fun h metadata => Requested laneId h log metadata := by
  induction hr with
  | create =>
    intro k entry found
    rw [MempoolSync.create,Std.ExtTreeMap.getElem?_empty] at found
    cases found
  | @request log self next request lanes hr hn ih =>
    obtain ⟨entries,he,rfl⟩ := Option.map_eq_some_iff.mp hn
    rw [hr.laneId_eq] at he
    refine TodoHas.addEntries (fun k entry found => (ih k entry found).mono) ?_
    intro entry member
    exact ⟨request,lanes,entries,List.mem_append_right _ (List.mem_singleton_self _),he,member⟩
  | @replies log self todo meet hr hl ih =>
    have old : self.TodoHas fun h metadata => Requested laneId h
        (log++[.answered meet (self.sendReplies crypto sha3 todo meet).2]) metadata :=
      fun k entry found => (ih k entry found).mono
    revert old
    generalize log++[Moment.answered meet (self.sendReplies crypto sha3 todo meet).2]=whole
    intro old
    unfold sendReplies
    split_ifs with empty
    · exact old
    · refine TodoHas.sendTurns ?_ ?_
      · intro k entry found
        rw [Std.ExtTreeMap.getElem?_empty] at found
        cases found
      · intro t ht
        obtain ⟨validators,found,_⟩ := (hl.listed t.1 t.2.1 t.2.2).mp ht
        exact old t.1 _ found

/-- A reply that is tried is about metadata that were requested, and is made of them. -/
theorem Reaches.of_mem_attempts (hr : Reaches crypto sha3 laneId log self) {a : SyncAttempt}
    (ha : a∈log.flatMap Moment.attempts) : Requested laneId a.dpHash log a.metadata ∧
      a.reply=syncReply crypto sha3 laneId a.meeting a.dpHash a.metadata := by
  induction hr with
  | create => cases ha
  | request hr hn ih =>
    simp only [List.flatMap_append,List.flatMap_singleton,Moment.attempts,List.append_nil] at ha
    obtain ⟨requested,made⟩ := ih ha
    exact ⟨requested.mono,made⟩
  | @replies log self todo meet hr hl ih =>
    rw [List.flatMap_append,List.flatMap_singleton,List.mem_append] at ha
    cases ha with
    | inl old =>
      obtain ⟨requested,made⟩ := ih old
      exact ⟨requested.mono,made⟩
    | inr now =>
      simp only [Moment.attempts] at now
      unfold sendReplies at now
      split_ifs at now with empty
      · cases now
      · obtain ⟨turn,_,made⟩ := of_mem_sendTurns now
        obtain ⟨validators,found,_⟩ := (hl.listed a.dpHash a.metadata a.validator).mp turn
        rw [← hr.laneId_eq]
        refine ⟨Requested.mono ?_,made⟩
        rw [hr.laneId_eq]
        exact hr.todoHas _ _ found

theorem syncReply_eq_some {meeting : Meeting} {msg : MsgWithHeader MempoolNetMessage}
    (hm : syncReply crypto sha3 laneId meeting h metadata=some msg) :
    ∃ dp,meeting.lanes.getDpByHash laneId h=some dp ∧ msg.msg=.syncReply metadata dp ∧
      msg.header.msg=⟨meeting.signed,toHeaderSignableData sha3 msg.msg⟩ ∧
      meeting.heard=true := by
  unfold syncReply at hm
  cases stored : meeting.lanes.getDpByHash laneId h with
  | none => simp [stored] at hm
  | some dp =>
    simp only [stored] at hm
    split at hm
    · cases hm
    · rename_i signed hs
      let _ : IntoHeaderSignableData MempoolNetMessage := ⟨toHeaderSignableData sha3⟩
      obtain ⟨content,header⟩ := signMsgWithHeader_eq_ok hs
      split_ifs at hm with heard
      obtain rfl := Option.some.inj hm
      refine ⟨dp,rfl,content,?_,heard⟩
      rw [header,content]
      rfl

/-- Where nobody asks, there is a turn whenever replies are sent. -/
theorem head?_events (quiet : ∀ moment ∈ more,moment.asksFor laneId v h=false) :
    (∃ checked stamped met,(events laneId v h more).head?=some (.turn checked stamped met) ∧
        rests now checked=false) ↔
      ∃ meet,more.findSome? Moment.meet?=some meet ∧
        10000<TimestampMs.since (meet h v).checked now := by
  induction more with
  | nil => simp [events]
  | cons moment more ih =>
    have later := ih fun moment hm => quiet moment (List.mem_cons_of_mem _ hm)
    cases moment with
    | asked request lanes =>
      have silent := quiet _ List.mem_cons_self
      have none : events laneId v h (.asked request lanes::more)=events laneId v h more := by
        simp [events,Moment.events,silent]
      rw [none,later]
      rfl
    | answered meet attempts =>
      simp [events,Moment.events,Moment.meet?,rests_eq_false,List.findSome?_cons]

theorem events_append : events laneId v h (log++more)=
    events laneId v h log++events laneId v h more := List.flatMap_append

theorem attemptsFor_append :
    attemptsFor v h (log++more)=attemptsFor v h log++attemptsFor v h more := by
  rw [attemptsFor,List.flatMap_append,List.filter_append]
  rfl

/-- After a try in vain the reply waits, and the try is its last one. -/
theorem Reaches.wish_of_mem_failed
    {meet : DataProposalHash → ValidatorPublicKey → Meeting} {attempts : List SyncAttempt}
    {a : SyncAttempt} (hr : Reaches crypto sha3 laneId (log++[.answered meet attempts]) self)
    (ha : a∈attempts) (failed : a.reply=none) :
    self.wish a.validator a.dpHash=⟨true,some a.meeting.stamped⟩ := by
  obtain ⟨before,hb⟩ := hr.prefix
  have run := hr.run_events (v := a.validator) (h := a.dpHash)
  rw [events_append,Wish.run_append,hb.run_events,attemptsFor_append,List.map_append] at run
  obtain ⟨state,tries⟩ := Prod.mk.inj run
  have turn := List.append_cancel_left tries
  have listed : a.outcome∈(attemptsFor a.validator a.dpHash
      [.answered meet attempts]).map SyncAttempt.outcome := by
    refine List.mem_map_of_mem (List.mem_filter.mpr ⟨?_,by simp [SyncAttempt.isFor]⟩)
    simpa [Moment.attempts] using ha
  rw [← turn] at listed
  simp only [events,List.flatMap_singleton,Moment.events,Wish.run_singleton] at state listed
  have due := Wish.next_turn_of_mem listed
  rw [due] at state listed
  have same := List.mem_singleton.mp listed
  have stamped := congrArg Attempt.stamped same
  have met := congrArg Attempt.met same
  simp only [SyncAttempt.outcome,failed,Option.isSome_none] at stamped met
  rw [← state,stamped]
  dsimp only
  rw [← met]
  rfl

end Runs

namespace Unheard

open Mempool.SmallLanes

def lanes : LanesStorage := LanesStorage.empty.putNoVerification sha3 [1] (⟨none,200,[]⟩,first)

def crypto : BlstCrypto Bytes Bytes := BlstCrypto.ofVoter (fun _ _ => true) 1

/-- Validator 2 asks for the data proposal. -/
def request : SyncRequest := ⟨none,firstHash,[2]⟩

def asked : MempoolSync := (create [1]).addTodo firstHash ⟨none,200,[]⟩ [2]

def clock (now : TimestampMs) (heard : Bool) :
    DataProposalHash → ValidatorPublicKey → Meeting :=
  fun _ _ => ⟨now,now,now,lanes,heard⟩

/-- Nobody listens when the reply is sent. -/
def unheard : MempoolSync × List SyncAttempt :=
  asked.sendReplies crypto sha3 asked.inOrder (clock 0 false)

/-- The reply is due again after 200 milliseconds. -/
def throttled : MempoolSync × List SyncAttempt :=
  unheard.1.sendReplies crypto sha3 unheard.1.inOrder (clock 200 true)

def history : List Moment :=
  [.asked request lanes]++.answered (clock 0 false) unheard.2::
    [.answered (clock 200 true) throttled.2]

theorem reaches_throttled : Reaches crypto sha3 [1] history throttled.1 := by
  have found : requested [1] lanes request=some [(firstHash,⟨none,200,[]⟩)] := by decide +kernel
  have unfolds : (create [1]).unfoldSyncRequestInterval lanes request=some asked := by
    rw [unfoldSyncRequestInterval]
    change (requested [1] lanes request).map _=_
    rw [found]
    rfl
  have first : Reaches crypto sha3 [1] ([]++[.asked request lanes]) asked :=
    .request .create unfolds
  exact .replies (.replies first (lists_inOrder _)) (lists_inOrder _)

/-- The record is made all the same. -/
theorem unheard_attempts : unheard.2=
    [⟨[2],firstHash,⟨none,200,[]⟩,clock 0 false firstHash [2],none⟩] := rfl

end Unheard

section Replies
variable {PublicKey BlstSignature : Type} {crypto : BlstCrypto PublicKey BlstSignature}
  {sha3 : Bytes → H256} {laneId : LaneId} {log more : List Moment} {self : MempoolSync}

/-- The tries for a pair are those of its own wishes and turns. More than ten seconds lie between
two of them, unless the clock was set back. There are no more replies than requests, and each
reply has metadata that were requested and the data proposal that was stored. -/
theorem replies_run (hr : Reaches crypto sha3 laneId log self) (v : ValidatorPublicKey)
    (h : DataProposalHash) :
    (attemptsFor v h log).map SyncAttempt.outcome=
      (Wish.fresh.run rests (events laneId v h log)).2 ∧
    (attemptsFor v h log).IsChain (fun a b => b.meeting.checked<a.meeting.stamped ∨
      a.meeting.stamped.toNat+10000<b.meeting.checked.toNat) ∧
    (attemptsFor v h log).countP (·.reply.isSome)≤log.countP (Moment.asksFor laneId v h) ∧
    ∀ a ∈ attemptsFor v h log,∀ msg,a.reply=some msg →
      Requested laneId h log a.metadata ∧
      ∃ dp,a.meeting.lanes.getDpByHash laneId h=some dp ∧
        msg.msg=.syncReply a.metadata dp ∧
        msg.header.msg=⟨a.meeting.signed,toHeaderSignableData sha3 msg.msg⟩ := by
  have run := hr.run_events (v := v) (h := h)
  have tries := congrArg Prod.snd run
  refine ⟨tries.symm,?_,?_,?_⟩
  · have spaced := (Wish.rested rests Wish.fresh (events laneId v h log)).2
    rw [tries,List.isChain_map] at spaced
    exact spaced.imp fun a b => late_of_rests_eq_false
  · have bound := Wish.met_le_wishes rests Wish.fresh (events laneId v h log)
    rw [tries,List.countP_map,countP_events] at bound
    have sent : (attemptsFor v h log).countP ((·.met)∘SyncAttempt.outcome)=
        (attemptsFor v h log).countP (·.reply.isSome) := rfl
    rw [sent] at bound
    simp only [Wish.fresh,Bool.toNat_false] at bound
    omega
  · intro a ha msg hm
    obtain ⟨listed,pair⟩ := List.mem_filter.mp ha
    have about : a.dpHash=h := by
      simp only [SyncAttempt.isFor,Bool.and_eq_true,decide_eq_true_eq] at pair
      exact pair.2
    obtain ⟨requested,made⟩ := hr.of_mem_attempts listed
    rw [about] at requested made
    rw [hm] at made
    obtain ⟨dp,stored,content,header,_⟩ := syncReply_eq_some made.symm
    exact ⟨requested,dp,stored,content,header⟩

open Mempool.SmallLanes Unheard in
theorem replies_run_throttled :
    (attemptsFor [2] firstHash history).map SyncAttempt.outcome=
      (Wish.fresh.run rests (events [1] [2] firstHash history)).2 ∧
    (attemptsFor [2] firstHash history).countP (·.reply.isSome)≤
      history.countP (Moment.asksFor [1] [2] firstHash) := by
  have run := replies_run reaches_throttled [2] firstHash
  exact ⟨run.1,run.2.2.1⟩

/-- A reply that could not be sent is tried again, if nobody asks anew, only if the very next
time that replies are sent the clock shows a time more than ten seconds later. -/
theorem tried_again_iff_late {meet : DataProposalHash → ValidatorPublicKey → Meeting}
    {attempts : List SyncAttempt} {a : SyncAttempt}
    (hr : Reaches crypto sha3 laneId (log++.answered meet attempts::more) self)
    (ha : a∈attempts) (failed : a.reply=none)
    (quiet : ∀ moment ∈ more,moment.asksFor laneId a.validator a.dpHash=false) :
    attemptsFor a.validator a.dpHash more≠[] ↔
      ∃ meet',more.findSome? Moment.meet?=some meet' ∧
        10000<TimestampMs.since (meet' a.dpHash a.validator).checked a.meeting.stamped := by
  rw [List.append_cons] at hr
  obtain ⟨mid,hm⟩ := hr.prefix
  have waits := hm.wish_of_mem_failed ha failed
  generalize log++[.answered meet attempts]=past at hr hm
  have run := hr.run_events (v := a.validator) (h := a.dpHash)
  rw [events_append,Wish.run_append,hm.run_events,waits,attemptsFor_append,List.map_append] at run
  have tries := List.append_cancel_left (congrArg Prod.snd run)
  have quietEvents : ∀ e ∈ events laneId a.validator a.dpHash more,e.isWish=false := by
    intro e he
    obtain ⟨moment,hm,he⟩ := List.mem_flatMap.mp he
    rw [isWish_of_mem_events he,quiet moment hm]
  have again := Wish.tried_again_iff rests a.meeting.stamped quietEvents
  rw [tries,ne_eq,List.map_eq_nil_iff,head?_events quiet] at again
  exact again

open Mempool.SmallLanes Unheard in
theorem tried_again_iff_late_unheard :
    attemptsFor [2] firstHash [.answered (clock 200 true) throttled.2]≠[] ↔
      ∃ meet',[Moment.answered (clock 200 true) throttled.2].findSome? Moment.meet?=some meet' ∧
        10000<TimestampMs.since (meet' firstHash [2]).checked 0 :=
  tried_again_iff_late (a := ⟨[2],firstHash,⟨none,200,[]⟩,clock 0 false firstHash [2],none⟩)
    reaches_throttled (by simp [unheard_attempts]) rfl (by simp [Moment.asksFor])

open Mempool.SmallLanes Unheard in
/-- The reply that nobody heard is never sent, though its validator has asked for it. -/
example : attemptsFor [2] firstHash [.answered (clock 200 true) throttled.2]=[] := rfl

end Replies

end MempoolSync

end TruthSeeker
