import TruthSeeker.Consensus.CommitJustified
import TruthSeeker.Consensus.RoleFollower
import TruthSeeker.Framework.ParentWalk

namespace TruthSeeker

open ParentWalk

/-- The parent that the proposal of a prepare names. -/
def Prepare.parent (prepare : Prepare) : Option ConsensusProposalHash := some prepare.2.1.parentHash

namespace BufferedPrepares

variable (self : BufferedPrepares) (current : ConsensusProposalHash)

/-- A buffered prepare links its proposal to the parent. -/
def Parent : ConsensusProposalHash → ConsensusProposalHash → Prop := Link self.get Prepare.parent

/-- No proposal is an ancestor of its own. -/
def Acyclic : Prop := ∀ hash,¬Relation.TransGen self.Parent hash hash

/-- The walk of the code stops at the current proposal only if it is buffered. -/
def StopsAt (hash : ConsensusProposalHash) : Prop := hash=current ∧ (self.get hash).isSome

instance : DecidablePred (self.StopsAt current) := fun hash =>
  inferInstanceAs (Decidable (hash=current ∧ (self.get hash).isSome))

/-- The first of the proposal and its ancestors that is neither buffered nor the current one, if
the current one does not come before it. -/
def FirstMissing (hash : ConsensusProposalHash) (missing : Option ConsensusProposalHash) : Prop :=
  ∃ w,Walks self.get Prepare.parent (fun h => h=current) hash w ∧ w.missing=missing

variable {self current}

theorem exists_walks (acyclic : self.Acyclic) (stop : ConsensusProposalHash → Prop)
    (hash : ConsensusProposalHash) : ∃ w,Walks self.get Prepare.parent stop hash w := by
  have stored : ∀ k v,self.get k=some v → k∈self.prepares.keys.toFinset := by
    intro k v hk
    rw [List.mem_toFinset,Std.ExtTreeMap.mem_keys,Std.ExtTreeMap.mem_iff_isSome_getElem?]
    exact Option.isSome_of_eq_some hk
  exact exists_walks_of_acyclic stored acyclic hash

theorem firstMissing_unique {hash : ConsensusProposalHash}
    {missing other : Option ConsensusProposalHash} (h : self.FirstMissing current hash missing)
    (h' : self.FirstMissing current hash other) : missing=other := by
  obtain ⟨w,hw,rfl⟩ := h
  obtain ⟨w',hw',rfl⟩ := h'
  rw [hw.unique hw']

theorem FirstMissing.apart {hash missing : ConsensusProposalHash}
    (h : self.FirstMissing current hash (some missing)) :
    self.get missing=none ∧ missing≠current := by
  obtain ⟨w,hw,hm⟩ := h
  exact hw.of_missing hm

/-- Proposals of growing slots have no cycle. -/
theorem acyclic_of_slots (h : ∀ hash prepare parent,self.get hash=some prepare →
    self.get prepare.2.1.parentHash=some parent → parent.2.1.slot<prepare.2.1.slot) :
    self.Acyclic := by
  let height (hash : ConsensusProposalHash) : Nat :=
    (self.get hash).elim 0 fun prepare => prepare.2.1.slot.toNat+1
  have lower : ∀ hash parent,self.Parent hash parent → height parent<height hash := by
    rintro hash parent ⟨prepare,found,same⟩
    obtain rfl := Option.some.inj same
    cases hp : self.get prepare.2.1.parentHash with
    | none => simp [height,found,hp]
    | some above =>
      have less := UInt64.lt_iff_toNat_lt.mp (h hash prepare above found hp)
      simpa [height,found,hp] using less
  have path : ∀ hash ancestor,Relation.TransGen self.Parent hash ancestor →
      height ancestor<height hash := by
    intro hash ancestor links
    induction links with
    | single link => exact lower _ _ link
    | tail _ link ih => exact (lower _ _ link).trans ih
  exact fun hash cycle => (path hash hash cycle).ne rfl

/-- The walk of the code goes as it should if and only if it does not come to a current proposal
that is not buffered. -/
theorem firstMissing_iff {hash : ConsensusProposalHash} {w : Walk ConsensusProposalHash Prepare}
    (h : Walks self.get Prepare.parent (self.StopsAt current) hash w) :
    self.FirstMissing current hash w.missing ↔
      ¬(self.get current=none ∧ Relation.ReflTransGen self.Parent hash current) := by
  constructor
  · rintro first ⟨unbuffered,path⟩
    have never : ∀ k,¬self.StopsAt current k := by
      rintro k ⟨rfl,buffered⟩
      simp [unbuffered] at buffered
    have asked : w.missing=some current := by
      obtain none|found := h.missing_of_reaches path unbuffered
      · exact absurd none (h.missing_ne_none never (by simp [Prepare.parent]))
      · exact found.1
    obtain ⟨w',hw',same⟩ := first
    obtain none|found := hw'.missing_of_reaches path unbuffered
    · rw [none,asked] at same
      cases same
    · exact found.2 rfl
  · intro apart
    refine ⟨w,h.of_stop_iff ?_,rfl⟩
    intro k path
    constructor
    · exact And.left
    · rintro rfl
      refine ⟨rfl,?_⟩
      rw [Option.isSome_iff_ne_none]
      exact fun unbuffered => apart ⟨unbuffered,path⟩

end BufferedPrepares

namespace BFTRoundState

variable {round : BFTRoundState} {current : ConsensusProposalHash}

theorem missingParent_eq_walk (fuel : Nat) (hash : ConsensusProposalHash) :
    round.missingParent current fuel hash=
      match walk round.follower.bufferedPrepares.get Prepare.parent
        (round.follower.bufferedPrepares.StopsAt current) fuel hash with
      | none => Outcome.panic "the parents of the buffered prepares have no end"
      | some w => .ok w.missing := by
  induction fuel generalizing hash with
  | zero => rfl
  | succ fuel ih =>
    rw [missingParent]
    cases hl : round.follower.bufferedPrepares.get hash with
    | none =>
      have goes : ¬round.follower.bufferedPrepares.StopsAt current hash := by
        simp [BufferedPrepares.StopsAt,hl]
      rw [walk,if_neg goes,hl]
    | some prepare =>
      by_cases hc : hash=current
      · have stops : round.follower.bufferedPrepares.StopsAt current hash := ⟨hc,by simp [hl]⟩
        rw [walk,if_pos stops]
        exact if_pos hc
      · rw [walk,if_neg fun stops => hc stops.1,hl]
        dsimp only [Prepare.parent]
        rw [if_neg hc,ih]
        cases walk round.follower.bufferedPrepares.get Prepare.parent
          (round.follower.bufferedPrepares.StopsAt current) fuel prepare.2.1.parentHash <;> rfl

/-- Over prepares without a cycle, the walk ends within the size of the buffer. -/
theorem exists_missingParent (acyclic : round.follower.bufferedPrepares.Acyclic)
    (hash : ConsensusProposalHash) :
    ∃ w,Walks round.follower.bufferedPrepares.get Prepare.parent
        (round.follower.bufferedPrepares.StopsAt current) hash w ∧
      round.missingParent current (round.follower.bufferedPrepares.prepares.size+1) hash=
        .ok w.missing := by
  obtain ⟨w,hw⟩ := BufferedPrepares.exists_walks acyclic
    (round.follower.bufferedPrepares.StopsAt current) hash
  have short : w.entries.length≤ round.follower.bufferedPrepares.prepares.keys.length := by
    refine hw.length_le Function.injective_id ?_
    intro k v hk
    rw [id,Std.ExtTreeMap.mem_keys,Std.ExtTreeMap.mem_iff_isSome_getElem?]
    exact Option.isSome_of_eq_some hk
  rw [Std.ExtTreeMap.length_keys] at short
  have enough := hw.walk_eq (Nat.lt_succ_of_le short)
  refine ⟨w,hw,?_⟩
  rw [missingParent_eq_walk,enough]

end BFTRoundState

/-- The proposal that a deed requests from the network. -/
def Deed.requested : Deed → Option ConsensusProposalHash
  | .sent (.broadcast (.syncRequest hash)) => some hash
  | .sent (.message _ (.syncRequest hash)) => some hash
  | _ => none

/-- The proposals that a node has requested, in order. -/
def Node.requests (n : Node) : List ConsensusProposalHash :=
  n.log.filterMap fun entry => entry.deed.requested

namespace Consensus

variable {PublicKey BlstSignature : Type} (self : Consensus PublicKey BlstSignature)

/-- The node once it has the prepare in its buffer. -/
def buffer (prepare : Prepare) (n : Node) : Node :=
  if n.bftRoundState.follower.bufferedPrepares.contains (prepare.2.1.hashed self.sha3)=false then
    n.setRound fun round => round.pushPrepare self.sha3 prepare
  else n

/-- The end of the call: the request for a missing proposal. -/
def request (draw : Nat) (round : BFTRoundState) :
    Option ConsensusProposalHash → Handler Node Unit
  | none => pure ()
  | some missing =>
      match self.nodeToAsk round.staking.bonded draw with
      | none => Node.send (.broadcast (.syncRequest missing))
      | some node => Node.send (.message node (.syncRequest missing))

/-- The call returns, and of all proposals it requests the first missing ancestor only. -/
def RequestsFirstMissing (draw : Nat) (prepare : Prepare) (n : Node) : Prop :=
  let buffered := (self.buffer prepare n).bftRoundState
  ∃ missing m,
    self.bufferPrepareMessageAndFetchMissingParent draw prepare n=(.ok (),m) ∧
    buffered.follower.bufferedPrepares.FirstMissing (buffered.currentProposal.hashed self.sha3)
      prepare.2.1.parentHash missing ∧
    m.requests=n.requests++missing.toList

variable {self} {draw : Nat} {prepare : Prepare} {n : Node}

/-- The buffering changes neither the history nor the current proposal. -/
theorem buffer_eq : (self.buffer prepare n).log=n.log ∧
    (self.buffer prepare n).bftRoundState.currentProposal=n.bftRoundState.currentProposal := by
  unfold buffer
  split_ifs <;> exact ⟨rfl,rfl⟩

theorem requests_send {m : Node} {item : Sent} {hash : ConsensusProposalHash}
    (h : (Deed.sent item).requested=some hash) :
    ∃ t,Node.send item m=(.ok (),t) ∧ t.requests=m.requests++[hash] := by
  refine ⟨_,rfl,?_⟩
  change (m.log++[_]).filterMap _=_
  rw [List.filterMap_append]
  simp [Node.requests,h]

/-- What the call requests is what the walk of the code lacks. -/
theorem bufferPrepare_eq {missing : Option ConsensusProposalHash}
    (h : (self.buffer prepare n).bftRoundState.missingParent
      ((self.buffer prepare n).bftRoundState.currentProposal.hashed self.sha3)
      ((self.buffer prepare n).bftRoundState.follower.bufferedPrepares.prepares.size+1)
      prepare.2.1.parentHash=.ok missing) :
    ∃ m,self.bufferPrepareMessageAndFetchMissingParent draw prepare n=(.ok (),m) ∧
      m.requests=n.requests++missing.toList := by
  have pushed : Handler.whenever (n.bftRoundState.follower.bufferedPrepares.contains
      (prepare.2.1.hashed self.sha3)=false)
      (Node.updateRound fun round => round.pushPrepare self.sha3 prepare) n=
        (.ok (),self.buffer prepare n) := by
    unfold buffer Handler.whenever
    split_ifs <;> rfl
  have walked : Handler.lift ((self.buffer prepare n).bftRoundState.missingParent
      ((self.buffer prepare n).bftRoundState.currentProposal.hashed self.sha3)
      ((self.buffer prepare n).bftRoundState.follower.bufferedPrepares.prepares.size+1)
      prepare.2.1.parentHash) (self.buffer prepare n)=(.ok missing,self.buffer prepare n) := by
    rw [h]
    rfl
  have same : (self.buffer prepare n).requests=n.requests := by
    rw [Node.requests,buffer_eq.1,Node.requests]
  have reads (m : Node) : Node.round m=(.ok m.bftRoundState,m) := rfl
  have whole : self.bufferPrepareMessageAndFetchMissingParent draw prepare n=
      self.request draw (self.buffer prepare n).bftRoundState missing (self.buffer prepare n) := by
    refine (Handler.bind_of_ok (reads n)).trans ?_
    refine (Handler.bind_of_ok pushed).trans ?_
    refine (Handler.bind_of_ok (reads _)).trans ?_
    exact Handler.bind_of_ok walked
  rw [whole,← same]
  cases missing with
  | none => exact ⟨_,rfl,by simp⟩
  | some missing =>
    unfold request
    dsimp only
    cases self.nodeToAsk (self.buffer prepare n).bftRoundState.staking.bonded draw with
    | none => exact requests_send rfl
    | some node => exact requests_send rfl

/-- The first missing ancestor is requested if and only if the walk does not come to a current
proposal that is not buffered. The code asks for that one. -/
theorem requestsFirstMissing_iff (self : Consensus PublicKey BlstSignature) (draw : Nat)
    (prepare : Prepare) (n : Node)
    (acyclic : (self.buffer prepare n).bftRoundState.follower.bufferedPrepares.Acyclic) :
    self.RequestsFirstMissing draw prepare n ↔
      ¬((self.buffer prepare n).bftRoundState.follower.bufferedPrepares.get
          (n.bftRoundState.currentProposal.hashed self.sha3)=none ∧
        Relation.ReflTransGen (self.buffer prepare n).bftRoundState.follower.bufferedPrepares.Parent
          prepare.2.1.parentHash (n.bftRoundState.currentProposal.hashed self.sha3)) := by
  obtain ⟨w,hw,walked⟩ := BFTRoundState.exists_missingParent acyclic prepare.2.1.parentHash
  obtain ⟨m,called,requested⟩ : ∃ m,
      self.bufferPrepareMessageAndFetchMissingParent draw prepare n=(.ok (),m) ∧
        m.requests=n.requests++w.missing.toList := bufferPrepare_eq walked
  have proposal : (self.buffer prepare n).bftRoundState.currentProposal=
      n.bftRoundState.currentProposal := buffer_eq.2
  rw [← proposal,← BufferedPrepares.firstMissing_iff hw]
  constructor
  · rintro ⟨missing,m',called',first,requested'⟩
    obtain ⟨_,rfl⟩ := Prod.mk.inj (called.symm.trans called')
    have same : w.missing.toList=missing.toList :=
      List.append_cancel_left (requested.symm.trans requested')
    have equal : w.missing=missing := by simpa using congrArg List.head? same
    rwa [equal]
  · intro first
    exact ⟨w.missing,m,called,first,requested⟩

end Consensus

namespace FourValidators

open Consensus

def thirdDigest : H256 :=
  ByteVec.ofNat 32 0x33d1eb2a7483f54f034ad3d211952f1ed076c488dda23b6e3b8ca20fb9e41917

def third : ConsensusProposal := ⟨3,Bytes.hex secondDigest.toList,[],[],3⟩

/-- The module of a validator that is behind. -/
def late : Consensus Bytes Bytes :=
  { consensus (fun _ _ => true) 4 with sha3 := ByteVec.lookup [(first.preimage,firstDigest),
      (second.preimage,secondDigest),(third.preimage,thirdDigest)] }

/-- A node in the first slot that has buffered the prepares of these proposals. -/
def catchingUp (proposals : List ConsensusProposal) : Node :=
  freshNode.setRound fun round =>
    proposals.foldl (fun round proposal => round.pushPrepare late.sha3 ([1],proposal,.genesis,0))
      { round with slot := 1,currentProposal := first }

def thirdPrepare : Prepare := ([1],third,.genesis,0)

/-- The buffer that the walk for the third proposal goes through. -/
def seen (proposals : List ConsensusProposal) : BufferedPrepares :=
  (late.buffer thirdPrepare (catchingUp proposals)).bftRoundState.follower.bufferedPrepares

theorem acyclic_seen {proposals : List ConsensusProposal}
    (h : (seen proposals).prepares.toList.all (fun entry =>
      ((seen proposals).get entry.2.2.1.parentHash).all fun parent =>
        decide (parent.2.1.slot<entry.2.2.1.slot))=true) : (seen proposals).Acyclic := by
  refine BufferedPrepares.acyclic_of_slots ?_
  intro hash prepare parent found above
  have listed := Std.ExtTreeMap.mem_toList_iff_getElem?_eq_some.mpr found
  have less := List.all_eq_true.mp h _ listed
  simpa [above] using less

theorem requestsFirstMissing_buffered :
    late.RequestsFirstMissing 0 thirdPrepare (catchingUp [first,second]) := by
  refine (requestsFirstMissing_iff late 0 thirdPrepare (catchingUp [first,second])
    (acyclic_seen (by decide +kernel))).mpr ?_
  rintro ⟨unbuffered,_⟩
  have buffered : ((seen [first,second]).get (first.hashed late.sha3)).isSome=true := by
    decide +kernel
  exact absurd unbuffered (Option.isSome_iff_ne_none.mp buffered)

/-- Where the current proposal is not buffered, it is the one that is asked for. -/
theorem not_requestsFirstMissing_unbuffered : (seen [second]).Acyclic ∧
    (late.bufferPrepareMessageAndFetchMissingParent 0 thirdPrepare (catchingUp [second])).2.requests=
      [first.hashed late.sha3] ∧
    ¬late.RequestsFirstMissing 0 thirdPrepare (catchingUp [second]) := by
  have asked : (late.bufferPrepareMessageAndFetchMissingParent 0 thirdPrepare
      (catchingUp [second])).2.requests=[first.hashed late.sha3] := by
    decide +kernel
  refine ⟨acyclic_seen (by decide +kernel),asked,?_⟩
  rintro ⟨missing,m,called,found,requested⟩
  rw [called] at asked
  have only : [first.hashed late.sha3]=missing.toList := by
    have before : (catchingUp [second]).requests=[] := by decide +kernel
    rw [← asked,requested,before,List.nil_append]
  obtain rfl : missing=some (first.hashed late.sha3) := by
    simpa using (congrArg List.head? only).symm
  exact found.apart.2 rfl

end FourValidators

end TruthSeeker
