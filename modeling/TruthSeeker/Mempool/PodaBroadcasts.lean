import TruthSeeker.Mempool.StoredVotes
import TruthSeeker.Staking.TotalBond

namespace TruthSeeker

open Outcome BinarySearch

section
variable {PublicKey BlstSignature : Type} (env : MempoolEnv PublicKey BlstSignature)

namespace Mempool

open LanesStorage

section Broadcasts
variable (m : Mempool) (hash : DataProposalHash)

/-- The votes that are stored with a data proposal of the own lane. -/
def votesOn : List ValidatorDAG :=
  match m.lanes.getMetadataByHash (ownLaneId env) hash with
  | none => []
  | some metadata => metadata.signatures

def votersOn : List ValidatorPublicKey := (m.votesOn env hash).map fun s => s.signature.validator

/-- The voting power of validators, as a number. -/
def powerOf (validators : List ValidatorPublicKey) : Nat :=
  (m.staking.computeVotingPower validators).toNat

def fault : Nat := m.staking.computeF.toNat

/-- The power first exceeds f, first exceeds 2f or first reaches 3f+1. -/
def Crosses (f before after : Nat) : Prop :=
  (before≤ f ∧ f<after) ∨ (before≤2*f ∧ 2*f<after) ∨ (before≤3*f ∧ 3*f<after)

instance {f before after : Nat} : Decidable (Crosses f before after) := by
  unfold Crosses
  infer_instance

def receive (votes : List ValidatorDAG) : Mempool :=
  votes.foldl (fun m vdag => (m.onDataVote env vdag).2) m

/-- A vote is answered by one broadcast if the power crosses a threshold with it, and by
nothing else. -/
def AnswersCrossing (vdag : ValidatorDAG) : Prop :=
  let next := (m.onDataVote env vdag).2
  next.bus=m.bus++
    if Crosses m.fault (m.powerOf (m.votersOn env vdag.msg.1))
      (m.powerOf (next.votersOn env vdag.msg.1)) then
      [.broadcast (.podaUpdate vdag.msg.1 (next.votesOn env vdag.msg.1))]
    else []

/-- A new vote that takes the power from `before` to `after` neither starts above 3f nor meets
f or 2f where the comparisons of the code take the other side. -/
structure Clear (f before after : Nat) : Prop where
  above : before≤3*f ∨ after≤3*f
  reachesF : ¬(before<f ∧ after=f)
  reachesTwoF : ¬(f<before ∧ before<2*f ∧ after=2*f)
  leavesF : ¬(before=f ∧ f<after ∧ after<2*f)
  leavesTwoF : ¬(before=2*f ∧ 2*f<after ∧ after≤3*f)

/-- A vote that adds nothing meets no threshold between the power without its validator and the
power with it. -/
structure Idle (f without power : Nat) : Prop where
  above : power≤3*f
  reachesF : power<f ∨ f≤ without
  reachesTwoF : power<2*f ∨ 2*f≤ without

/-- The comparisons of the code for a new vote. -/
theorem clear_iff {f before after : Nat} :
    ((before<f ∧ f≤after) ∨ (before<2*f ∧ 2*f≤after) ∨ 3*f<after ↔ Crosses f before after) ↔
      Clear f before after := by
  unfold Crosses
  constructor
  · intro h
    constructor <;> omega
  · rintro ⟨_,_,_,_,_⟩
    omega

theorem idle_iff {f without power : Nat} :
    ((without<f ∧ f≤power) ∨ (without<2*f ∧ 2*f≤power) ∨ 3*f<power ↔ Crosses f power power) ↔
      Idle f without power := by
  unfold Crosses
  constructor
  · intro h
    constructor <;> omega
  · rintro ⟨_,_,_⟩
    omega

/-- The validator has not voted yet, and the vote is on the size of the data proposal. -/
def IsNewVote (vdag : ValidatorDAG) : Prop :=
  vdag.signature.validator∉m.votersOn env vdag.msg.1 ∧
    ∃ metadata,m.lanes.getMetadataByHash (ownLaneId env) vdag.msg.1=some metadata ∧
      metadata.cumulSize=vdag.msg.2

/-- The comparisons of the code tell whether the vote crosses a threshold. -/
def TellsCrossing (vdag : ValidatorDAG) : Prop :=
  let voters := m.votersOn env vdag.msg.1
  let voter := vdag.signature.validator
  (m.IsNewVote env vdag → Clear m.fault (m.powerOf voters) (m.powerOf (voter::voters))) ∧
    (¬m.IsNewVote env vdag →
      Idle m.fault (m.powerOf (voters.filter fun v => v≠voter)) (m.powerOf voters))

instance {f before after : Nat} : Decidable (Clear f before after) :=
  decidable_of_iff _ clear_iff

instance {f without power : Nat} : Decidable (Idle f without power) :=
  decidable_of_iff _ idle_iff

instance {vdag : ValidatorDAG} : Decidable (m.IsNewVote env vdag) :=
  inferInstanceAs (Decidable (_ ∧ _))

instance {vdag : ValidatorDAG} : Decidable (m.TellsCrossing env vdag) :=
  inferInstanceAs (Decidable (_ ∧ _))

end Broadcasts

section Votes
variable {env} {m : Mempool} {vdag : ValidatorDAG} {metadata : LaneEntryMetadata}

theorem validator_of_cmp {s s' : ValidatorDAG} (h : s.cmp s'=.eq) :
    s.signature.validator=s'.signature.validator := by
  simp only [ValidatorDAG.cmp,compareLex_eq_eq,compareOn] at h
  exact Std.LawfulEqOrd.eq_of_compare h.2

/-- The validators of an entry after a vote are those before it, and its own if it is new. -/
theorem mem_voters_addSignature {hash : DataProposalHash} {v : ValidatorPublicKey} :
    v∈(addSignature hash metadata vdag).signatures.map (fun s => s.signature.validator) ↔
      v∈metadata.signatures.map (fun s => s.signature.validator) ∨
      (metadata.cumulSize=vdag.msg.2 ∧ hash=vdag.msg.1 ∧ v=vdag.signature.validator) := by
  unfold addSignature
  by_cases other : metadata.cumulSize≠vdag.msg.2 ∨ hash≠vdag.msg.1
  · rw [if_pos other]
    constructor
    · exact Or.inl
    · rintro (old|⟨hs,hh,_⟩)
      · exact old
      · exact absurd other (by simp [hs,hh])
  · rw [if_neg other]
    rw [not_or,not_not,not_not] at other
    simp only [List.mem_map]
    constructor
    · rintro ⟨s,hs,rfl⟩
      obtain old|rfl := mem_insertBy hs
      · exact Or.inl ⟨s,old,rfl⟩
      · exact Or.inr ⟨other.1,other.2,rfl⟩
    · rintro (⟨s,hs,rfl⟩|⟨_,_,rfl⟩)
      · exact ⟨s,mem_insertBy_of_mem hs,rfl⟩
      · by_cases there : ∃ s∈metadata.signatures,s.cmp vdag=.eq
        · obtain ⟨s,hs,he⟩ := there
          exact ⟨s,mem_insertBy_of_mem hs,validator_of_cmp he⟩
        · refine ⟨vdag,mem_insertBy_self ?_,rfl⟩
          intro s hs he
          exact there ⟨s,hs,he⟩

theorem toNat_mul_computeF (staking : Staking) :
    (2*staking.computeF).toNat=2*staking.computeF.toNat ∧
      (3*staking.computeF).toNat=3*staking.computeF.toNat := by
  have hf : staking.computeF.toNat=staking.totalBond.toNat/3 := by
    simp [Staking.computeF,BitVec.toNat_udiv]
  have hb := staking.totalBond.isLt
  constructor
  · rw [BitVec.toNat_mul,show (2 : U128).toNat=2 from rfl]
    omega
  · rw [BitVec.toNat_mul,show (3 : U128).toNat=3 from rfl]
    omega

theorem votesOn_of_stored {hash : DataProposalHash}
    (h : m.lanes.getMetadataByHash (ownLaneId env) hash=some metadata) :
    m.votesOn env hash=metadata.signatures := by
  simp [votesOn,h]

theorem staking_onDataVote : (m.onDataVote env vdag).2.staking=m.staking := by
  unfold onDataVote
  generalize m.lanes.addSignatures (ownLaneId env) vdag.msg.1 [vdag]=added
  obtain ⟨e|signatures,lanes⟩ := added
  · rfl
  · dsimp only
    split_ifs <;> rfl

theorem stored_onDataVote
    (h : m.lanes.getMetadataByHash (ownLaneId env) vdag.msg.1=some metadata) :
    (m.onDataVote env vdag).2.lanes.getMetadataByHash (ownLaneId env) vdag.msg.1=
      some (addSignature vdag.msg.1 metadata vdag) := by
  rw [lanes_onDataVote,getMetadataByHash_signed,if_pos rfl,h]
  rfl

/-- The broadcast of a vote on a stored data proposal. -/
theorem bus_onDataVote
    (h : m.lanes.getMetadataByHash (ownLaneId env) vdag.msg.1=some metadata)
    (voters : List ValidatorPublicKey)
    (hv : (addSignature vdag.msg.1 metadata vdag).signatures.map
      (fun s => s.signature.validator)=voters) :
    let others := voters.filter fun v => v≠vdag.signature.validator
    (m.onDataVote env vdag).2.bus=m.bus++
      if (m.powerOf others< m.fault ∧ m.fault≤ m.powerOf voters) ∨
          (m.powerOf others<2*m.fault ∧ 2*m.fault≤ m.powerOf voters) ∨
            3*m.fault< m.powerOf voters then
        [.broadcast (.podaUpdate vdag.msg.1 (addSignature vdag.msg.1 metadata vdag).signatures)]
      else [] := by
  intro others
  let signatures := (addSignature vdag.msg.1 metadata vdag).signatures
  have ha : m.lanes.addSignatures (ownLaneId env) vdag.msg.1 [vdag]=
      (.ok signatures,m.lanes.signed (ownLaneId env) vdag.msg.1 [vdag]) := by
    unfold LanesStorage.signed addSignatures
    rw [h]
    rfl
  obtain ⟨two,three⟩ := toNat_mul_computeF m.staking
  subst hv
  let voters := signatures.map fun s => s.signature.validator
  let old := m.staking.computeVotingPower others
  let new := m.staking.computeVotingPower voters
  let f := m.staking.computeF
  have hcond : ((old<f ∧ f≤new) ∨ (old<2*f ∧ 2*f≤new) ∨ 3*f<new) ↔
      (m.powerOf others< m.fault ∧ m.fault≤ m.powerOf voters) ∨
        (m.powerOf others<2*m.fault ∧ 2*m.fault≤ m.powerOf voters) ∨
          3*m.fault< m.powerOf voters := by
    simp only [f,old,new,powerOf,fault,BitVec.lt_def,BitVec.le_def,two,three]
  unfold onDataVote
  rw [ha]
  dsimp only [withLanes]
  by_cases hc : (old<f ∧ f≤new) ∨ (old<2*f ∧ 2*f≤new) ∨ 3*f<new
  · rw [if_pos hc,if_pos (hcond.mp hc)]
    rfl
  · rw [if_neg hc,if_neg fun h => hc (hcond.mpr h)]
    exact (List.append_nil _).symm

theorem powerOf_congr {validators validators' : List ValidatorPublicKey}
    (h : ∀ v,v∈validators ↔ v∈validators') : m.powerOf validators=m.powerOf validators' :=
  congrArg BitVec.toNat (m.staking.computeVotingPower_congr h)

theorem append_ite_iff {α : Type} {xs : List α} {x : α} {p q : Prop} [Decidable p]
    [Decidable q] :
    (xs++if p then [x] else [])=(xs++if q then [x] else []) ↔ (p ↔ q) := by
  by_cases hp : p
  · by_cases hq : q <;> simp [hp,hq]
  · by_cases hq : q <;> simp [hp,hq]

/-- A vote on a stored data proposal is answered as it should be exactly when the comparisons
tell whether it crosses a threshold. -/
theorem answersCrossing_iff
    (h : m.lanes.getMetadataByHash (ownLaneId env) vdag.msg.1=some metadata) :
    m.AnswersCrossing env vdag ↔ m.TellsCrossing env vdag := by
  let voter := vdag.signature.validator
  let after := (addSignature vdag.msg.1 metadata vdag).signatures.map
    fun s => s.signature.validator
  have hvoters : m.votersOn env vdag.msg.1=metadata.signatures.map
      fun s => s.signature.validator := congrArg (List.map _) (votesOn_of_stored h)
  have hvotes := votesOn_of_stored (stored_onDataVote h)
  have hafter : (m.onDataVote env vdag).2.votersOn env vdag.msg.1=after :=
    congrArg (List.map _) hvotes
  have hmem : ∀ v,v∈after ↔ v∈m.votersOn env vdag.msg.1 ∨
      (metadata.cumulSize=vdag.msg.2 ∧ vdag.msg.1=vdag.msg.1 ∧ v=voter) := by
    intro v
    rw [hvoters]
    exact mem_voters_addSignature
  have hbus := bus_onDataVote h after rfl
  unfold AnswersCrossing TellsCrossing
  dsimp only
  rw [hbus,hvotes,hafter,append_ite_iff]
  by_cases new : m.IsNewVote env vdag
  · simp only [new,forall_const,not_true_eq_false,false_imp_iff,and_true]
    obtain ⟨absent,metadata',hm,size⟩ := new
    obtain rfl := Option.some.inj (h.symm.trans hm)
    have hwith : m.powerOf after=m.powerOf (voter::m.votersOn env vdag.msg.1) := by
      refine powerOf_congr fun v => ?_
      rw [hmem]
      simp [size,or_comm]
    have hold : m.powerOf (after.filter fun v => v≠voter)=
        m.powerOf (m.votersOn env vdag.msg.1) := by
      refine powerOf_congr fun v => ?_
      simp only [List.mem_filter,hmem,size,decide_eq_true_eq,true_and]
      constructor
      · rintro ⟨old|rfl,hne⟩
        · exact old
        · exact absurd rfl hne
      · intro old
        refine ⟨Or.inl old,?_⟩
        rintro rfl
        exact absent old
    rw [hold,hwith]
    exact clear_iff
  · simp only [new,false_imp_iff,not_false_eq_true,forall_const,true_and]
    have same : ∀ v,v∈after ↔ v∈m.votersOn env vdag.msg.1 := by
      intro v
      rw [hmem]
      constructor
      · rintro (old|⟨size,_,rfl⟩)
        · exact old
        · by_contra absent
          exact new ⟨absent,metadata,h,size⟩
      · exact Or.inl
    have hold : m.powerOf (after.filter fun v => v≠voter)=
        m.powerOf ((m.votersOn env vdag.msg.1).filter fun v => v≠voter) := by
      refine powerOf_congr fun v => ?_
      simp only [List.mem_filter,same]
    rw [hold,powerOf_congr same]
    exact idle_iff

/-- A data proposal stays stored while votes on it are received. -/
theorem stored_receive {hash : DataProposalHash} {votes : List ValidatorDAG}
    (h : ∃ metadata,m.lanes.getMetadataByHash (ownLaneId env) hash=some metadata)
    (hv : ∀ vdag∈votes,vdag.msg.1=hash) :
    ∃ metadata,(m.receive env votes).lanes.getMetadataByHash (ownLaneId env) hash=
      some metadata := by
  induction votes generalizing m with
  | nil => exact h
  | cons vdag votes ih =>
    obtain ⟨metadata,hm⟩ := h
    obtain rfl := hv vdag List.mem_cons_self
    exact ih ⟨_,stored_onDataVote hm⟩ fun v hm => hv v (List.mem_cons_of_mem _ hm)

end Votes

section Runs
variable (m : Mempool)

/-- Every vote of a sequence is answered by one broadcast if the power crosses a threshold with
it, and by nothing else. -/
def BroadcastsOnce (votes : List ValidatorDAG) : Prop :=
  ∀ before vdag after,votes=before++vdag::after → (m.receive env before).AnswersCrossing env vdag

/-- The comparisons tell at every vote of a sequence. -/
def TellsCrossings (votes : List ValidatorDAG) : Prop :=
  ∀ before vdag after,votes=before++vdag::after → (m.receive env before).TellsCrossing env vdag

end Runs

theorem tellsCrossings_nil {env : MempoolEnv PublicKey BlstSignature} {m : Mempool} :
    m.TellsCrossings env [] := by
  intro before vdag after split
  simp at split

theorem tellsCrossings_cons {env : MempoolEnv PublicKey BlstSignature} {m : Mempool}
    {vdag : ValidatorDAG} {votes : List ValidatorDAG} : m.TellsCrossings env (vdag::votes) ↔
      m.TellsCrossing env vdag ∧ (m.onDataVote env vdag).2.TellsCrossings env votes := by
  constructor
  · intro tells
    refine ⟨tells [] vdag votes rfl,?_⟩
    intro before later after split
    exact tells (vdag::before) later after (congrArg (vdag::·) split)
  · rintro ⟨now,later⟩ before voted after split
    cases before with
    | nil =>
      obtain ⟨rfl,_⟩ := List.cons.inj split
      exact now
    | cons earlier before =>
      obtain ⟨rfl,rest⟩ := List.cons.inj split
      exact later before voted after rest

instance decidableTellsCrossings {env : MempoolEnv PublicKey BlstSignature} :
    (m : Mempool) → (votes : List ValidatorDAG) → Decidable (m.TellsCrossings env votes)
  | _,[] => isTrue tellsCrossings_nil
  | m,vdag::votes =>
      let next := (m.onDataVote env vdag).2
      have : Decidable (next.TellsCrossings env votes) := decidableTellsCrossings next votes
      decidable_of_iff _ tellsCrossings_cons.symm

/-- The broadcasts for a data proposal are one for each crossing exactly when the comparisons
tell the crossings. -/
theorem broadcastsOnce_iff {env : MempoolEnv PublicKey BlstSignature} {m : Mempool}
    {hash : DataProposalHash} {votes : List ValidatorDAG}
    (h : ∃ metadata,m.lanes.getMetadataByHash (ownLaneId env) hash=some metadata)
    (hv : ∀ vdag∈votes,vdag.msg.1=hash) :
    m.BroadcastsOnce env votes ↔ m.TellsCrossings env votes := by
  have step : ∀ before vdag after,votes=before++vdag::after →
      ((m.receive env before).AnswersCrossing env vdag ↔
        (m.receive env before).TellsCrossing env vdag) := by
    intro before vdag after hs
    obtain rfl := hv vdag (by simp [hs])
    have hbefore : ∀ v∈before,v.msg.1=vdag.msg.1 := by
      intro v hm
      exact hv v (by simp [hs,hm])
    obtain ⟨metadata,hm⟩ := stored_receive h hbefore
    exact answersCrossing_iff hm
  constructor
  · intro answers before vdag after hs
    exact (step before vdag after hs).mp (answers before vdag after hs)
  · intro tells before vdag after hs
    exact (step before vdag after hs).mpr (tells before vdag after hs)

end Mempool

end

namespace Mempool

open LanesStorage

namespace SmallLanes

/-- Three validators with the same stake, so that f is the stake of one of them. -/
def three : Staking :=
  { Staking.new with
    stakes := Staking.new.stakes.insertMany [("a",100),("b",100),("c",100)]
    delegations := Staking.new.delegations.insertMany [([1],["a"]),([2],["b"]),([3],["c"])]
    bonded := [[1],[2],[3]]
    totalBond := 300 }

/-- The node has the first data proposal in its lane, with its own vote. -/
def proposing : Mempool :=
  { new with
    lanes := LanesStorage.empty.appended sha3 [1] ⟨none,13,[voteOf 1]⟩ first
    staking := three }

theorem stored_proposing (v : UInt8) :
    proposing.lanes.getMetadataByHash (ownLaneId voters) (voteOf v).msg.1=
      some ⟨none,13,[voteOf 1]⟩ := by
  simp only [proposing,getMetadataByHash_appended]
  exact if_pos rfl

end SmallLanes

open SmallLanes in
/-- The second validator votes twice: its vote is answered twice. -/
theorem not_broadcastsOnce_repeated :
    ¬proposing.BroadcastsOnce voters [voteOf 2,voteOf 2] := by
  intro once
  have hm : (proposing.receive voters [voteOf 2]).lanes.getMetadataByHash (ownLaneId voters)
      (voteOf 2).msg.1=some (addSignature firstHash ⟨none,13,[voteOf 1]⟩ (voteOf 2)) :=
    stored_onDataVote (stored_proposing 2)
  have tells := (answersCrossing_iff hm).mp (once [voteOf 2] (voteOf 2) [] rfl)
  have hvoters : (proposing.receive voters [voteOf 2]).votersOn voters (voteOf 2).msg.1=
      [[1],[2]] := by
    unfold votersOn
    rw [votesOn_of_stored hm]
    decide +kernel
  have staking : (proposing.receive voters [voteOf 2]).staking=three := staking_onDataVote
  have known : ¬(proposing.receive voters [voteOf 2]).IsNewVote voters (voteOf 2) := by
    rintro ⟨absent,_⟩
    rw [hvoters] at absent
    exact absent (by decide)
  have idle := (tells.2 known).reachesTwoF
  unfold powerOf fault at idle
  rw [hvoters,staking] at idle
  revert idle
  decide +kernel

namespace SmallLanes

/-- Of four validators the third has so little stake that its vote reaches no threshold. -/
def uneven : Staking :=
  { Staking.new with
    stakes := Staking.new.stakes.insertMany [("a",100),("b",150),("c",10),("d",140)]
    delegations := Staking.new.delegations.insertMany
      [([1],["a"]),([2],["b"]),([3],["c"]),([4],["d"])]
    bonded := [[1],[2],[3],[4]]
    totalBond := 400 }

/-- The third validator votes twice, then the others vote. -/
def repeatedVotes : List ValidatorDAG := [voteOf 3,voteOf 3,voteOf 2,voteOf 4]

end SmallLanes

open SmallLanes in
theorem broadcastsOnce_iff_votes :
    { proposing with staking := uneven }.BroadcastsOnce voters repeatedVotes := by
  have stored : { proposing with staking := uneven }.lanes.getMetadataByHash
      (ownLaneId voters) (voteOf 3).msg.1=some ⟨none,13,[voteOf 1]⟩ := stored_proposing 3
  refine (broadcastsOnce_iff ⟨_,stored⟩ ?_).mpr ?_
  · simp [repeatedVotes,voteOf]
  · decide +kernel

end Mempool

end TruthSeeker
