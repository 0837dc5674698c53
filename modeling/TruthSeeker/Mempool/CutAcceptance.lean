import TruthSeeker.Consensus.VerifyPoda
import TruthSeeker.Mempool.StoredVotes

namespace TruthSeeker

open Outcome ParentWalk

section
variable {PublicKey BlstSignature : Type}

namespace LanesStorage

section Top
variable (lanes : LanesStorage) (laneId : LaneId) (staking : Staking)
variable (previous : Option (LaneId × DataProposalHash × LaneBytesSize × PoDA))

/-- The data proposal is the one of the previous cut. -/
def Committed (hash : DataProposalHash) : Prop := ∃ last ∈ previous,last.2.1=hash

/-- From a hash down the lane, the first entry that has been committed or has enough votes. -/
def Tops : DataProposalHash → DataProposalHash → LaneEntryMetadata → Prop :=
  Finds (lanes.getMetadataByHash laneId) LaneEntryMetadata.parentDataProposalHash
    fun hash le => Committed previous hash ∨ le.HasVotes staking

variable (crypto : BlstCrypto PublicKey BlstSignature)

/-- What the walk down from a hash hands out: the PoDA of the previous cut, or a new one. -/
def IsCar (hash : DataProposalHash) (car : DataProposalHash × LaneBytesSize × PoDA) : Prop :=
  ∃ le,Tops lanes laneId staking previous hash car.1 le ∧ car.2.1=le.cumulSize ∧
    ((∃ last ∈ previous,last.2.1=car.1 ∧ car.2.2=last.2.2.2) ∨
      ¬Committed previous car.1 ∧
      ∃ poda,crypto.aggregate (car.1,le.cumulSize) (le.filteredSignatures staking)=.ok poda ∧
        car.2.2=poda.signature)

variable {lanes laneId staking previous crypto}

theorem filter_eq_some {hash : DataProposalHash}
    {last : LaneId × DataProposalHash × LaneBytesSize × PoDA} :
    previous.filter (fun car => car.2.1=hash)=some last ↔ last∈previous ∧ last.2.1=hash := by
  rw [Option.filter_eq_some_iff,decide_eq_true_eq]
  rfl

theorem filter_eq_none {hash : DataProposalHash} :
    previous.filter (fun car => car.2.1=hash)=none ↔ ¬Committed previous hash := by
  constructor
  · intro h hc
    obtain ⟨last,hl,hh⟩ := hc
    rw [filter_eq_some.mpr ⟨hl,hh⟩] at h
    simp at h
  · intro h
    refine Option.eq_none_iff_forall_ne_some.mpr fun last hl => ?_
    exact h ⟨last,filter_eq_some.mp hl⟩

section IsCar
variable {hash : DataProposalHash} {le : LaneEntryMetadata}
  {car : DataProposalHash × LaneBytesSize × PoDA}

theorem isCar_committed {last : LaneId × DataProposalHash × LaneBytesSize × PoDA}
    (hm : lanes.getMetadataByHash laneId hash=some le) (hl : last∈previous)
    (hh : last.2.1=hash) : IsCar lanes laneId staking previous crypto hash car ↔
      car=(hash,le.cumulSize,last.2.2.2) := by
  have committed : Committed previous hash := ⟨last,hl,hh⟩
  have here : ∀ {h' le'},Tops lanes laneId staking previous hash h' le' ↔ h'=hash ∧ le'=le :=
    finds_here hm (Or.inl committed)
  constructor
  · intro hc
    obtain ⟨h',size,poda⟩ := car
    obtain ⟨le',top,hs,answer⟩ := hc
    obtain ⟨rfl,rfl⟩ := here.mp top
    obtain ⟨last',hl',_,hp⟩|⟨fresh,_⟩ := answer
    · obtain rfl := Option.mem_unique hl hl'
      exact Prod.ext rfl (Prod.ext hs hp)
    · exact absurd committed fresh
  · rintro rfl
    exact ⟨le,here.mpr ⟨rfl,rfl⟩,rfl,Or.inl ⟨last,hl,hh,rfl⟩⟩

theorem isCar_votes (hm : lanes.getMetadataByHash laneId hash=some le)
    (fresh : ¬Committed previous hash) (hv : le.HasVotes staking) :
    IsCar lanes laneId staking previous crypto hash car ↔ ∃ poda,
      crypto.aggregate (hash,le.cumulSize) (le.filteredSignatures staking)=.ok poda ∧
      car=(hash,le.cumulSize,poda.signature) := by
  have here : ∀ {h' le'},Tops lanes laneId staking previous hash h' le' ↔ h'=hash ∧ le'=le :=
    finds_here hm (Or.inr hv)
  constructor
  · intro hc
    obtain ⟨h',size,signature⟩ := car
    obtain ⟨le',top,hs,answer⟩ := hc
    obtain ⟨rfl,rfl⟩ := here.mp top
    obtain ⟨last,hl,hh,_⟩|⟨_,poda,ha,hp⟩ := answer
    · exact absurd ⟨last,hl,hh⟩ fresh
    · exact ⟨poda,ha,Prod.ext rfl (Prod.ext hs hp)⟩
  · intro h
    obtain ⟨poda,ha,rfl⟩ := h
    exact ⟨le,here.mpr ⟨rfl,rfl⟩,rfl,Or.inr ⟨fresh,poda,ha,rfl⟩⟩

theorem isCar_above {parent : DataProposalHash}
    (hm : lanes.getMetadataByHash laneId hash=some le) (fresh : ¬Committed previous hash)
    (hv : ¬le.HasVotes staking) (hp : le.parentDataProposalHash=some parent) :
    IsCar lanes laneId staking previous crypto hash car ↔
      IsCar lanes laneId staking previous crypto parent car := by
  have above : ∀ {h' le'},Tops lanes laneId staking previous hash h' le' ↔
      Tops lanes laneId staking previous parent h' le' :=
    finds_above hm (fun hs => hs.elim fresh hv) hp
  unfold IsCar
  simp only [above]

theorem not_isCar_missing (hm : lanes.getMetadataByHash laneId hash=none) :
    ¬IsCar lanes laneId staking previous crypto hash car :=
  fun ⟨_,top,_⟩ => not_finds_missing hm top

theorem not_isCar_root (hm : lanes.getMetadataByHash laneId hash=some le)
    (fresh : ¬Committed previous hash) (hv : ¬le.HasVotes staking)
    (hp : le.parentDataProposalHash=none) :
    ¬IsCar lanes laneId staking previous crypto hash car :=
  fun ⟨_,top,_⟩ => not_finds_root hm (fun hs => hs.elim fresh hv) hp top

/-- A walk that ends hands out just that. -/
theorem latestCarFrom_eq_some {fuel : Nat}
    {r : Outcome (Option (DataProposalHash × LaneBytesSize × PoDA))}
    (h : lanes.latestCarFrom crypto laneId staking previous fuel hash=some r) :
    r=.ok (some car) ↔ IsCar lanes laneId staking previous crypto hash car := by
  induction fuel generalizing hash with
  | zero => simp [latestCarFrom] at h
  | succ fuel ih =>
    unfold latestCarFrom at h
    cases hm : lanes.getMetadataByHash laneId hash with
    | none =>
      simp only [hm] at h
      obtain rfl := Option.some.inj h
      simp [not_isCar_missing hm]
    | some le =>
      simp only [hm] at h
      cases hf : previous.filter (fun car => car.2.1=hash) with
      | some last =>
        simp only [hf] at h
        obtain rfl := Option.some.inj h
        obtain ⟨hl,rfl⟩ := filter_eq_some.mp hf
        rw [isCar_committed hm hl rfl,Except.ok.injEq,Option.some.injEq,eq_comm]
      | none =>
        simp only [hf] at h
        have fresh := filter_eq_none.mp hf
        by_cases hv : le.HasVotes staking
        · rw [if_pos hv] at h
          rw [isCar_votes hm fresh hv]
          cases ha : crypto.aggregate (hash,le.cumulSize) (le.filteredSignatures staking) with
          | error e =>
            simp only [ha] at h
            obtain rfl := Option.some.inj h
            simp
          | ok poda =>
            simp only [ha] at h
            obtain rfl := Option.some.inj h
            simp [eq_comm]
        · rw [if_neg hv] at h
          cases hp : le.parentDataProposalHash with
          | none =>
            simp only [hp] at h
            obtain rfl := Option.some.inj h
            simp [not_isCar_root hm fresh hv hp]
          | some parent =>
            simp only [hp] at h
            rw [ih h,isCar_above hm fresh hv hp]

theorem getLatestCar_eq_some {answer : Option (DataProposalHash × LaneBytesSize × PoDA)}
    (h : lanes.getLatestCar crypto laneId staking previous=some answer) :
    answer=some car ↔ ∃ tip,lanes.getLaneHashTip laneId=some tip ∧
      IsCar lanes laneId staking previous crypto tip car := by
  unfold getLatestCar at h
  cases ht : lanes.getLaneHashTip laneId with
  | none =>
    simp only [ht] at h
    obtain rfl := Option.some.inj h
    simp
  | some tip =>
    simp only [ht] at h
    obtain ⟨r,hr,rfl⟩ := Option.map_eq_some_iff.mp h
    have found := @latestCarFrom_eq_some _ _ _ _ _ _ _ _ car _ _ hr
    cases r with
    | ok answer => simpa using found
    | error e => simpa using found

theorem isCar_last {tip : DataProposalHash}
    {last : LaneId × DataProposalHash × LaneBytesSize × PoDA}
    (top : Tops lanes laneId staking previous tip last.2.1 le) (hl : last∈previous) :
    IsCar lanes laneId staking previous crypto tip (last.2.1,le.cumulSize,last.2.2.2) :=
  ⟨le,top,rfl,Or.inl ⟨last,hl,rfl,rfl⟩⟩

theorem isCar_new {tip : DataProposalHash}
    {poda : Signed (DataProposalHash × LaneBytesSize) AggregateSignature}
    (top : Tops lanes laneId staking previous tip hash le) (fresh : ¬Committed previous hash)
    (ha : crypto.aggregate (hash,le.cumulSize) (le.filteredSignatures staking)=.ok poda) :
    IsCar lanes laneId staking previous crypto tip (hash,le.cumulSize,poda.signature) :=
  ⟨le,top,rfl,Or.inr ⟨fresh,poda,ha,rfl⟩⟩

end IsCar

end Top

end LanesStorage

namespace Mempool

open LanesStorage

variable {env : MempoolEnv PublicKey BlstSignature} {m : Mempool} {staking : Staking}

theorem lane_of_findLane {cut : Cut} {laneId : LaneId}
    {last : LaneId × DataProposalHash × LaneBytesSize × PoDA}
    (h : findLane cut laneId=some last) : last.1=laneId := by
  simpa using List.find?_some h

/-- What the leader puts in the cut for a lane. -/
def Proposes (env : MempoolEnv PublicKey BlstSignature) (m : Mempool) (staking : Staking)
    (entry : LaneId × DataProposalHash × LaneBytesSize × PoDA) : Prop :=
  ∃ tip,m.lanes.getLaneHashTip entry.1=some tip ∧
    (IsCar m.lanes entry.1 staking (findLane m.previousCut entry.1) env.crypto tip entry.2 ∨
      findLane m.previousCut entry.1=some entry ∧
      ∀ car,¬IsCar m.lanes entry.1 staking (findLane m.previousCut entry.1) env.crypto tip car)

theorem proposes_of_car {laneId : LaneId} {car : DataProposalHash × LaneBytesSize × PoDA}
    (h : m.lanes.getLatestCar env.crypto laneId staking (findLane m.previousCut laneId)=
      some (some car)) (entry : LaneId × DataProposalHash × LaneBytesSize × PoDA) :
    entry.1=laneId ∧ Proposes env m staking entry ↔ entry=(laneId,car) := by
  have found : ∀ c,(∃ tip,m.lanes.getLaneHashTip laneId=some tip ∧
      IsCar m.lanes laneId staking (findLane m.previousCut laneId) env.crypto tip c) ↔ car=c := by
    intro c
    rw [← getLatestCar_eq_some h,Option.some.injEq]
  constructor
  · intro hp
    obtain ⟨l,c⟩ := entry
    obtain ⟨rfl,tip,ht,is|⟨_,none⟩⟩ := hp
    · rw [(found c).mp ⟨tip,ht,is⟩]
    · obtain ⟨tip',ht',is⟩ := (found car).mpr rfl
      rw [ht] at ht'
      obtain rfl := Option.some.inj ht'
      exact absurd is (none car)
  · rintro rfl
    obtain ⟨tip,ht,is⟩ := (found car).mpr rfl
    exact ⟨rfl,tip,ht,Or.inl is⟩

theorem proposes_of_no_car {laneId : LaneId} {tip : DataProposalHash}
    (ht : m.lanes.getLaneHashTip laneId=some tip)
    (h : m.lanes.getLatestCar env.crypto laneId staking (findLane m.previousCut laneId)=some none)
    (entry : LaneId × DataProposalHash × LaneBytesSize × PoDA) :
    entry.1=laneId ∧ Proposes env m staking entry ↔
      findLane m.previousCut laneId=some entry := by
  have none : ∀ c,¬IsCar m.lanes laneId staking (findLane m.previousCut laneId) env.crypto
      tip c := by
    intro c is
    have found := (getLatestCar_eq_some h).mpr ⟨tip,ht,is⟩
    simp at found
  constructor
  · intro hp
    obtain ⟨l,c⟩ := entry
    obtain ⟨rfl,tip',ht',is|⟨kept,_⟩⟩ := hp
    · rw [ht] at ht'
      obtain rfl := Option.some.inj ht'
      exact absurd is (none c)
    · exact kept
  · intro kept
    obtain rfl := lane_of_findLane kept
    exact ⟨rfl,tip,ht,Or.inr ⟨kept,none⟩⟩

theorem mem_cutOfLanes {laneIds : List LaneId} {cut : Cut}
    (hl : ∀ laneId ∈ laneIds,∃ tip,m.lanes.getLaneHashTip laneId=some tip)
    (h : m.cutOfLanes env staking m.previousCut laneIds=some cut)
    (entry : LaneId × DataProposalHash × LaneBytesSize × PoDA) :
    entry∈cut ↔ entry.1∈laneIds ∧ Proposes env m staking entry := by
  induction laneIds generalizing cut with
  | nil =>
    obtain rfl := Option.some.inj h
    simp
  | cons laneId laneIds ih =>
    unfold cutOfLanes at h
    obtain ⟨answer,hg,h⟩ := Option.bind_eq_some_iff.mp h
    obtain ⟨rest,hr,h⟩ := Option.bind_eq_some_iff.mp h
    have tail := ih (fun l hm => hl l (List.mem_cons_of_mem _ hm)) hr
    obtain ⟨tip,ht⟩ := hl laneId List.mem_cons_self
    rw [List.mem_cons,or_and_right,← tail]
    cases answer with
    | some car =>
      obtain rfl := Option.some.inj h
      rw [proposes_of_car hg,List.mem_cons]
    | none =>
      obtain rfl := Option.some.inj h
      rw [proposes_of_no_car ht hg,List.mem_append,Option.mem_toList]

theorem mem_cut {cut : Cut} (h : m.handleQuerynewcut env staking=some cut)
    (entry : LaneId × DataProposalHash × LaneBytesSize × PoDA) :
    entry∈cut ↔ Proposes env m staking entry := by
  have tips : ∀ laneId,laneId∈m.lanes.lanesTip.keys ↔
      ∃ tip,m.lanes.getLaneHashTip laneId=some tip := by
    intro laneId
    unfold getLaneHashTip
    rw [Std.ExtTreeMap.mem_keys,Std.ExtTreeMap.mem_iff_isSome_getElem?,Option.isSome_iff_exists]
    simp
  rw [mem_cutOfLanes (fun laneId hl => (tips laneId).mp hl) h]
  constructor
  · exact And.right
  · intro hp
    obtain ⟨tip,ht,answer⟩ := hp
    exact ⟨(tips _).mpr ⟨tip,ht⟩,tip,ht,answer⟩

section Acceptance
variable (blst : Blst PublicKey BlstSignature)

/-- The follower accepts the cut. Lanes without a new data proposal are as they were, and the
others have one of a larger size with the votes of more than f among the bonded validators. -/
structure AcceptedCut (follower : BFTRoundState) (cut : Cut) : Prop where
  verified : ∀ proposal : ConsensusProposal,proposal.cut=cut →
    follower.verifyPoda blst proposal=.ok ()
  unchanged : ∀ entry ∈ cut,∀ last ∈ findLane follower.parentCut entry.1,
    last.2.1=entry.2.1 → entry=last
  larger : ∀ entry ∈ cut,∀ last ∈ findLane follower.parentCut entry.1,
    last.2.1≠entry.2.1 → last.2.2.1<entry.2.2.1
  voted : ∀ entry ∈ cut,¬Committed (findLane follower.parentCut entry.1) entry.2.1 →
    (∀ v ∈ entry.2.2.2.validators,v∈follower.staking.bonded) ∧
    ¬follower.staking.computeVotingPower entry.2.2.2.validators<follower.staking.computeF+1 ∧
    blst.verifyAggregate (⟨(entry.2.1,entry.2.2.1),entry.2.2.2⟩ : Signed _ _)=.ok true

end Acceptance

/-- The state of the leader in which it proposes what the followers accept. -/
structure Offers (env : MempoolEnv PublicKey BlstSignature) (m : Mempool) (staking : Staking) :
    Prop where
  /-- Each lane of the previous cut has a tip. -/
  tips : ∀ entry ∈ m.previousCut,∃ tip,m.lanes.getLaneHashTip entry.1=some tip
  /-- A lane that has been in the previous cut, or has an entry with enough votes on top, is
  one of a known validator. -/
  known : ∀ laneId tip,m.lanes.getLaneHashTip laneId=some tip →
    ((findLane m.previousCut laneId).isSome=true ∨ ∃ hash le poda,
      Tops m.lanes laneId staking (findLane m.previousCut laneId) tip hash le ∧
      env.crypto.aggregate (hash,le.cumulSize) (le.filteredSignatures staking)=.ok poda) →
    staking.isKnown laneId=true
  /-- The entry of the previous cut has the size that it had there. -/
  sizes : ∀ laneId tip last le,m.lanes.getLaneHashTip laneId=some tip →
    findLane m.previousCut laneId=some last →
    Tops m.lanes laneId staking (findLane m.previousCut laneId) tip last.2.1 le →
    le.cumulSize=last.2.2.1
  /-- A new entry on top has a larger size than that of the previous cut, unless its signatures
  do not aggregate. -/
  larger : ∀ laneId tip last hash le poda,m.lanes.getLaneHashTip laneId=some tip →
    findLane m.previousCut laneId=some last → last.2.1≠hash →
    Tops m.lanes laneId staking (findLane m.previousCut laneId) tip hash le →
    env.crypto.aggregate (hash,le.cumulSize) (le.filteredSignatures staking)=.ok poda →
    last.2.2.1<le.cumulSize
  /-- If it has the signature of one validator only, then that verifies. -/
  single : ∀ laneId tip hash le s,m.lanes.getLaneHashTip laneId=some tip →
    Tops m.lanes laneId staking (findLane m.previousCut laneId) tip hash le →
    ¬Committed (findLane m.previousCut laneId) hash → le.filteredSignatures staking=[s] →
    env.crypto.verifyAggregate
      (⟨(hash,le.cumulSize),⟨s.signature.signature,[s.signature.validator]⟩⟩ : Signed _ _)=
      .ok true

section Entries
variable {laneId : LaneId} {tip hash : DataProposalHash} {le : LaneEntryMetadata}
  {last entry : LaneId × DataProposalHash × LaneBytesSize × PoDA}

/-- The entry of a lane that is proposed anew: a larger size with the votes of more than f. -/
structure NewEntry (env : MempoolEnv PublicKey BlstSignature) (m : Mempool) (staking : Staking)
    (entry : LaneId × DataProposalHash × LaneBytesSize × PoDA) : Prop where
  fresh : ¬Committed (findLane m.previousCut entry.1) entry.2.1
  larger : ∀ last ∈ findLane m.previousCut entry.1,last.2.2.1<entry.2.2.1
  bonded : ∀ v ∈ entry.2.2.2.validators,v∈staking.bonded
  power : ¬staking.computeVotingPower entry.2.2.2.validators<staking.computeF+1
  verified : env.crypto.verifyAggregate
    (⟨(entry.2.1,entry.2.2.1),entry.2.2.2⟩ : Signed _ _)=.ok true

theorem Offers.newEntry (ho : Offers env m staking) (keeps : env.crypto.KeepsAggregates)
    (ht : m.lanes.getLaneHashTip laneId=some tip)
    (top : Tops m.lanes laneId staking (findLane m.previousCut laneId) tip hash le)
    (fresh : ¬Committed (findLane m.previousCut laneId) hash)
    {poda : Signed (DataProposalHash × LaneBytesSize) AggregateSignature}
    (ha : env.crypto.aggregate (hash,le.cumulSize) (le.filteredSignatures staking)=.ok poda) :
    NewEntry env m staking (laneId,hash,le.cumulSize,poda.signature) := by
  have validators : poda.signature.validators=le.filteredValidators staking :=
    BlstCrypto.validators_of_aggregate ha
  have votes : le.HasVotes staking := top.holds.2.resolve_left fresh
  refine ⟨fresh,?_,?_,?_,?_⟩
  · intro last hl
    exact ho.larger laneId tip last hash le poda ht hl (fun hh => fresh ⟨last,hl,hh⟩) top ha
  · intro v hv
    have hv : v∈poda.signature.validators := hv
    rw [validators] at hv
    obtain ⟨s,hs,rfl⟩ := List.mem_map.mp hv
    simpa using (List.mem_filter.mp hs).2
  · change ¬staking.computeVotingPower poda.signature.validators<staking.computeF+1
    rw [validators]
    exact votes
  · change env.crypto.verifyAggregate (⟨(hash,le.cumulSize),poda.signature⟩ : Signed _ _)=.ok true
    cases hf : le.filteredSignatures staking with
    | nil => simp [hf,BlstCrypto.aggregate] at ha
    | cons s ss =>
      rw [hf] at ha
      cases ss with
      | nil =>
        obtain rfl := Except.ok.inj ha
        exact ho.single laneId tip hash le s ht top fresh hf
      | cons s' ss => exact BlstCrypto.verifyAggregate_of_aggregate keeps ha

/-- Each entry is that of the previous cut or a new one, of a known validator. -/
theorem Offers.entry_cases (ho : Offers env m staking) (keeps : env.crypto.KeepsAggregates)
    (hp : Proposes env m staking entry) :
    staking.isKnown entry.1=true ∧
      (findLane m.previousCut entry.1=some entry ∨ NewEntry env m staking entry) := by
  obtain ⟨laneId,hash,size,poda⟩ := entry
  obtain ⟨tip,ht,is|⟨kept,_⟩⟩ := hp
  · obtain ⟨le,top,hs,⟨last,hl,hh,hpoda⟩|⟨fresh,signed,ha,hpoda⟩⟩ := is
    · have found : findLane m.previousCut laneId=some last := hl
      obtain rfl : last.1=laneId := lane_of_findLane found
      dsimp only at hh hs hpoda top
      subst hh hs hpoda
      refine ⟨ho.known _ tip ht (Or.inl (by rw [found]; rfl)),Or.inl ?_⟩
      have size := ho.sizes last.1 tip last le ht found top
      dsimp only
      rw [found,size]
    · dsimp only at hs hpoda top ha fresh ht
      subst hs hpoda
      exact ⟨ho.known laneId tip ht (Or.inr ⟨hash,le,signed,top,ha⟩),
        Or.inr (ho.newEntry keeps ht top fresh ha)⟩
  · exact ⟨ho.known laneId tip ht (Or.inl (by rw [kept]; rfl)),Or.inl kept⟩

/-- A lane of the previous cut that has a tip is in the cut. -/
theorem exists_proposes (ht : m.lanes.getLaneHashTip laneId=some tip)
    (hl : findLane m.previousCut laneId=some last) :
    ∃ entry,Proposes env m staking entry ∧ entry.1=laneId := by
  by_cases hc : ∃ car,IsCar m.lanes laneId staking (findLane m.previousCut laneId) env.crypto
      tip car
  · obtain ⟨car,is⟩ := hc
    exact ⟨(laneId,car),⟨tip,ht,Or.inl is⟩,rfl⟩
  · obtain rfl := lane_of_findLane hl
    exact ⟨last,⟨tip,ht,Or.inr ⟨hl,fun car is => hc ⟨car,is⟩⟩⟩,rfl⟩

theorem findLane_of_mem {cut : Cut} (h : entry∈cut) :
    ∃ last,findLane cut entry.1=some last := by
  apply Option.isSome_iff_exists.mp
  unfold findLane
  rw [List.find?_isSome]
  exact ⟨entry,h,by simp⟩

end Entries

section Iff
variable {follower : BFTRoundState} {cut : Cut}

theorem Offers.acceptedCut (ho : Offers env m staking) (keeps : env.crypto.KeepsAggregates)
    (same : follower.staking=staking) (parent : follower.parentCut=m.previousCut)
    (h : m.handleQuerynewcut env staking=some cut) :
    AcceptedCut env.crypto.toBlst follower cut := by
  have cases : ∀ entry ∈ cut,staking.isKnown entry.1=true ∧
      (findLane m.previousCut entry.1=some entry ∨ NewEntry env m staking entry) :=
    fun entry he => ho.entry_cases keeps ((mem_cut h entry).mp he)
  constructor
  · intro proposal hcut
    rw [BFTRoundState.verifyPoda_eq_ok,hcut]
    constructor
    · intro entry he
      rw [parent] at he
      obtain ⟨tip,ht⟩ := ho.tips entry he
      obtain ⟨last,hl⟩ := findLane_of_mem he
      obtain ⟨e,hp,lane⟩ := exists_proposes ht hl
      exact ⟨e,(mem_cut h e).mpr hp,lane⟩
    · intro entry he
      obtain ⟨known,kept|new⟩ := cases entry he
      · rw [BFTRoundState.verifyLane_eq_ok,same,parent]
        refine ⟨known,?_⟩
        change findLane m.previousCut entry.1=some entry at kept
        unfold findLane at kept
        rw [kept]
        exact Or.inl rfl
      · rw [BFTRoundState.verifyLane_eq_ok,BFTRoundState.verifyVotes_eq_ok,same,parent]
        refine ⟨known,?_⟩
        cases hl : m.previousCut.find? (fun e => e.1=entry.1) with
        | none => exact ⟨new.power,new.verified⟩
        | some last => exact Or.inr ⟨new.larger last hl,new.power,new.verified⟩
  · intro entry he last hl hh
    rw [parent] at hl
    obtain ⟨_,kept|new⟩ := cases entry he
    · exact Option.mem_unique kept hl
    · exact absurd ⟨last,hl,hh⟩ new.fresh
  · intro entry he last hl hh
    rw [parent] at hl
    obtain ⟨_,kept|new⟩ := cases entry he
    · obtain rfl := Option.mem_unique kept hl
      exact absurd rfl hh
    · exact new.larger last hl
  · intro entry he fresh
    rw [parent] at fresh
    rw [same]
    obtain ⟨_,kept|new⟩ := cases entry he
    · exact absurd ⟨entry,kept,rfl⟩ fresh
    · exact ⟨new.bonded,new.power,new.verified⟩

theorem AcceptedCut.offers (ha : AcceptedCut env.crypto.toBlst follower cut)
    (same : follower.staking=staking) (parent : follower.parentCut=m.previousCut)
    (h : m.handleQuerynewcut env staking=some cut) : Offers env m staking := by
  have passed := ha.verified { (Inhabited.default : ConsensusProposal) with cut := cut } rfl
  obtain ⟨covers,lanes⟩ := BFTRoundState.verifyPoda_eq_ok.mp passed
  have proposed : ∀ {laneId tip car},m.lanes.getLaneHashTip laneId=some tip →
      IsCar m.lanes laneId staking (findLane m.previousCut laneId) env.crypto tip car →
      (laneId,car)∈cut :=
    fun ht is => (mem_cut h (_,_)).mpr ⟨_,ht,Or.inl is⟩
  constructor
  · intro entry he
    rw [parent] at covers
    obtain ⟨e,hmem,lane⟩ := covers entry he
    obtain ⟨tip,ht,_⟩ := (mem_cut h e).mp hmem
    exact ⟨tip,lane ▸ ht⟩
  · intro laneId tip ht offered
    have listed : ∃ entry ∈ cut,entry.1=laneId := by
      obtain some|⟨hash,le,poda,top,hagg⟩ := offered
      · obtain ⟨last,hl⟩ := Option.isSome_iff_exists.mp some
        obtain ⟨e,hp,lane⟩ := exists_proposes ht hl
        exact ⟨e,(mem_cut h e).mpr hp,lane⟩
      · by_cases hc : Committed (findLane m.previousCut laneId) hash
        · obtain ⟨last,hl,_⟩ := hc
          obtain ⟨e,hp,lane⟩ := exists_proposes ht hl
          exact ⟨e,(mem_cut h e).mpr hp,lane⟩
        · exact ⟨_,proposed ht (isCar_new top hc hagg),rfl⟩
    obtain ⟨entry,he,rfl⟩ := listed
    have known := (BFTRoundState.verifyLane_eq_ok.mp (lanes entry he)).1
    rwa [same] at known
  · intro laneId tip last le ht hl top
    have listed := proposed ht (isCar_last top hl)
    have kept := ha.unchanged _ listed last (by rw [parent]; exact hl) rfl
    exact congrArg (fun entry => entry.2.2.1) kept
  · intro laneId tip last hash le poda ht hl hh top hagg
    have fresh : ¬Committed (findLane m.previousCut laneId) hash := by
      intro hc
      obtain ⟨last',hl',hh'⟩ := hc
      obtain rfl := Option.mem_unique hl hl'
      exact hh hh'
    have listed := proposed ht (isCar_new top fresh hagg)
    exact ha.larger _ listed last (by rw [parent]; exact hl) hh
  · intro laneId tip hash le s ht top fresh hf
    have hagg : env.crypto.aggregate (hash,le.cumulSize) (le.filteredSignatures staking)=
        .ok ⟨(hash,le.cumulSize),⟨s.signature.signature,[s.signature.validator]⟩⟩ := by
      rw [hf]
      rfl
    have listed := proposed ht (isCar_new top fresh hagg)
    exact (ha.voted _ listed (by rw [parent]; exact fresh)).2.2

end Iff

/-- A cut is accepted exactly if the leader was in such a state. -/
theorem acceptedCut_iff (env : MempoolEnv PublicKey BlstSignature) (m : Mempool)
    (staking : Staking) (follower : BFTRoundState) (cut : Cut)
    (keeps : env.crypto.KeepsAggregates) (same : follower.staking=staking)
    (parent : follower.parentCut=m.previousCut)
    (h : m.handleQuerynewcut env staking=some cut) :
    AcceptedCut env.crypto.toBlst follower cut ↔ Offers env m staking :=
  ⟨fun ha => ha.offers same parent h,fun ho => ho.acceptedCut keeps same parent h⟩

end Mempool

end

namespace Mempool

open LanesStorage

namespace SmallLanes

/-- The node is the only validator. -/
def aloneBonded : Staking :=
  { Staking.new with
    stakes := Staking.new.stakes.insertMany [("a",100)]
    delegations := Staking.new.delegations.insertMany [([1],["a"])]
    bonded := [[1]]
    totalBond := 100 }

def follower : BFTRoundState := { BFTRoundState.default with staking := aloneBonded }

/-- A cut with the first data proposal of two lanes. -/
def parents : Cut := [car [1],car [3]]

def afterParents : BFTRoundState :=
  { BFTRoundState.default with staking := withLeader,parentCut := parents }

/-- The cut is committed, and the own lane grows. -/
def grown : List Event :=
  stored++[.netMessage [3] (.dataProposal firstHash first),.taskEnded ∅,.taskEnded ∅,
    .commitConsensusProposal ⟨withLeader,⟨1,"",parents,[],0⟩,Inhabited.default⟩,
    .newDpTimer second.txs,.ownDataProposalPrepared]

/-- Validator 9, who is not known to staking, proposes data. -/
def unknownLane : List Event :=
  [.netMessage [9] (.dataProposal firstHash first),.taskEnded ∅,.taskEnded ∅]

end SmallLanes

open SmallLanes in
theorem runs_grown :
    (run voters grown).handleQuerynewcut voters withLeader=some [secondCar,car [3]] ∧
    (run voters grown).previousCut=parents ∧
    (∀ entry ∈ [secondCar,car [3]],afterParents.verifyLane voters.crypto.toBlst entry=.ok ()) ∧
    afterParents.verifyVotes voters.crypto.toBlst secondCar=.ok () ∧
    ∀ last ∈ parents,∃ entry ∈ [secondCar,car [3]],entry.1=last.1 := by
  decide +kernel

open SmallLanes in
theorem acceptedCut_iff_grown : Offers voters (run voters grown) withLeader := by
  obtain ⟨proposed,parent,lanes,votes,covers⟩ := runs_grown
  have apart : firstHash≠secondHash := by decide +kernel
  refine (acceptedCut_iff voters _ _ afterParents _ (Blst.ofVoters_keepsAggregates _) rfl
    parent.symm proposed).mp ⟨?_,?_,?_,?_⟩
  · intro proposal hcut
    rw [BFTRoundState.verifyPoda_eq_ok,hcut]
    exact ⟨covers,lanes⟩
  all_goals
    intro entry he
    obtain rfl|kept := List.mem_cons.mp he
  · intro last hl same
    obtain rfl := Option.some.inj hl
    exact absurd same apart
  · intro last hl _
    obtain rfl := List.mem_singleton.mp kept
    exact Option.some.inj hl
  · intro last hl _
    obtain rfl := Option.some.inj hl
    exact by decide
  · intro last hl differs
    obtain rfl := List.mem_singleton.mp kept
    obtain rfl := Option.some.inj hl
    exact absurd rfl differs
  · intro _
    exact ⟨by decide,BFTRoundState.verifyVotes_eq_ok.mp votes⟩
  · intro fresh
    obtain rfl := List.mem_singleton.mp kept
    exact absurd ⟨car [3],rfl,rfl⟩ fresh

open SmallLanes in
/-- The leader does not ask whether the validator of a lane is known. One vote is enough here for
the data proposal to go in the cut, which every follower rejects. -/
theorem not_acceptedCut :
    (run voters unknownLane).handleQuerynewcut voters aloneBonded=some [car [9]] ∧
    ¬AcceptedCut voters.crypto.toBlst follower [car [9]] := by
  refine ⟨by decide +kernel,?_⟩
  intro h
  have passed := h.verified { (Inhabited.default : ConsensusProposal) with cut := [car [9]] } rfl
  have lane := (BFTRoundState.verifyPoda_eq_ok.mp passed).2 _ (List.mem_singleton_self _)
  exact absurd (BFTRoundState.verifyLane_eq_ok.mp lane).1 (by decide +kernel)

end Mempool

end TruthSeeker
