import Mathlib.Algebra.BigOperators.Group.List.Basic
import Mathlib.Data.BitVec
import TruthSeeker.Staking.State

namespace TruthSeeker

namespace Staking

section Power
variable (self : Staking)

/-- The stake behind a validator, zero if nobody has delegated to it. -/
def power (validator : ValidatorPublicKey) : U128 := (self.getStake validator).getD 0

theorem computeVotingPower_eq (validators : List ValidatorPublicKey) :
    self.computeVotingPower validators=(validators.dedup.map self.power).sum := by
  unfold computeVotingPower
  induction validators.dedup with
  | nil => rfl
  | cons v vs ih =>
    cases hv : self.getStake v with
    | none => simp [power,hv,ih]
    | some stake => simp [power,hv,ih]

/-- The power of validators does not depend on how often or in which order they are listed. -/
theorem computeVotingPower_congr {validators validators' : List ValidatorPublicKey}
    (h : ∀ v,v∈validators ↔ v∈validators') :
    self.computeVotingPower validators=self.computeVotingPower validators' := by
  have perm : validators.dedup.Perm validators'.dedup := by
    rw [List.perm_ext_iff_of_nodup (List.nodup_dedup _) (List.nodup_dedup _)]
    intro v
    rw [List.mem_dedup,List.mem_dedup,h]
  rw [computeVotingPower_eq,computeVotingPower_eq,(perm.map self.power).sum_eq]

/-- The cached total is the power that the bonded validators can vote with. -/
structure Accounted (staking : Staking) : Prop where
  nodup : staking.bonded.Nodup
  totalBond : staking.totalBond=(staking.bonded.map staking.power).sum

variable {self}

theorem Accounted.totalBond_eq (h : self.Accounted) :
    self.totalBond=self.computeVotingPower self.bonded := by
  rw [h.totalBond,computeVotingPower_eq,h.nodup.dedup]

theorem accounted_new : new.Accounted where
  nodup := List.nodup_nil
  totalBond := rfl

/-- What keeps the bonded validators and their power keeps the account. -/
theorem Accounted.of_power {next : Staking} (h : self.Accounted)
    (hb : next.bonded=self.bonded) (ht : next.totalBond=self.totalBond)
    (hp : ∀ v ∈ self.bonded,next.power v=self.power v) : next.Accounted where
  nodup := by
    rw [hb]
    exact h.nodup
  totalBond := by
    rw [hb,ht,h.totalBond]
    exact (congrArg List.sum (List.map_congr_left hp)).symm

theorem Accounted.bond {next : Staking} {validator : ValidatorPublicKey} (h : self.Accounted)
    (hb : self.bond validator=.ok next) : next.Accounted := by
  unfold Staking.bond at hb
  split_ifs at hb with known
  cases hs : self.getStake validator with
  | none => simp [hs] at hb
  | some stake =>
    simp only [hs] at hb
    split_ifs at hb
    obtain rfl := Except.ok.inj hb
    have fresh : validator∉self.bonded := by
      simpa [isBonded] using known
    have perm : ((self.bonded++[validator]).mergeSort fun v w => (compare v w).isLE).Perm
        (self.bonded++[validator]) := List.mergeSort_perm _ _
    constructor
    · rw [perm.nodup_iff,List.nodup_append]
      refine ⟨h.nodup,List.nodup_singleton validator,?_⟩
      intro v hv w hw
      obtain rfl := List.mem_singleton.mp hw
      exact fun eq => fresh (eq ▸ hv)
    · have sums := (perm.map self.power).sum_eq
      have last : self.power validator=stake := by simp [power,hs]
      rw [List.map_append,List.sum_append,← h.totalBond] at sums
      simp only [List.map_cons,List.map_nil,List.sum_cons,List.sum_nil,add_zero,last] at sums
      exact sums.symm

end Power

/-- A call of the staking state. -/
inductive Operation where
  | stake (staker : Identity) (amount : U128)
  | delegateTo (staker : Identity) (validator : ValidatorPublicKey)
  | bond (validator : ValidatorPublicKey)
  | depositForFees (holder : ValidatorPublicKey) (amount : U128)
  | payForDadi (laneId : LaneId) (cumulSize : LaneBytesSize)
  | distribute
  | processBlock (block : Block)

/-- The state after the call, whether it has failed or not. -/
def call (self : Staking) : Operation → Staking
  | .stake staker amount => (self.applied ((self.stake staker amount).map Prod.snd)).2
  | .delegateTo staker validator =>
      (self.applied ((self.delegateTo staker validator).map Prod.snd)).2
  | .bond validator => (self.applied (self.bond validator)).2
  | .depositForFees holder amount => self.depositForFees holder amount
  | .payForDadi laneId cumulSize => self.payForDadi laneId cumulSize
  | .distribute => self.distribute.2
  | .processBlock block => (self.processBlock block).2

/-- The state after a sequence of calls. -/
def run (operations : List Operation) : Staking := operations.foldl call new

section Quiet
variable (self : Staking)

/-- The new stake stands behind no bonded validator. -/
def QuietStake (staker : Identity) (amount : U128) : Prop :=
  self.stakes.contains staker=true ∨ amount=0 ∨
    ∀ validator ∈ self.bonded,staker∉self.delegations.getD validator []

/-- The new delegation gives no stake to a bonded validator. -/
def QuietDelegation (staker : Identity) (validator : ValidatorPublicKey) : Prop :=
  (∃ p ∈ self.delegations.toList,staker∈p.2) ∨ self.stakes.getD staker 0=0 ∨
    validator∉self.bonded

def QuietAction (entry : Identity × StakingAction) : Prop :=
  match entry.2 with
  | .stake amount => self.QuietStake entry.1 amount
  | .delegate validator => self.QuietDelegation entry.1 validator
  | .distribute _ => True
  | .depositForFees _ _ => True

/-- Each action is quiet when its turn comes. -/
def QuietActions : List (Identity × StakingAction) → Staking → Prop
  | [],_ => True
  | entry::entries,self =>
      self.QuietAction entry ∧
        ((self.processAction entry).1=.ok () → QuietActions entries (self.processAction entry).2)

/-- The call moves no stake behind a validator that is bonded already. -/
def Quiet : Operation → Prop
  | .stake staker amount => self.QuietStake staker amount
  | .delegateTo staker validator => self.QuietDelegation staker validator
  | .processBlock block => QuietActions block.stakingActions self
  | _ => True

end Quiet

/-- All calls of the sequence are quiet. -/
def QuietRun (operations : List Operation) : Prop :=
  ∀ before operation after,operations=before++operation::after → (run before).Quiet operation

section Step
variable {self : Staking}

theorem accounted_applied {result : Except String Staking} (h : self.Accounted)
    (hr : ∀ next,result=.ok next → next.Accounted) : (self.applied result).2.Accounted := by
  cases result with
  | error e => exact h
  | ok next => exact hr next rfl

theorem Accounted.stake {staker : Identity} {amount : U128} (h : self.Accounted)
    (hq : self.QuietStake staker amount) :
    (self.applied ((self.stake staker amount).map Prod.snd)).2.Accounted := by
  apply accounted_applied h
  intro next hn
  unfold Staking.stake at hn
  split_ifs at hn with staked
  · cases hn
  obtain rfl := Except.ok.inj hn
  refine h.of_power (by rfl) (by rfl) ?_
  intro v hv
  obtain known|rest := hq
  · exact absurd known staked
  unfold power getStake
  dsimp only
  cases hd : self.delegations[v]? with
  | none => rfl
  | some delegators =>
    simp only [Option.map_some,Option.getD_some]
    congr 1
    apply List.map_congr_left
    intro delegator hm
    rw [Std.ExtTreeMap.getD_insert]
    split_ifs with same
    · obtain rfl := Std.LawfulEqOrd.eq_of_compare same
      obtain rfl|apart := rest
      · exact (Std.ExtTreeMap.getD_eq_fallback_of_contains_eq_false (eq_false_of_ne_true staked)).symm
      · have behind := apart v hv
        rw [Std.ExtTreeMap.getD_eq_getD_getElem?,hd] at behind
        exact absurd hm behind
    · rfl

theorem Accounted.delegateTo {staker : Identity} {validator : ValidatorPublicKey}
    (h : self.Accounted) (hq : self.QuietDelegation staker validator) :
    (self.applied ((self.delegateTo staker validator).map Prod.snd)).2.Accounted := by
  apply accounted_applied h
  intro next hn
  unfold Staking.delegateTo at hn
  split_ifs at hn with delegated
  · cases hn
  obtain rfl := Except.ok.inj hn
  refine h.of_power (by rfl) (by rfl) ?_
  intro v hv
  obtain known|rest := hq
  · obtain ⟨p,hp,hm⟩ := known
    exact absurd (List.any_eq_true.mpr ⟨p,hp,by simpa using hm⟩) delegated
  unfold power getStake
  dsimp only
  rw [Std.ExtTreeMap.getElem?_insert]
  split_ifs with same
  · obtain rfl := Std.LawfulEqOrd.eq_of_compare same
    obtain nothing|apart := rest
    · have zero : self.stakes.getD staker 0#128=0#128 := nothing
      rw [Std.ExtTreeMap.getD_eq_getD_getElem?]
      cases self.delegations[validator]? with
      | none => simp [zero]
      | some delegators => simp [zero]
    · exact absurd hv apart
  · rfl

theorem Accounted.processAction {entry : Identity × StakingAction} (h : self.Accounted)
    (hq : self.QuietAction entry) : (self.processAction entry).2.Accounted := by
  obtain ⟨identity,action⟩ := entry
  cases action with
  | stake amount => exact h.stake hq
  | delegate validator => exact h.delegateTo hq
  | distribute claim => exact h
  | depositForFees holder amount => exact h.of_power rfl rfl fun _ _ => rfl

theorem Accounted.processActions {entries : List (Identity × StakingAction)}
    (h : self.Accounted) (hq : QuietActions entries self) :
    (processEach Staking.processAction entries self).2.Accounted := by
  induction entries generalizing self with
  | nil => exact h
  | cons entry entries ih =>
    have head : (self.processAction entry).2.Accounted := h.processAction hq.1
    unfold processEach
    split
    · next next hp =>
      rw [hp] at head
      have tail := hq.2 (congrArg Prod.fst hp)
      rw [hp] at tail
      exact ih head tail
    · exact head

theorem Accounted.bondEach {validators : List ValidatorPublicKey} (h : self.Accounted) :
    (processEach (fun self validator => self.applied (self.bond validator)) validators
      self).2.Accounted := by
  induction validators generalizing self with
  | nil => exact h
  | cons validator validators ih =>
    have head : (self.applied (self.bond validator)).2.Accounted :=
      accounted_applied h fun _ hb => h.bond hb
    unfold processEach
    split
    · next next hp =>
      rw [hp] at head
      exact ih head
    · exact head

/-- A quiet call keeps the account. -/
theorem Accounted.call {operation : Operation} (h : self.Accounted)
    (hq : self.Quiet operation) : (self.call operation).Accounted := by
  cases operation with
  | stake staker amount => exact h.stake hq
  | delegateTo staker validator => exact h.delegateTo hq
  | bond validator => exact accounted_applied h fun _ hb => h.bond hb
  | depositForFees holder amount => exact h.of_power rfl rfl fun _ _ => rfl
  | payForDadi laneId cumulSize => exact h.of_power rfl rfl fun _ _ => rfl
  | distribute => exact h.of_power rfl rfl fun _ _ => rfl
  | processBlock block =>
    have acted := h.processActions hq
    unfold Staking.call processBlock
    dsimp only
    split
    · next next hp =>
      rw [hp] at acted
      exact acted.bondEach
    · exact acted

end Step

theorem quietRun_append_singleton {operations : List Operation} {operation : Operation} :
    QuietRun (operations++[operation]) ↔
      QuietRun operations ∧ (run operations).Quiet operation := by
  constructor
  · intro hq
    refine ⟨?_,hq operations operation [] rfl⟩
    intro before middle after eq
    exact hq before middle (after++[operation]) (by simp [eq])
  · intro hq before middle after eq
    cases after using List.reverseRecOn with
    | nil =>
      obtain ⟨rfl,last⟩ := List.append_inj' eq rfl
      obtain rfl := (List.cons.inj last).1
      exact hq.2
    | append_singleton after last _ =>
      rw [← List.cons_append,← List.append_assoc] at eq
      exact hq.1 before middle after (List.append_inj' eq rfl).1

theorem accounted_run {operations : List Operation} (hq : QuietRun operations) :
    (run operations).Accounted := by
  induction operations using List.reverseRecOn with
  | nil => exact accounted_new
  | append_singleton operations operation ih =>
    obtain ⟨before,last⟩ := quietRun_append_singleton.mp hq
    unfold run
    rw [List.foldl_append]
    exact (ih before).call last

/-- In every state of a run of quiet calls, the cached total is the power of the bonded
validators, and a third of it is what the quorums are computed from. -/
theorem totalBond_run (operations : List Operation) (hq : QuietRun operations) :
    ∀ before after,operations=before++after →
      (run before).totalBond=(run before).computeVotingPower (run before).bonded ∧
      (run before).computeF=(run before).computeVotingPower (run before).bonded/3 := by
  intro before after eq
  have quiet : QuietRun before := by
    intro start operation rest hs
    exact hq start operation (rest++after) (by simp [eq,hs])
  have total := (accounted_run quiet).totalBond_eq
  exact ⟨total,by rw [computeF,total]⟩

/-- A validator is bonded once its delegator has staked. -/
def honestRun : List Operation :=
  [.stake "alice" 100,.delegateTo "alice" [1],.bond [1]]

theorem totalBond_run_honest :
    (run honestRun).totalBond=(run honestRun).computeVotingPower (run honestRun).bonded ∧
      (run honestRun).computeF=
        (run honestRun).computeVotingPower (run honestRun).bonded/3 := by
  have start : QuietRun [] := by simp [QuietRun]
  have staked : QuietRun ([]++[.stake "alice" 100]) :=
    quietRun_append_singleton.mpr ⟨start,Or.inr (Or.inr (by simp [run,new]))⟩
  have delegated := quietRun_append_singleton.mpr
    ⟨staked,show Quiet _ (.delegateTo "alice" [1]) from Or.inr (Or.inr (by decide +kernel))⟩
  have bonded := quietRun_append_singleton.mpr ⟨delegated,show Quiet _ (.bond [1]) from trivial⟩
  exact totalBond_run honestRun bonded honestRun [] (List.append_nil _).symm

/-- Another delegator of the bonded validator stakes. -/
def lateRun : List Operation := honestRun++[.delegateTo "bob" [1],.stake "bob" 50]

theorem not_totalBond_run :
    ¬∀ operations : List Operation,
      (run operations).totalBond=(run operations).computeVotingPower (run operations).bonded := by
  intro h
  have late := h lateRun
  revert late
  decide +kernel

end Staking

end TruthSeeker
