import Mathlib.Algebra.BigOperators.Group.List.Basic
import Mathlib.Data.BitVec
import TruthSeeker.Staking.BlockActions

namespace TruthSeeker

open Outcome

namespace Staking

variable {self next : Staking} {entry : Identity × StakingAction}
  {actions : List (Identity × StakingAction)}

section Failing
variable {α : Type} {process : Staking → α → Outcome Unit × Staking}

theorem processEach_cons {a : α} {entries : List α} {mid : Staking}
    (h : process self a=(.ok (),mid)) :
    processEach process (a::entries) self=processEach process entries mid := by
  simp only [processEach,h]

/-- An entry that fails leaves the state as it is. -/
def FailsClean (process : Staking → α → Outcome Unit × Staking) : Prop :=
  ∀ self a fault,(process self a).1=.error fault → (process self a).2=self

/-- The entries fail where the first of them fails, with the state that those before it left. -/
theorem processEach_of_error {entries : List α} {fault : Fault} (clean : FailsClean process)
    (h : (processEach process entries self).1=.error fault) :
    ∃ before a after,entries=before++a::after ∧
      processEach process before self=(.ok (),(processEach process entries self).2) ∧
      (process (processEach process entries self).2 a).1=.error fault := by
  induction entries generalizing self with
  | nil => cases h
  | cons a entries ih =>
    rcases ha : process self a with ⟨fault'|u,mid⟩
    · have stopped : processEach process (a::entries) self=(.error fault',mid) := by
        simp only [processEach,ha]
      have same : mid=self := by
        have kept := clean self a fault' (by rw [ha])
        rwa [ha] at kept
      subst same
      rw [stopped] at h ⊢
      exact ⟨[],a,entries,rfl,rfl,by rw [ha]; exact h⟩
    · rw [processEach_cons ha] at h ⊢
      obtain ⟨before,b,after,rfl,passed,fails⟩ := ih h
      refine ⟨a::before,b,after,rfl,?_,fails⟩
      rwa [processEach_cons ha]

theorem failsClean_applied {β : Type} {f : Staking → β → Except String Staking} :
    FailsClean fun self b => self.applied (f self b) := by
  intro self b fault h
  cases hf : f self b with
  | error e => simp [applied,hf]
  | ok next => simp [applied,hf] at h

theorem failsClean_processAction : FailsClean processAction := by
  intro self entry fault h
  obtain ⟨staker,amount|validator|claim|⟨holder,amount⟩⟩ := entry
  · exact failsClean_applied (f := fun self (_ : Unit) => (self.stake staker amount).map Prod.snd)
      self () fault h
  · exact failsClean_applied
      (f := fun self (_ : Unit) => (self.delegateTo staker validator).map Prod.snd) self () fault h
  · rfl
  · cases h

end Failing

section Deposits

/-- What the actions deposit for a holder, as the accounts add it up. -/
def deposited (actions : List (Identity × StakingAction)) (v : ValidatorPublicKey) : I128 :=
  (actions.map fun
    | (_,.depositForFees holder amount) => if holder=v then amount else 0
    | _ => 0).sum

/-- The actions are deposits to accounts that are there, and add up to nothing. -/
structure Idle (staking : Staking) (actions : List (Identity × StakingAction)) : Prop where
  deposits : ∀ entry ∈ actions,∃ holder amount,entry.2=.depositForFees holder amount
  accounts : ∀ v ∈ depositors actions,staking.fees.balances.contains v=true
  balanced : ∀ v,deposited actions v=0

theorem getElem?_credit {balances : Balances} {holder v : ValidatorPublicKey} {amount : I128} :
    (Fees.credit balances holder amount)[v]?=
      if v=holder then some ⟨(balances.getD v ⟨0,0⟩).balance+amount,
        (balances.getD v ⟨0,0⟩).paidCumulSize⟩ else balances[v]? := by
  unfold Fees.credit
  rw [Std.ExtTreeMap.getElem?_insert]
  by_cases same : v=holder
  · subst same
    simp
  · have apart : compare holder v≠.eq := fun eq => same (Std.LawfulEqCmp.eq_of_compare eq).symm
    rw [if_neg apart,if_neg same]

theorem deposited_of_notMem {v : ValidatorPublicKey} (h : v∉depositors actions) :
    deposited actions v=0 := by
  refine List.sum_eq_zero ?_
  intro amount hm
  obtain ⟨⟨staker,action⟩,he,rfl⟩ := List.mem_map.mp hm
  cases action with
  | depositForFees holder amount =>
    refine if_neg ?_
    rintro rfl
    exact h (List.mem_filterMap.mpr ⟨_,he,rfl⟩)
  | stake amount => rfl
  | delegate validator => rfl
  | distribute claim => rfl

/-- Deposits never fail, and add to the accounts of their holders. -/
theorem processEach_deposits
    (h : ∀ entry ∈ actions,∃ holder amount,entry.2=.depositForFees holder amount) :
    ∃ balances : Balances,processEach processAction actions self=
        (.ok (),{ self with fees := ⟨self.fees.pendingFees,balances⟩ }) ∧
      ∀ v : ValidatorPublicKey,balances[v]?=if v ∈ depositors actions then
        some ⟨(self.fees.balances.getD v ⟨0,0⟩).balance+deposited actions v,
          (self.fees.balances.getD v ⟨0,0⟩).paidCumulSize⟩ else self.fees.balances[v]? := by
  induction actions generalizing self with
  | nil => exact ⟨self.fees.balances,rfl,by simp [depositors]⟩
  | cons entry actions ih =>
    obtain ⟨staker,action⟩ := entry
    obtain ⟨⟨holder,amount,he⟩,rest⟩ := List.forall_mem_cons.mp h
    obtain rfl : action=.depositForFees holder amount := he
    obtain ⟨balances,processed,accounts⟩ := @ih (self.depositForFees holder amount) rest
    refine ⟨balances,processed,?_⟩
    intro v
    have listed : v ∈ depositors ((staker,.depositForFees holder amount)::actions) ↔
        v=holder ∨ v ∈ depositors actions := List.mem_cons
    have added : deposited ((staker,.depositForFees holder amount)::actions) v=
        (if holder=v then amount else 0)+deposited actions v := rfl
    have credited : (self.depositForFees holder amount).fees.balances=
        Fees.credit self.fees.balances holder amount := rfl
    rw [accounts,credited,Std.ExtTreeMap.getD_eq_getD_getElem?,getElem?_credit,added]
    by_cases here : v=holder
    · subst here
      rw [if_pos (listed.mpr (Or.inl rfl)),if_pos rfl,if_pos rfl]
      split_ifs with later
      · simp [BitVec.add_assoc]
      · simp [deposited_of_notMem later]
    · rw [if_neg here,if_neg (Ne.symm here)]
      simp only [listed,here,false_or]
      rw [← Std.ExtTreeMap.getD_eq_getD_getElem?]
      simp

/-- Idle actions are processed without a trace. -/
theorem processEach_idle (h : self.Idle actions) :
    processEach processAction actions self=(.ok (),self) := by
  obtain ⟨balances,processed,accounts⟩ := @processEach_deposits self actions h.deposits
  obtain rfl : balances=self.fees.balances := by
    apply Std.ExtTreeMap.ext_getElem?
    intro v
    rw [accounts,h.balanced]
    split_ifs with hv
    · have known := h.accounts v hv
      rw [Std.ExtTreeMap.contains_eq_isSome_getElem?,Option.isSome_iff_exists] at known
      obtain ⟨state,hs⟩ := known
      simp [Std.ExtTreeMap.getD_eq_getD_getElem?,hs]
    · rfl
  exact processed

/-- Everyone who has staked or delegated still has. -/
def Grows (before after : Staking) : Prop :=
  (∀ staker,before.stakes.contains staker=true → after.stakes.contains staker=true) ∧
    ∀ staker,before.Delegating staker → after.Delegating staker

theorem grows_processAction : Grows self (self.processAction entry).2 := by
  have refused (h : (self.processAction entry).1≠.ok ()) : Grows self (self.processAction entry).2 := by
    rcases he : (self.processAction entry).1 with fault|u
    · rw [failsClean_processAction self entry fault he]
      exact ⟨fun _ => id,fun _ => id⟩
    · exact absurd he h
  obtain ⟨staker,amount|validator|claim|⟨holder,amount⟩⟩ := entry
  · cases hs : self.stakes.contains staker with
    | true => exact refused (processAction_staked hs)
    | false =>
      rw [processAction_stake hs]
      exact ⟨fun other ho => by simp [ho],fun _ => id⟩
  · by_cases hd : self.Delegating staker
    · exact refused (processAction_delegating hd)
    · rw [processAction_delegate hd]
      exact ⟨fun _ => id,fun other ho => (delegating_insert rfl).mpr (Or.inl ho)⟩
  · exact ⟨fun _ => id,fun _ => id⟩
  · exact ⟨fun _ => id,fun _ => id⟩

theorem grows_processEach : Grows self (processEach processAction actions self).2 :=
  processEach_keeps (R := Grows) (fun _ => ⟨fun _ => id,fun _ => id⟩)
    (fun _ _ _ h h' => ⟨fun s hs => h'.1 s (h.1 s hs),fun s hs => h'.2 s (h.2 s hs)⟩)
    fun _ _ => grows_processAction

theorem contains_of_stake {staker : Identity} {amount : U128}
    (h : (self.processAction (staker,.stake amount)).1=.ok ()) :
    (self.processAction (staker,.stake amount)).2.stakes.contains staker=true := by
  cases hs : self.stakes.contains staker with
  | true => exact absurd h (processAction_staked hs)
  | false =>
    rw [processAction_stake hs]
    simp

theorem delegating_of_delegate {staker : Identity} {validator : ValidatorPublicKey}
    (h : (self.processAction (staker,.delegate validator)).1=.ok ()) :
    (self.processAction (staker,.delegate validator)).2.Delegating staker := by
  have fresh : ¬self.Delegating staker := fun hd => processAction_delegating hd h
  rw [processAction_delegate fresh]
  exact (delegating_insert rfl).mpr (Or.inr rfl)

/-- Actions that leave no trace are idle: who stakes or delegates cannot take it back. -/
theorem idle_of_processEach (h : processEach processAction actions self=(.ok (),self)) :
    self.Idle actions := by
  have accepts := processEach_processAction_eq_ok.mp (congrArg Prod.fst h)
  have deposits : ∀ entry ∈ actions,∃ holder amount,entry.2=.depositForFees holder amount := by
    intro entry he
    obtain ⟨before,after,rfl⟩ := List.append_of_mem he
    -- The entry leaves a mark, which the later ones keep.
    have passed := processEach_of_append (congrArg Prod.fst h)
    rcases hb : processEach processAction before self with ⟨fault|u,mid⟩
    · rw [hb] at passed
      cases passed
    rw [processEach_append hb] at h
    have first : (mid.processAction entry).1=.ok () := by
      have rest := processEach_processAction_eq_ok.mp (congrArg Prod.fst h)
      exact (accepts_cons.mp rest).1
    have later : Grows (mid.processAction entry).2 self := by
      have grows : Grows (mid.processAction entry).2
          (processEach processAction after (mid.processAction entry).2).2 := grows_processEach
      rcases hm : mid.processAction entry with ⟨fault|u,next⟩
      · rw [hm] at first
        cases first
      · rw [hm] at grows
        simp only [processEach,hm] at h
        rwa [h] at grows
    obtain ⟨staker,amount|validator|claim|⟨holder,amount⟩⟩ := entry
    · have listed : staker ∈ stakersOf (before++(staker,.stake amount)::after) :=
        List.mem_filterMap.mpr ⟨_,he,rfl⟩
      have marked := later.1 staker (contains_of_stake first)
      rw [accepts.stakes staker listed] at marked
      cases marked
    · have listed : staker ∈ delegatorsOf (before++(staker,.delegate validator)::after) :=
        List.mem_filterMap.mpr ⟨_,he,rfl⟩
      exact absurd (later.2 staker (delegating_of_delegate first)) (accepts.delegates staker listed)
    · exact absurd rfl (accepts.unclaimed _ he claim)
    · exact ⟨holder,amount,rfl⟩
  obtain ⟨balances,processed,accounts⟩ := processEach_deposits deposits
  have same : balances=self.fees.balances := by
    have equal := congrArg (fun result => result.2.fees.balances) (processed.symm.trans h)
    exact equal
  subst same
  have known : ∀ v ∈ depositors actions,self.fees.balances[v]?=
      some ⟨(self.fees.balances.getD v ⟨0,0⟩).balance+deposited actions v,
        (self.fees.balances.getD v ⟨0,0⟩).paidCumulSize⟩ := by
    intro v hv
    rw [accounts v,if_pos hv]
  refine ⟨deposits,?_,?_⟩
  · intro v hv
    rw [Std.ExtTreeMap.contains_eq_isSome_getElem?,known v hv]
    rfl
  · intro v
    by_cases hv : v ∈ depositors actions
    · have balance := known v hv
      cases hs : self.fees.balances[v]? with
      | none => simp [hs] at balance
      | some state =>
        simp only [hs,Std.ExtTreeMap.getD_eq_getD_getElem?,Option.getD_some,Option.some.injEq]
          at balance
        have equal := congrArg ValidatorFeeState.balance balance
        simpa using equal.symm
    · exact deposited_of_notMem hv

end Deposits

section Bonds

/-- What somebody stakes in the actions, if anything. -/
def newStake (actions : List (Identity × StakingAction)) (staker : Identity) : Option U128 :=
  actions.findSome? fun
    | (other,.stake amount) => if other=staker then some amount else none
    | _ => none

def newDelegators (actions : List (Identity × StakingAction)) (v : ValidatorPublicKey) :
    List Identity :=
  actions.filterMap fun
    | (staker,.delegate validator) => if validator=v then some staker else none
    | _ => none

/-- The stake of a validator with all that the actions add to it. -/
def stakeWith (staking : Staking) (actions : List (Identity × StakingAction))
    (v : ValidatorPublicKey) : U128 :=
  ((staking.delegations.getD v []++newDelegators actions v).map fun staker =>
    (staking.stakes[staker]?.or (newStake actions staker)).getD 0).sum

/-- All entries of the block can be applied. -/
structure Applies (staking : Staking) (block : Block) : Prop where
  accepts : staking.Accepts block.stakingActions
  fresh : ∀ v ∈ block.newBoundedValidators,v∉staking.bonded
  staked : ∀ v ∈ block.newBoundedValidators,¬staking.stakeWith block.stakingActions v<MIN_STAKE
  distinct : block.newBoundedValidators.Nodup

theorem stakes_processAction (h : (self.processAction entry).1=.ok ()) (staker : Identity) :
    (self.processAction entry).2.stakes[staker]?=
      self.stakes[staker]?.or (newStake [entry] staker) := by
  obtain ⟨other,amount|validator|claim|⟨holder,amount⟩⟩ := entry
  · have fresh : self.stakes.contains other=false := by
      rw [← Bool.not_eq_true]
      exact fun hs => processAction_staked hs h
    rw [processAction_stake fresh,Std.ExtTreeMap.getElem?_insert]
    by_cases same : other=staker
    · subst same
      have none : self.stakes[other]?=none := by
        rwa [Std.ExtTreeMap.contains_eq_isSome_getElem?,Option.isSome_eq_false_iff,
          Option.isNone_iff_eq_none] at fresh
      simp [none,newStake]
    · have apart : compare other staker≠.eq := fun eq => same (Std.LawfulEqCmp.eq_of_compare eq)
      simp [apart,same,newStake]
  · have fresh : ¬self.Delegating other := fun hd => processAction_delegating hd h
    rw [processAction_delegate fresh]
    simp [newStake]
  · cases h
  · simp [processAction,depositForFees,newStake]

theorem delegations_processAction (h : (self.processAction entry).1=.ok ())
    (v : ValidatorPublicKey) : (self.processAction entry).2.delegations.getD v []=
      self.delegations.getD v []++newDelegators [entry] v := by
  obtain ⟨staker,amount|validator|claim|⟨holder,amount⟩⟩ := entry
  · have fresh : self.stakes.contains staker=false := by
      rw [← Bool.not_eq_true]
      exact fun hs => processAction_staked hs h
    rw [processAction_stake fresh]
    simp [newDelegators]
  · have fresh : ¬self.Delegating staker := fun hd => processAction_delegating hd h
    rw [processAction_delegate fresh,Std.ExtTreeMap.getD_insert]
    by_cases same : validator=v
    · subst same
      simp [newDelegators]
    · have apart : compare validator v≠.eq := fun eq => same (Std.LawfulEqCmp.eq_of_compare eq)
      simp [apart,same,newDelegators]
  · cases h
  · simp [processAction,depositForFees,newDelegators]

/-- The stakes and delegations after actions that could all be processed. -/
theorem processEach_fields (h : processEach processAction actions self=(.ok (),next)) :
    (∀ staker : Identity,next.stakes[staker]?=self.stakes[staker]?.or (newStake actions staker)) ∧
      ∀ v,next.delegations.getD v []=self.delegations.getD v []++newDelegators actions v := by
  induction actions generalizing self with
  | nil =>
    obtain rfl : self=next := congrArg Prod.snd h
    simp [newStake,newDelegators]
  | cons entry actions ih =>
    have head : (self.processAction entry).1=.ok () :=
      (accepts_cons.mp (processEach_processAction_eq_ok.mp (congrArg Prod.fst h))).1
    have stakes := stakes_processAction head
    have delegations := delegations_processAction head
    rcases hs : self.processAction entry with ⟨fault|u,mid⟩
    · rw [hs] at head
      cases head
    · rw [processEach_cons hs] at h
      rw [hs] at stakes delegations
      obtain ⟨stakes',delegations'⟩ := ih h
      constructor
      · intro staker
        rw [stakes',stakes,Option.or_assoc]
        congr 1
        exact (List.findSome?_append ..).symm
      · intro v
        rw [delegations',delegations,List.append_assoc]
        congr 1
        exact (List.filterMap_append ..).symm

/-- The stake of a validator suffices if and only if it does with all that the actions add. -/
theorem bondable_iff (h : processEach processAction actions self=(.ok (),next))
    {v : ValidatorPublicKey} :
    next.Bondable v ↔ v∉self.bonded ∧ ¬self.stakeWith actions v<MIN_STAKE := by
  obtain ⟨stakes,delegations⟩ := processEach_fields h
  have bonded : next.bonded=self.bonded := by
    have kept : (processEach processAction actions self).2.bonded=self.bonded :=
      bonded_processEach
    rwa [h] at kept
  have total : self.stakeWith actions v=(next.getStake v).getD 0 := by
    unfold stakeWith getStake
    rw [← delegations,Std.ExtTreeMap.getD_eq_getD_getElem?]
    cases next.delegations[v]? with
    | none => rfl
    | some delegators =>
      simp only [Option.getD_some,Option.map_some]
      congr 2
      funext staker
      rw [Std.ExtTreeMap.getD_eq_getD_getElem?,stakes]
  unfold Bondable
  rw [bonded,total]
  cases next.getStake v with
  | none => simp [MIN_STAKE]
  | some stake => simp

/-- The bonds of a block. -/
abbrev bondEach : List ValidatorPublicKey → Staking → Outcome Unit × Staking :=
  processEach fun self validator => self.applied (self.bond validator)

theorem bondEach_cons {v : ValidatorPublicKey} {vs : List ValidatorPublicKey}
    (h : self.Bondable v) : bondEach (v::vs) self=bondEach vs (self.bonding v) := by
  have goes : self.applied (self.bond v)=(.ok (),self.bonding v) := by
    rw [bond_of_bondable h]
    rfl
  exact processEach_cons goes

theorem bondEach_eq_ok {vs : List ValidatorPublicKey} :
    (bondEach vs self).1=.ok () ↔ (∀ v ∈ vs,self.Bondable v) ∧ vs.Nodup := by
  induction vs generalizing self with
  | nil => simp [bondEach,processEach]
  | cons v vs ih =>
    rw [bondable_cons]
    by_cases bondable : self.Bondable v
    · rw [bondEach_cons bondable,ih]
      exact (and_iff_right bondable).symm
    · have fails : (self.applied (self.bond v)).1≠.ok () :=
        fun h => bondable (applied_bond_eq_ok.mp h)
      simp only [bondable,false_and,iff_false,bondEach,processEach]
      split
      · next hs => exact absurd (congrArg Prod.fst hs) fails
      · exact fails

/-- Bonded validators remain so. -/
theorem bondEach_keeps {vs : List ValidatorPublicKey} :
    ∀ v ∈ self.bonded,v ∈ (bondEach vs self).2.bonded :=
  processEach_keeps (R := fun before after : Staking => ∀ v ∈ before.bonded,v ∈ after.bonded)
    (fun _ _ => id) (fun _ _ _ h h' v hv => h' v (h v hv)) fun self v w hw => by
      cases hb : self.bond v with
      | error e => simpa [applied] using hw
      | ok next =>
        rw [bond_of_bondable (bondable_of_bond hb)] at hb
        obtain rfl := Except.ok.inj hb
        exact mem_bonded_bonding.mpr (Or.inl hw)

end Bonds

/-- The block is applied as a whole, or refused with an error and without a trace. -/
def AllOrNothing (before : Staking) (result : Outcome Unit × Staking) : Prop :=
  match result.1 with
  | .ok () => True
  | .error (.err _) => result.2=before
  | .error (.panic _) => False

/-- Somebody stakes or delegates a second time. -/
def Refuses (self : Staking) : Identity × StakingAction → Prop
  | (staker,.stake _) => self.stakes.contains staker=true
  | (staker,.delegate _) => self.Delegating staker
  | _ => False

theorem refuses_iff : self.Refuses entry ↔ ∃ e,(self.processAction entry).1=.error (.err e) := by
  obtain ⟨staker,amount|validator|claim|⟨holder,amount⟩⟩ := entry
  · cases hs : self.stakes.contains staker with
    | true => simp [Refuses,hs,processAction,stake,applied,Except.map,err]
    | false => simp [Refuses,hs,processAction_stake hs]
  · by_cases hd : self.Delegating staker
    · have known := any_contains_iff.mpr hd
      simp only [Refuses,hd,processAction,delegateTo,if_pos known]
      simp [applied,Except.map,err]
    · simp [Refuses,hd,processAction_delegate hd]
  · simp [Refuses,processAction,Outcome.panic]
  · simp [Refuses,processAction]

/-- All entries of the block can be applied, or the first that cannot is refused, and all before
it are deposits that add up to nothing. -/
inductive AppliesOrRefuses (self : Staking) (block : Block) : Prop
  | applies (h : self.Applies block)
  | action (before after : List (Identity × StakingAction)) (entry : Identity × StakingAction)
      (hs : block.stakingActions=before++entry::after) (idle : self.Idle before)
      (hr : self.Refuses entry)
  | bond (v : ValidatorPublicKey) (vs : List ValidatorPublicKey)
      (hv : block.newBoundedValidators=v::vs) (idle : self.Idle block.stakingActions)
      (hb : ¬self.Bondable v)

theorem applies_iff {block : Block} : self.Applies block ↔ (self.processBlock block).1=.ok () := by
  unfold processBlock
  rcases hs : processEach processAction block.stakingActions self with ⟨fault|u,next⟩
  · refine iff_of_false (fun h => ?_) (by simp)
    have accepted := processEach_processAction_eq_ok.mpr h.accepts
    rw [hs] at accepted
    cases accepted
  · have accepts := processEach_processAction_eq_ok.mp (congrArg Prod.fst hs)
    have bonds : (bondEach block.newBoundedValidators next).1=.ok () ↔
        (∀ v ∈ block.newBoundedValidators,v∉self.bonded ∧
          ¬self.stakeWith block.stakingActions v<MIN_STAKE) ∧
          block.newBoundedValidators.Nodup := by
      rw [bondEach_eq_ok]
      simp only [bondable_iff hs]
    refine Iff.trans ?_ bonds.symm
    constructor
    · intro h
      exact ⟨fun v hv => ⟨h.fresh v hv,h.staked v hv⟩,h.distinct⟩
    · rintro ⟨each,distinct⟩
      exact ⟨accepts,fun v hv => (each v hv).1,fun v hv => (each v hv).2,distinct⟩

/-- A refused block leaves the state as it was only if the entries before the refused one leave
no trace. -/
theorem appliesOrRefuses_of_error {block : Block} {e : String}
    (h : self.processBlock block=(.error (.err e),self)) : self.AppliesOrRefuses block := by
  unfold processBlock at h
  rcases hs : processEach processAction block.stakingActions self with ⟨fault|u,next⟩
  · rw [hs] at h
    obtain ⟨hf,rfl⟩ := Prod.mk.inj h
    obtain ⟨before,entry,after,split,passed,fails⟩ :=
      processEach_of_error failsClean_processAction (congrArg Prod.fst hs)
    rw [hs] at passed fails
    rw [hf] at fails
    exact .action before after entry split (idle_of_processEach passed) (refuses_iff.mpr ⟨e,fails⟩)
  · rw [hs] at h
    change bondEach block.newBoundedValidators next=(.error (.err e),self) at h
    obtain ⟨before,v,after,split,passed,fails⟩ := processEach_of_error
      (failsClean_applied (f := bond)) (congrArg Prod.fst h)
    change bondEach before next=(.ok (),(bondEach block.newBoundedValidators next).2) at passed
    change ((bondEach block.newBoundedValidators next).2.applied
      ((bondEach block.newBoundedValidators next).2.bond v)).1=_ at fails
    rw [h] at passed fails
    have bonded : next.bonded=self.bonded := by
      have kept : (processEach processAction block.stakingActions self).2.bonded=self.bonded :=
        bonded_processEach
      rwa [hs] at kept
    cases before with
    | nil =>
      obtain rfl : next=self := congrArg Prod.snd passed
      refine .bond v after split (idle_of_processEach hs) fun bondable => ?_
      rw [applied_bond_eq_ok.mpr bondable] at fails
      cases fails
    | cons w ws =>
      -- The first validator would have been bonded before.
      have bondable : next.Bondable w :=
        (bondEach_eq_ok.mp (congrArg Prod.fst passed)).1 w List.mem_cons_self
      rw [bondEach_cons bondable] at passed
      have kept : w ∈ (bondEach ws (next.bonding w)).2.bonded :=
        bondEach_keeps w (mem_bonded_bonding.mpr (Or.inr rfl))
      rw [passed,← bonded] at kept
      exact absurd kept bondable.1

/-- A block of staking actions is applied as a whole, or refused without a trace, exactly under
the condition. -/
theorem allOrNothing_iff (self : Staking) (block : Block) :
    self.AllOrNothing (self.processBlock block) ↔ self.AppliesOrRefuses block := by
  constructor
  · intro h
    unfold AllOrNothing at h
    rcases hr : (self.processBlock block).1 with ⟨e|message⟩|u
    · rw [hr] at h
      exact appliesOrRefuses_of_error (Prod.ext hr h)
    · rw [hr] at h
      exact h.elim
    · exact .applies (applies_iff.mpr hr)
  · intro h
    cases h with
    | applies h =>
      unfold AllOrNothing
      rw [applies_iff.mp h]
      trivial
    | action before after entry hs idle hr =>
      obtain ⟨e,fails⟩ := refuses_iff.mp hr
      have kept := failsClean_processAction self entry _ fails
      have stopped : self.processBlock block=(.error (.err e),self) := by
        unfold processBlock
        rw [hs,processEach_append (processEach_idle idle)]
        simp only [processEach]
        rw [show self.processAction entry=(.error (.err e),self) from Prod.ext fails kept]
      rw [stopped]
      rfl
    | bond v vs hv idle hb =>
      cases hr : self.bond v with
      | ok next => exact absurd (bondable_of_bond hr) hb
      | error e =>
        have stopped : self.processBlock block=(.error (.err e),self) := by
          unfold processBlock
          rw [processEach_idle idle,hv]
          simp only [processEach,hr,applied,err]
        rw [stopped]
        rfl

/-- A block with these staking actions and nothing else. -/
def stakingBlock (stakingActions : List (Identity × StakingAction)) : Block where
  parentHash := ""
  hash := ""
  blockHeight := 1
  blockTimestamp := 0
  dpParentHashes := ∅
  laneIds := ∅
  successfulTxs := []
  failedTxs := []
  timedOutTxs := []
  droppedDuplicateTxs := []
  blobProofOutputs := []
  verifiedBlobs := []
  newBoundedValidators := []
  stakingActions := stakingActions
  registeredContracts := ∅
  deletedContracts := ∅
  updatedStates := ∅
  updatedProgramIds := ∅
  updatedTimeoutWindows := ∅
  transactionsEvents := ∅
  txs := []

/-- Who stakes twice has staked once when the block is refused. A claim is a panic. -/
theorem not_allOrNothing_twice :
    ¬Staking.new.AllOrNothing
      (Staking.new.processBlock (stakingBlock [("a",.stake 100),("a",.stake 100)])) ∧
    ¬Staking.new.AllOrNothing (Staking.new.processBlock (stakingBlock [("a",.distribute ⟨[]⟩)])) := by
  constructor
  · intro h
    have refused : (Staking.new.processBlock
        (stakingBlock [("a",.stake 100),("a",.stake 100)])).1.toBool=false := by
      decide +kernel
    have staked : (Staking.new.processBlock
        (stakingBlock [("a",.stake 100),("a",.stake 100)])).2.stakes.contains "a"=true := by
      decide +kernel
    unfold AllOrNothing at h
    split at h
    · next hr =>
      rw [hr] at refused
      cases refused
    · rw [h] at staked
      simp [new] at staked
    · exact h
  · exact id

end Staking

end TruthSeeker
