import TruthSeeker.Consensus.TicketApplication
import TruthSeeker.Staking.BlockActions

namespace TruthSeeker

open Outcome

/-- A block of the committed chain, with the staking actions of its proposal. The validators
that the block bonds are those of the proposal. -/
structure CommittedBlock where
  actions : List ConsensusStakingAction
  block : Block
  bounded : block.newBoundedValidators=bondsOf actions

namespace Staking

/-- The staking of a node that has joined later: it processes the blocks. -/
def catchUp : List CommittedBlock → Staking → Outcome Unit × Staking :=
  processEach fun self entry => self.processBlock entry.block

/-- The staking of a node that follows consensus: it applies the staking actions of each
proposal when it is committed, and processes the blocks some time later. -/
inductive Live (start : Staking) : List CommittedBlock → List CommittedBlock → Staking → Prop
  | start : Live start [] [] start
  | commit {processed outstanding : List CommittedBlock} {self : Staking}
      (live : Live start processed outstanding self) (entry : CommittedBlock) :
      Live start processed (outstanding++[entry]) (applyActions entry.actions self).2
  | block {processed outstanding : List CommittedBlock} {self : Staking} {entry : CommittedBlock}
      (live : Live start processed (entry::outstanding) self) :
      Live start (processed++[entry]) outstanding (self.processBlock entry.block).2

/-- However late the blocks are processed, none of them fails, and a node that has followed
the chain or a part of it, and processed its blocks, has the staking of one that joins later. -/
structure PathIndependent (start : Staking) (chain : List CommittedBlock) : Prop where
  joins : (catchUp chain start).1=.ok ()
  processes : ∀ processed entry outstanding self,
    Live start processed (entry::outstanding) self → processed++entry::outstanding<+:chain →
      (self.processBlock entry.block).1=.ok ()
  agrees : ∀ processed self,Live start processed [] self → processed<+:chain →
    self=(catchUp processed start).2

/-- The validators that the actions bond have the stake, as is verified of a proposal. -/
def Staked (self : Staking) (actions : List ConsensusStakingAction) : Prop :=
  ∀ v ∈ bondsOf actions,∃ stake,self.getStake v=some stake ∧ ¬stake<MIN_STAKE

def HasAccount (self : Staking) (v : ValidatorPublicKey) : Prop :=
  self.fees.balances.contains v=true

/-- The step of the chain from this staking treats both nodes alike: its proposal bonds nobody
and charges nobody, and the staking actions of its block can be processed. -/
structure Harmless (staking : Staking) (entry : CommittedBlock) : Prop where
  unbonded : bondsOf entry.actions=[]
  idle : Fees.Idle (fun v => staking.HasAccount v ∨ v ∈ depositors entry.block.stakingActions)
    staking.bonded (Fees.paidSize staking.fees.balances) staking.HasAccount (paysOf entry.actions)
  accepts : staking.Accepts entry.block.stakingActions

variable {self start : Staking} {chain before after processed outstanding : List CommittedBlock}
  {entry : CommittedBlock}

theorem catchUp_append (h : (catchUp before start).1=.ok ()) :
    catchUp (before++after) start=catchUp after (catchUp before start).2 :=
  processEach_append (Prod.ext h rfl)

theorem catchUp_concat (h : (catchUp before start).1=.ok ()) :
    catchUp (before++[entry]) start=(catchUp before start).2.processBlock entry.block := by
  rw [catchUp_append h]
  simp only [catchUp,processEach]
  rcases (processEach _ before start).2.processBlock entry.block with ⟨fault|u,next⟩ <;> rfl

/-- Processing blocks takes no fee. -/
theorem uncharged_catchUp : Uncharged start (catchUp before start).2 :=
  processEach_keeps (R := Uncharged) (fun _ => .refl) (fun _ _ _ => .trans)
    fun _ _ => uncharged_processBlock

theorem processBlock_harmless (h : self.Harmless entry) :
    self.processBlock entry.block=
      processEach processAction entry.block.stakingActions self :=
  processBlock_of_unbonded (entry.bounded.trans h.unbonded)

theorem processBlock_eq_ok (h : self.Harmless entry) :
    (self.processBlock entry.block).1=.ok () := by
  rw [processBlock_harmless h]
  exact processEach_processAction_eq_ok.mpr h.accepts

/-- The accounts after a block: those before it and the ones that get a deposit. -/
theorem accounts_processBlock (h : self.Harmless entry) {v : ValidatorPublicKey} :
    (self.processBlock entry.block).2.HasAccount v ↔
      self.HasAccount v ∨ v ∈ depositors entry.block.stakingActions := by
  have ok := processEach_processAction_eq_ok.mpr h.accepts
  rw [processBlock_harmless h]
  constructor
  · exact accounts_processEach
  · intro hv
    obtain known|deposited := hv
    · exact uncharged_processEach.accounts v known
    · exact account_of_depositor ok deposited

/-- Every step of the chain is harmless for a node that processes its blocks. -/
def HarmlessChain (start : Staking) (chain : List CommittedBlock) : Prop :=
  ∀ before entry after,chain=before++entry::after → (catchUp before start).2.Harmless entry

/-- The blocks of such a chain are processed, and bond nobody. -/
theorem catchUp_harmless (h : HarmlessChain start chain) (hc : before<+:chain) :
    (catchUp before start).1=.ok () ∧ (catchUp before start).2.bonded=start.bonded := by
  induction before using List.reverseRecOn with
  | nil => exact ⟨rfl,rfl⟩
  | append_singleton before entry ih =>
    obtain ⟨after,hl⟩ := hc
    have step : (catchUp before start).2.Harmless entry :=
      h before entry after (by rw [← hl,List.append_assoc]; rfl)
    obtain ⟨ok,bonded⟩ := ih ⟨entry::after,by rw [← hl,List.append_assoc]; rfl⟩
    rw [catchUp_concat ok]
    refine ⟨processBlock_eq_ok step,?_⟩
    rw [processBlock_harmless step,bonded_processEach]
    exact bonded

theorem processEach_of_unbonded {actions : List ConsensusStakingAction}
    (h : bondsOf actions=[]) : processEach applyAction actions self=(.ok (),
      { self with fees := ⟨self.fees.pendingFees++paysOf actions,self.fees.balances⟩ }) := by
  induction actions generalizing self with
  | nil => simp [processEach,paysOf]
  | cons action actions ih =>
    cases action with
    | bond candidate => cases h
    | payFeesForDaDi laneId cumulSize =>
      refine (ih h).trans ?_
      simp [payForDadi,Fees.payForDadi,paysOf]

/-- A commit that bonds nobody changes the balances at most. -/
theorem applyActions_of_unbonded {actions : List ConsensusStakingAction}
    (h : bondsOf actions=[]) (hp : self.fees.pendingFees=[]) : (applyActions actions self).2=
      { self with fees := ⟨[],
        (Fees.distributeAll self.bonded (paysOf actions) self.fees.balances).2⟩ } := by
  unfold applyActions
  rw [processEach_of_unbonded h,hp]
  rfl

/-- The staking of the node that follows is that of the other one but for empty accounts of
validators that have one later. -/
structure Follows (later : ValidatorPublicKey → Prop) (joined live : Staking) : Prop where
  same : live={ joined with fees := ⟨joined.fees.pendingFees,live.fees.balances⟩ }
  opens : Fees.Opens later joined.fees.balances live.fees.balances

variable {later : ValidatorPublicKey → Prop} {joined live : Staking}

theorem Follows.refl : Follows later joined joined := ⟨rfl,Fees.Opens.refl⟩

theorem Follows.processAction (h : Follows later joined live)
    (action : Identity × StakingAction) :
    (live.processAction action).1=(joined.processAction action).1 ∧
      Follows later (joined.processAction action).2 (live.processAction action).2 := by
  obtain ⟨balances,rfl⟩ : ∃ balances : Balances,
      live={ joined with fees := ⟨joined.fees.pendingFees,balances⟩ } := ⟨_,h.same⟩
  obtain ⟨staker,amount|validator|claim|⟨holder,amount⟩⟩ := action
  · simp only [Staking.processAction,stake]
    split
    · exact ⟨rfl,h⟩
    · exact ⟨rfl,rfl,h.opens⟩
  · simp only [Staking.processAction,delegateTo]
    split
    · exact ⟨rfl,h⟩
    · exact ⟨rfl,rfl,h.opens⟩
  · exact ⟨rfl,h⟩
  · exact ⟨rfl,rfl,h.opens.credit holder amount⟩

theorem Follows.processBlock (h : Follows later joined live) {block : Block}
    (hb : block.newBoundedValidators=[]) :
    (live.processBlock block).1=(joined.processBlock block).1 ∧
      Follows later (joined.processBlock block).2 (live.processBlock block).2 := by
  rw [processBlock_of_unbonded hb,processBlock_of_unbonded hb]
  exact processEach_alike (fun _ _ action alike => alike.processAction action) h

/-- A run of the node that follows a harmless chain, with the balances of one that has
processed all the blocks of the proposals that are committed. -/
theorem follows_of_live (hp : start.fees.pendingFees=[]) (h : HarmlessChain start chain)
    (run : Live start processed outstanding self) (hc : processed++outstanding<+:chain) :
    Follows (catchUp (processed++outstanding) start).2.HasAccount (catchUp processed start).2
      self := by
  induction run with
  | start => exact Follows.refl
  | @commit processed outstanding self run entry ih =>
    obtain ⟨after,hl⟩ := hc
    have chained : chain=(processed++outstanding)++entry::after := by
      rw [← hl]
      simp
    have before : processed++outstanding<+:chain := ⟨entry::after,chained.symm⟩
    have follows := ih before
    have step := h _ entry after chained
    obtain ⟨ok,bonded⟩ := catchUp_harmless h before
    obtain ⟨ok',bonded'⟩ := catchUp_harmless h ((List.prefix_append _ _).trans before)
    have whole : Uncharged start (catchUp (processed++outstanding) start).2 := uncharged_catchUp
    have part : Uncharged start (catchUp processed start).2 := uncharged_catchUp
    have pending : self.fees.pendingFees=[] := by
      rw [follows.same]
      exact part.pending.trans hp
    have who : self.bonded=(catchUp (processed++outstanding) start).2.bonded := by
      rw [follows.same,bonded]
      exact bonded'
    have accounts : (catchUp (processed++(outstanding++[entry])) start).2.HasAccount=
        fun v => (catchUp (processed++outstanding) start).2.HasAccount v ∨
          v ∈ depositors entry.block.stakingActions := by
      funext v
      rw [← List.append_assoc,catchUp_concat ok]
      exact propext (accounts_processBlock step)
    have sizes : ∀ v,Fees.paidSize self.fees.balances v=
        Fees.paidSize (catchUp (processed++outstanding) start).2.fees.balances v := by
      intro v
      rw [follows.opens.paidSize,whole.sizes,part.sizes]
    have kept : ∀ v,self.HasAccount v →
        (catchUp (processed++outstanding) start).2.HasAccount v := by
      intro v hv
      obtain known|known := follows.opens.contains hv
      · rw [catchUp_append ok']
        exact uncharged_catchUp.accounts v known
      · exact known
    have opened := Fees.opens_distributeAll step.idle sizes kept
    rw [← who] at opened
    rw [accounts,applyActions_of_unbonded step.unbonded pending]
    have frame : ∀ fees,({ self with fees := fees } : Staking)=
        { (catchUp processed start).2 with fees := fees } := by
      intro fees
      rw [follows.same]
    refine ⟨(frame _).trans ?_,(follows.opens.mono fun v => Or.inl).trans opened⟩
    rw [part.pending,hp]
  | @block processed outstanding self entry run ih =>
    obtain ⟨after,hl⟩ := hc
    have chained : chain=processed++entry::(outstanding++after) := by
      rw [← hl]
      simp
    have follows := ih ⟨after,by rw [← hl]; simp⟩
    have step := h processed entry _ chained
    obtain ⟨ok,_⟩ := catchUp_harmless h ⟨_,chained.symm⟩
    have same : processed++[entry]++outstanding=processed++entry::outstanding := by simp
    rw [catchUp_concat ok,same]
    exact (follows.processBlock (entry.bounded.trans step.unbonded)).2

/-- The immediate schedule: each block is processed before the next commit. -/
theorem live_catchUp (h : PathIndependent start chain) (hc : before<+:chain) :
    Live start before [] (catchUp before start).2 := by
  induction before using List.reverseRecOn with
  | nil => exact Live.start
  | append_singleton before entry ih =>
    have run : Live start before [] (catchUp before start).2 :=
      ih ((List.prefix_append _ _).trans hc)
    have processed := (run.commit entry).block
    rw [← h.agrees _ _ processed hc]
    exact processed

/-- A proposal with staked candidates leaves the first of them bonded. -/
theorem bonded_of_staked {actions : List ConsensusStakingAction} {v : ValidatorPublicKey}
    {others : List ValidatorPublicKey} (hs : self.Staked actions)
    (h : bondsOf actions=v::others) : v ∈ (applyActions actions self).2.bonded := by
  have each : v ∈ (processEach applyAction actions self).2.bonded := by
    induction actions generalizing self with
    | nil => cases h
    | cons action actions ih =>
      cases action with
      | payFeesForDaDi laneId cumulSize => exact @ih (self.payForDadi laneId cumulSize) hs h
      | bond candidate =>
        obtain ⟨rfl,_⟩ := List.cons.inj h
        by_cases known : candidate.signature.validator ∈ self.bonded
        · exact mem_bonded_processEach (fun _ _ hm => mem_bonded_applyAction hm) known
        · have bondable : self.Bondable candidate.signature.validator :=
            ⟨known,hs _ List.mem_cons_self⟩
          simp only [processEach,applyAction,bond_of_bondable bondable,applied]
          refine mem_bonded_processEach (fun _ _ hm => mem_bonded_applyAction hm) ?_
          exact mem_bonded_bonding.mpr (Or.inr rfl)
  unfold applyActions
  split
  · next next hn =>
    rw [hn] at each
    exact each
  · exact each

/-- A block that bonds a validator cannot be processed where the validator is bonded. -/
theorem fresh_of_processBlock {block : Block} {v : ValidatorPublicKey}
    {others : List ValidatorPublicKey} (h : (self.processBlock block).1=.ok ())
    (hb : block.newBoundedValidators=v::others) : v∉self.bonded := by
  intro known
  unfold processBlock at h
  rw [hb] at h
  split at h
  · next next hn =>
    have kept : v ∈ next.bonded := by
      have bonded := @bonded_processEach self block.stakingActions
      rw [hn] at bonded
      exact bonded ▸ known
    have first : (next.applied (next.bond v)).1=.ok () := by
      simp only [processEach] at h
      split at h
      · next hf => exact congrArg Prod.fst hf
      · exact h
    exact (applied_bond_eq_ok.mp first).1 kept
  · next hn => exact hn _ (Prod.ext h rfl)

theorem pathIndependent_of_harmless (hp : start.fees.pendingFees=[])
    (h : HarmlessChain start chain) : PathIndependent start chain where
  joins := (catchUp_harmless h List.prefix_rfl).1
  processes := by
    intro processed entry outstanding self run hc
    obtain ⟨after,hl⟩ := hc
    have chained : chain=processed++entry::(outstanding++after) := by
      rw [← hl]
      simp
    have step := h processed entry _ chained
    have follows := follows_of_live hp h run ⟨after,hl⟩
    rw [(follows.processBlock (entry.bounded.trans step.unbonded)).1]
    exact processBlock_eq_ok step
  agrees := by
    intro processed self run hc
    have follows := follows_of_live hp h run (by rwa [List.append_nil])
    rw [List.append_nil] at follows
    have balances := follows.opens.eq fun _ => id
    rw [follows.same,balances]

/-- Where both nodes agree at each step, the commit has bonded and charged nobody. -/
theorem harmless_of_pathIndependent (hp : start.fees.pendingFees=[]) (hb : start.bonded≠[])
    (hs : ∀ before entry after,chain=before++entry::after →
      (catchUp before start).2.Staked entry.actions)
    (h : PathIndependent start chain) : HarmlessChain start chain := by
  intro before entry after chained
  have hc : before++[entry]<+:chain := ⟨after,by rw [chained]; simp⟩
  have joins : (catchUp (before++[entry]) start).1=.ok () := by
    obtain ⟨after,hl⟩ := hc
    have joins := h.joins
    rw [← hl] at joins
    exact processEach_of_append joins
  have run := live_catchUp h ((List.prefix_append _ _).trans hc)
  have joined := @catchUp_concat start before entry (processEach_of_append joins)
  have agrees := h.agrees _ _ (run.commit entry).block hc
  have processes := h.processes _ _ _ _ (run.commit entry) hc
  rw [joined] at joins agrees
  have charged : Uncharged start (catchUp before start).2 := uncharged_catchUp
  have bonded : (catchUp before start).2.bonded≠[] := by
    obtain ⟨v,hv⟩ := List.exists_mem_of_ne_nil _ hb
    have kept : v ∈ (catchUp before start).2.bonded :=
      mem_bonded_processEach (fun _ _ hm => mem_bonded_processBlock hm) hv
    exact List.ne_nil_of_mem kept
  have staked := hs before entry after chained
  generalize (catchUp before start).2=self at *
  have unbonded : bondsOf entry.actions=[] := by
    cases hv : bondsOf entry.actions with
    | nil => rfl
    | cons v others =>
      have known := bonded_of_staked staked hv
      exact absurd known (fresh_of_processBlock processes (entry.bounded.trans hv))
  have accepts : self.Accepts entry.block.stakingActions := by
    rw [processBlock_of_unbonded (entry.bounded.trans unbonded)] at joins
    exact processEach_processAction_eq_ok.mp joins
  refine ⟨unbonded,?_,accepts⟩
  have pending : self.fees.pendingFees=[] := charged.pending.trans hp
  have acted := applyActions_of_unbonded unbonded pending
  have block : Uncharged self (self.processBlock entry.block).2 := uncharged_processBlock
  have block' : Uncharged (applyActions entry.actions self).2
      ((applyActions entry.actions self).2.processBlock entry.block).2 := uncharged_processBlock
  rw [agrees,acted] at block'
  apply Fees.idle_of_distributeAll bonded
  · intro v
    exact (congrFun (block'.sizes.symm.trans block.sizes) v :)
  · intro v hv
    have later := block'.accounts v hv
    rw [processBlock_of_unbonded (entry.bounded.trans unbonded)] at later
    exact accounts_processEach later

/-- The two ways to the staking agree on a chain whose proposals have staked candidates exactly
if no step of it bonds or charges anybody and the actions of its blocks can be processed. -/
theorem pathIndependent_iff (hp : start.fees.pendingFees=[]) (hb : start.bonded≠[])
    (hs : ∀ before entry after,chain=before++entry::after →
      (catchUp before start).2.Staked entry.actions) :
    PathIndependent start chain ↔ HarmlessChain start chain :=
  ⟨harmless_of_pathIndependent hp hb hs,pathIndependent_of_harmless hp⟩

end Staking

namespace FourValidators

open Staking

/-- A committed block with some staking actions of its proposal, and of its transactions. -/
def blockOf (actions : List ConsensusStakingAction)
    (stakingActions : List (Identity × StakingAction)) : CommittedBlock where
  actions := actions
  block := { genesisBlock with
    newBoundedValidators := bondsOf actions
    stakingActions := stakingActions }
  bounded := rfl

/-- The first validator is to pay for data without an account, and gets a deposit then. -/
def payment : CommittedBlock := blockOf [.payFeesForDaDi [1] 10] [("a",.depositForFees [1] 50)]

/-- The fourth validator is bonded. -/
def candidacy : CommittedBlock := blockOf [.bond ⟨⟨""⟩,⟨[],[4]⟩⟩] []

theorem of_singleton {only : CommittedBlock} {before after : List CommittedBlock}
    {entry : CommittedBlock} (h : [only]=before++entry::after) : before=[] ∧ entry=only := by
  cases before with
  | nil => exact ⟨rfl,(List.cons.inj h).1.symm⟩
  | cons first before => simp at h

theorem fees_bondedBy {bonded : List ValidatorPublicKey} :
    (bondedBy bonded).fees.pendingFees=[] ∧ ∀ v,¬(bondedBy bonded).HasAccount v := by
  have acted : Uncharged Staking.new acted := uncharged_processEach
  refine ⟨acted.pending,?_⟩
  intro v hv
  have account : (processEach processAction genesisBlock.stakingActions
    Staking.new).2.fees.balances.contains v=true := hv
  obtain known|deposited := accounts_processEach account
  · simp [Staking.new,Fees.empty] at known
  · simp [depositors,genesisBlock] at deposited

theorem harmless_payment : staked.Harmless payment where
  unbonded := rfl
  idle := Or.inl fun h => fees_bondedBy.2 _ h.1
  accepts := ⟨by simp [payment,blockOf,stakersOf],List.nodup_nil,
    by simp [payment,blockOf,delegatorsOf],List.nodup_nil,by simp [payment,blockOf]⟩

end FourValidators

open FourValidators in
/-- The lane that is to pay has no account yet, so that nobody is charged. -/
theorem Staking.pathIndependent_payment : PathIndependent staked [payment] := by
  refine (pathIndependent_iff fees_bondedBy.1 (by simp [bondedBy]) ?_).mpr ?_
  · intro before entry after split
    obtain ⟨rfl,rfl⟩ := of_singleton split
    simp [Staked,payment,blockOf,bondsOf]
  · intro before entry after split
    obtain ⟨rfl,rfl⟩ := of_singleton split
    exact harmless_payment

open FourValidators in
/-- A validator that has been bonded by the commit cannot be bonded by the block. -/
theorem Staking.not_pathIndependent : ¬∀ chain : List CommittedBlock,
    (∀ before entry after,chain=before++entry::after →
      (catchUp before (bondedBy [[1],[2],[3]])).2.Staked entry.actions) →
    PathIndependent (bondedBy [[1],[2],[3]]) chain := by
  intro independent
  have staked : (bondedBy [[1],[2],[3]]).Staked candidacy.actions := by
    intro v hv
    obtain rfl := List.mem_singleton.mp hv
    exact ⟨100,acted_stakes.2.2.2 _ (by decide),by decide⟩
  have independent := independent [candidacy] (by
    intro before entry after split
    obtain ⟨rfl,rfl⟩ := of_singleton split
    exact staked)
  have processes := independent.processes [] candidacy [] _ (Live.start.commit candidacy)
    List.prefix_rfl
  exact fresh_of_processBlock processes rfl (bonded_of_staked staked rfl)

end TruthSeeker
