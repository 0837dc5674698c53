import TruthSeeker.SmtToken.Executor
import TruthSeeker.SmtToken.Soundness

namespace TruthSeeker.SmtToken

open Borsh Sdk SparseMerkle

/-- The accounts that an action may change, each once. -/
def SmtTokenAction.parties : SmtTokenAction → List Identity
  | .transfer sender recipient _ => if sender=recipient then [sender] else [sender,recipient]
  | .transferFrom owner _ recipient _ => if owner=recipient then [owner] else [owner,recipient]
  | .approve owner _ _ => [owner]

section
variable {Proof : Type} (S : Scheme H256 H256 H256 Proof) {sha256 : Bytes → H256}
  (quote : String → String) (prove : (H256 → H256) → List H256 → Proof)
  (T : AccountSMT sha256)

/-- An output but for the words of the contract. -/
def wordless (output : HyleOutput) : HyleOutput := { output with programOutputs := [] }

/-- The executor reports what the circuit proves from its metadata, up to the words of it, and
ends in the state that it reports. -/
def Agrees [Borsh Proof] (calldata : Calldata) (blob : Blob) : Prop :=
  ∃ reported fresh metadata proved,T.handle S quote calldata=.ok (reported,fresh) ∧
    T.buildCommitmentMetadata S prove blob=.ok metadata ∧
    Guest.execute (zkContract S sha256) quote metadata [calldata]=.ok [proved] ∧
    wordless reported=wordless proved ∧ fresh.getStateCommitment S=reported.nextState

/-- The proof for the accounts of the action gives the root of the tree with any leaves
there, and the accounts after the action can be serialized. -/
structure Supported (action : SmtTokenAction) : Prop where
  sound : SoundCrypto S T (T.step prove action) action
  recovers : Recovers S prove T.tree.leaf
    (action.parties.map (Account.computeKey sha256))
  writable : ∀ changes,expected T action=some changes →
    ∃ leaves,Account.leaves sha256 changes=.ok leaves

end

/-- Where both executions take the action the same way. The executor takes no account as
missing that holds nothing, and it moves nothing from an account to itself. -/
def AccountSMT.Follows {sha256 : Bytes → H256} (T : AccountSMT sha256) : SmtTokenAction → Prop
  | .transfer sender recipient amount => match T.getAccount sender with
      | none => amount≠0
      | some a => sender=recipient → amount≤a.balance
  | .transferFrom owner spender recipient amount => match T.getAccount owner with
      | none => amount≠0
      | some a => owner=recipient → amount=0 ∧ ∃ allowed,a.allowances[spender]?=some allowed
  | .approve _ _ _ => True

section
variable {Proof : Type} {S : Scheme H256 H256 H256 Proof} {sha256 : Bytes → H256}
  {prove : (H256 → H256) → List H256 → Proof} {T fresh : AccountSMT sha256}
  {action : SmtTokenAction} {changes : List Account}

namespace AccountSMT

/-- The writes set the leaves of the written accounts. -/
theorem leaf_updateAll (h : T.updateAll changes=some fresh) :
    ∃ leaves,Account.leaves sha256 changes=.ok leaves ∧
      fresh.tree.leaf=setLeaves T.tree.leaf leaves := by
  induction changes generalizing T with
  | nil =>
    obtain rfl := Option.some.inj h
    exact ⟨[],rfl,rfl⟩
  | cons a as ih =>
    obtain ⟨mid,hm,rest⟩ := Option.bind_eq_some_iff.mp h
    obtain ⟨l,hl,set⟩ := leaf_update hm
    obtain ⟨leaves,others,eq⟩ := ih rest
    refine ⟨(a.getKey sha256,l)::leaves,Account.leaves_cons.mpr ⟨l,leaves,hl,others,rfl⟩,?_⟩
    rw [eq,set]
    rfl

end AccountSMT

/-- The committed accounts have the leaves of the tree. -/
theorem leaves_committed (T : AccountSMT sha256) (names : List Identity) :
    Account.leaves sha256 (names.map T.committed)=.ok
      (names.map fun name => (Account.computeKey sha256 name,
        T.tree.leaf (Account.computeKey sha256 name))) := by
  induction names with
  | nil => rfl
  | cons name names ih =>
    refine Account.leaves_cons.mpr ⟨_,_,T.committed_toH256 name,ih,?_⟩
    rw [List.map_cons,T.committed_getKey]

namespace Supported

variable (crypto : Supported S prove T action)
include crypto

theorem proof_eq : (T.step prove action).proof=
    prove T.tree.leaf (action.parties.map (Account.computeKey sha256)) := by
  have key (name : Identity) : ((T.getAccount name).getD (Account.new name 0)).getKey sha256=
      Account.computeKey sha256 name := T.committed_getKey name
  cases action with
  | transfer sender recipient amount =>
    simp only [AccountSMT.step,key,SmtTokenAction.parties]
    split_ifs with same
    · rfl
    · rfl
  | transferFrom owner spender recipient amount =>
    simp only [AccountSMT.step,key,SmtTokenAction.parties]
    split_ifs with same
    · rfl
    · rfl
  | approve owner spender amount =>
    simp only [AccountSMT.step,key,SmtTokenAction.parties]
    rfl

/-- The step has the committed accounts under their names. -/
theorem accounts_step {name : Identity} (hn : name∈action.names) :
    (T.step prove action).accounts[name]?=some (T.committed name) := by
  have address {other : Identity} (ho : other∈action.names) :
      (T.committed other).address=other := crypto.sound.committed_address ho
  have pair {first second : Identity} (h : name=first ∨ name=second)
      (hf : (T.committed first).address=first) (hs : (T.committed second).address=second) :
      (Std.ExtTreeMap.ofList [((T.committed first).address,T.committed first),
        ((T.committed second).address,T.committed second)])[name]?=some (T.committed name) := by
    have listed : Std.ExtTreeMap.ofList [((T.committed first).address,T.committed first),
        ((T.committed second).address,T.committed second)]=
      ((∅ : Std.ExtTreeMap Identity Account).insert (T.committed first).address
        (T.committed first)).insert (T.committed second).address (T.committed second) := rfl
    rw [listed,hf,hs]
    simp only [Std.ExtTreeMap.getElem?_insert,Std.LawfulEqOrd.compare_eq_iff_eq]
    split_ifs with hsecond hfirst
    · rw [hsecond]
    · rw [hfirst]
    · exact absurd h (not_or.mpr ⟨fun e => hfirst e.symm,fun e => hsecond e.symm⟩)
  cases action with
  | transfer sender recipient amount =>
    simp only [SmtTokenAction.names,List.mem_cons,List.not_mem_nil,or_false] at hn
    exact pair hn (address (by simp [SmtTokenAction.names]))
      (address (by simp [SmtTokenAction.names]))
  | transferFrom owner spender recipient amount =>
    simp only [SmtTokenAction.names,List.mem_cons,List.not_mem_nil,or_false] at hn
    exact pair hn (address (by simp [SmtTokenAction.names]))
      (address (by simp [SmtTokenAction.names]))
  | approve owner spender amount =>
    obtain rfl := List.mem_singleton.mp hn
    have ha := address (by simp [SmtTokenAction.names] : name∈_)
    have listed : (T.step prove (.approve name spender amount)).accounts=
      (∅ : Std.ExtTreeMap Identity Account).insert (T.committed name).address
        (T.committed name) := rfl
    rw [listed,ha]
    exact Std.ExtTreeMap.getElem?_insert_self

/-- Accounts under the keys of the action: the proof gives the root of the tree with them. -/
theorem computeRoot_step {leaves : List (H256 × H256)}
    (hk : leaves.map Prod.fst=action.parties.map (Account.computeKey sha256)) :
    S.computeRoot (T.step prove action).proof leaves=
      .ok (S.root (setLeaves T.tree.leaf leaves)) := by
  rw [crypto.proof_eq]
  exact crypto.recovers leaves hk

theorem verified_step : Verified S sha256 (T.getStateCommitment S) (T.step prove action).proof
    (action.parties.map T.committed) := by
  refine ⟨_,_,leaves_committed T _,rfl,?_⟩
  rw [crypto.computeRoot_step]
  · rw [setLeaves_self]
    intro p hp
    obtain ⟨name,_,rfl⟩ := List.mem_map.mp hp
    rfl
  · rw [List.map_map]
    rfl

end Supported

theorem expected_transfer_eq (sender recipient : Identity) (amount : U128) :
    expected T (.transfer sender recipient amount)=
      if amount≤(T.committed sender).balance ∧
          (sender≠recipient → (T.committed recipient).balance.toNat+amount.toNat<2^128) then
        some (moved sender recipient (T.committed sender) (T.committed recipient) amount)
      else none := rfl

theorem expected_transferFrom_eq (owner spender recipient : Identity) (amount : U128) :
    expected T (.transferFrom owner spender recipient amount)=
      if amount≤(T.committed owner).allowance spender ∧ amount≤(T.committed owner).balance ∧
          (owner≠recipient → (T.committed recipient).balance.toNat+amount.toNat<2^128) then
        some (moved owner recipient ((T.committed owner).updateAllowances spender
          ((T.committed owner).allowance spender-amount)) (T.committed recipient) amount)
      else none := rfl

theorem moved_keys {sender recipient : Identity} {a b : Account} {amount : U128}
    (ha : a.getKey sha256=Account.computeKey sha256 sender)
    (hb : b.getKey sha256=Account.computeKey sha256 recipient) :
    (moved sender recipient a b amount).map (Account.getKey sha256)=
      (if sender=recipient then [sender] else [sender,recipient]).map
        (Account.computeKey sha256) := by
  unfold moved
  split_ifs with same
  · simp [ha]
  · have debited : (a.debit amount).getKey sha256=_ := ha
    have credited : (b.credit amount).getKey sha256=_ := hb
    simp [debited,credited]

/-- The action leaves the accounts under their keys. -/
theorem expected_keys (h : expected T action=some changes) :
    changes.map (Account.getKey sha256)=action.parties.map (Account.computeKey sha256) := by
  cases action with
  | transfer sender recipient amount =>
    rw [expected_transfer_eq] at h
    split_ifs at h
    obtain rfl := Option.some.inj h
    exact moved_keys (T.committed_getKey sender) (T.committed_getKey recipient)
  | transferFrom owner spender recipient amount =>
    rw [expected_transferFrom_eq] at h
    split_ifs at h
    obtain rfl := Option.some.inj h
    have own : ((T.committed owner).updateAllowances spender
        ((T.committed owner).allowance spender-amount)).getKey sha256=_ := T.committed_getKey owner
    exact moved_keys own (T.committed_getKey recipient)
  | approve owner spender amount =>
    obtain ⟨_,rfl⟩ := expected_approve.mp h
    have own : ((T.committed owner).updateAllowances spender amount).getKey sha256=_ :=
      T.committed_getKey owner
    simp [own,SmtTokenAction.parties]

theorem transferNoverif_refused (S : Scheme H256 H256 H256 Proof) (sha256 : Bytes → H256)
    {accounts : Std.ExtTreeMap Identity Account} (proof : Proof)
    {sender recipient : Identity} {amount : U128} {a b : Account}
    (ha : accounts[sender]?=some a) (hb : accounts[recipient]?=some b)
    (h : ¬(amount≤a.balance ∧ (sender≠recipient → b.balance.toNat+amount.toNat<2^128))) :
    ∃ m,transferNoverif S sha256 accounts proof sender recipient amount=.error (.err m) := by
  by_cases hle : amount≤a.balance
  · have apart : sender≠recipient := by
      intro same
      exact h ⟨hle,fun ne => absurd same ne⟩
    have hlt : ¬b.balance.toNat+amount.toNat<2^128 := fun hlt => h ⟨hle,fun _ => hlt⟩
    have kept (c : Account) : (accounts.insert sender c)[recipient]?=some b := by
      rw [Std.ExtTreeMap.getElem?_insert]
      simp [apart,hb]
    refine ⟨"Overflow in recipient balance",?_⟩
    simp only [transferNoverif,ha,checkedSub,if_pos hle,kept,checkedAdd,if_neg hlt,
      Outcome.fromOption,bind,Except.bind]
  · refine ⟨"Insufficient balance",?_⟩
    simp only [transferNoverif,ha,checkedSub,if_neg hle,Outcome.fromOption,bind,Except.bind]

namespace Supported

variable (crypto : Supported S prove T action)
include crypto

/-- The circuit succeeds on the accounts of the step where the committed accounts allow it. -/
theorem runAction_step {leaves : List (H256 × H256)} (he : expected T action=some changes)
    (hl : Account.leaves sha256 changes=.ok leaves) :
    ∃ output,runAction S sha256 (T.getStateCommitment S) (T.step prove action) action=
      .ok (output,(S.root (setLeaves T.tree.leaf leaves)).toList) := by
  have held {name : Identity} (hn : name∈action.names) := crypto.accounts_step hn
  have verified := crypto.verified_step
  have recomputed : Recomputed S sha256 (T.step prove action).proof changes
      (S.root (setLeaves T.tree.leaf leaves)).toList :=
    ⟨leaves,_,hl,crypto.computeRoot_step ((leaves_keys hl).trans (expected_keys he)),rfl⟩
  refine runAction_eq_ok.mpr ⟨changes,?_,recomputed⟩
  cases action with
  | transfer sender recipient amount =>
    rw [expected_transfer_eq] at he
    split_ifs at he with enough
    obtain rfl := Option.some.inj he
    refine ⟨_,_,held (by simp [SmtTokenAction.names]),held (by simp [SmtTokenAction.names]),?_,
      enough.1,enough.2,rfl⟩
    simp only [SmtTokenAction.parties] at verified
    split_ifs with same
    · rw [if_pos same] at verified
      exact verified
    · rw [if_neg same] at verified
      exact verified
  | transferFrom owner spender recipient amount =>
    rw [expected_transferFrom_eq] at he
    split_ifs at he with enough
    obtain rfl := Option.some.inj he
    exact ⟨_,_,held (by simp [SmtTokenAction.names]),held (by simp [SmtTokenAction.names]),
      crypto.sound.committed_address (by simp [SmtTokenAction.names]),
      crypto.sound.committed_address (by simp [SmtTokenAction.names]),enough.1,enough.2.1,
      enough.2.2,rfl⟩
  | approve owner spender amount =>
    obtain ⟨funded,rfl⟩ := expected_approve.mp he
    exact ⟨_,held (by simp [SmtTokenAction.names]),verified,funded,rfl⟩

/-- Any other action is an error of the circuit. -/
theorem runAction_refused (he : expected T action=none) :
    ∃ m,runAction S sha256 (T.getStateCommitment S) (T.step prove action) action=
      .error (.err m) := by
  have held {name : Identity} (hn : name∈action.names) := crypto.accounts_step hn
  have verified := crypto.verified_step
  cases action with
  | transfer sender recipient amount =>
    have hs := held (by simp [SmtTokenAction.names] : sender∈_)
    have hr := held (by simp [SmtTokenAction.names] : recipient∈_)
    rw [expected_transfer_eq] at he
    split_ifs at he with short
    obtain ⟨m,hm⟩ := transferNoverif_refused S sha256
      (T.step prove (.transfer sender recipient amount)).proof hs hr short
    refine ⟨m,?_⟩
    have checked : verifyAccounts S sha256 (T.getStateCommitment S)
        (T.step prove (.transfer sender recipient amount)).proof
        (if sender=recipient then [T.committed sender] else
          [T.committed sender,T.committed recipient])=.ok () := by
      refine verifyAccounts_eq_ok.mpr ?_
      simp only [SmtTokenAction.parties] at verified
      split_ifs with same
      · rw [if_pos same] at verified
        exact verified
      · rw [if_neg same] at verified
        exact verified
    simp only [runAction,transfer,hs,hr,checked,hm,Outcome.fromOption,bind,Except.bind]
  | transferFrom owner spender recipient amount =>
    have hs := held (by simp [SmtTokenAction.names] : owner∈_)
    have hr := held (by simp [SmtTokenAction.names] : recipient∈_)
    have own : (T.committed owner).address=owner :=
      crypto.sound.committed_address (by simp [SmtTokenAction.names])
    have other : (T.committed recipient).address=recipient :=
      crypto.sound.committed_address (by simp [SmtTokenAction.names])
    rw [expected_transferFrom_eq] at he
    split_ifs at he with short
    simp only [runAction,transferFrom,hs,hr,own,other,Outcome.fromOption,Outcome.ensure,bind,
      Except.bind,if_true]
    by_cases hal : amount≤(T.committed owner).allowance spender
    · rw [if_pos hal]
      simp only [checkedSub,if_pos hal]
      by_cases same : owner=recipient
      · subst same
        refine transferNoverif_refused S sha256 _ Std.ExtTreeMap.getElem?_insert_self
          Std.ExtTreeMap.getElem?_insert_self ?_
        intro enough
        exact short ⟨hal,enough.1,fun ne => absurd rfl ne⟩
      · refine transferNoverif_refused S sha256 _ (b := T.committed recipient)
          Std.ExtTreeMap.getElem?_insert_self ?_ ?_
        · rw [Std.ExtTreeMap.getElem?_insert]
          simp [same,hr]
        · intro enough
          exact short ⟨hal,enough⟩
    · rw [if_neg hal]
      exact ⟨_,rfl⟩
  | approve owner spender amount =>
    have hs := held (by simp [SmtTokenAction.names] : owner∈_)
    have checked : verifyAccounts S sha256 (T.getStateCommitment S)
        (T.step prove (.approve owner spender amount)).proof [T.committed owner]=.ok () :=
      verifyAccounts_eq_ok.mpr verified
    have empty : (T.committed owner).balance=0 := by
      by_contra funded
      have hx : expected T (.approve owner spender amount)=some _ :=
        expected_approve.mpr ⟨funded,rfl⟩
      rw [he] at hx
      cases hx
    refine ⟨s!"Owner account {owner} not found",?_⟩
    simp only [runAction,approve,hs,checked,empty,Outcome.fromOption,Outcome.ensure,bind,
      Except.bind,ne_eq,not_true,if_false,Outcome.err]

end Supported

/-- The executor writes where the circuit accepts, and what it writes gives the same root. -/
def AccountSMT.Mirrors (S : Scheme H256 H256 H256 Proof) (T : AccountSMT sha256)
    (action : SmtTokenAction) : Prop :=
  ((∃ changes,T.written action=some changes) ↔ ∃ changes,expected T action=some changes) ∧
  ∀ changes others leaves same,T.written action=some changes → expected T action=some others →
    Account.leaves sha256 changes=.ok leaves → Account.leaves sha256 others=.ok same →
    S.root (setLeaves T.tree.leaf leaves)=S.root (setLeaves T.tree.leaf same)

theorem committed_of_none {name : Identity} (h : T.getAccount name=none) :
    T.committed name=⟨name,0,∅⟩ := by
  rw [← AccountSMT.getD_getAccount,h]
  rfl

/-- The same accounts are written. -/
theorem mirrors_of_eq (h : T.written action=expected T action) : T.Mirrors S action := by
  refine ⟨by rw [h],?_⟩
  intro changes others leaves same hc ho hl hs
  rw [h,ho] at hc
  obtain rfl := Option.some.inj hc
  rw [hl] at hs
  rw [Except.ok.inj hs]

/-- An action of a missing account is refused by the executor. -/
theorem mirrors_iff_refused (h : T.written action=none) :
    T.Mirrors S action ↔ expected T action=none := by
  have mirrors : T.Mirrors S action ↔
      ((∃ changes,T.written action=some changes) ↔ ∃ changes,expected T action=some changes) := by
    refine ⟨And.left,fun both => ⟨both,?_⟩⟩
    intro changes others leaves same hc
    rw [h] at hc
    cases hc
  rw [mirrors,h,Option.eq_none_iff_forall_ne_some]
  simp

/-- Nothing is written where the circuit keeps the root or writes other leaves. -/
theorem mirrors_iff_kept (crypto : Supported S prove T action) (h : T.written action=some []) :
    T.Mirrors S action ↔ ∃ others,expected T action=some others ∧
      ∀ leaves,Account.leaves sha256 others=.ok leaves → setLeaves T.tree.leaf leaves=T.tree.leaf := by
  constructor
  · intro mirrors
    obtain ⟨others,ho⟩ := mirrors.1.mp ⟨[],h⟩
    refine ⟨others,ho,?_⟩
    intro leaves hl
    have root := mirrors.2 [] others [] leaves h ho rfl hl
    exact (crypto.sound.binding others leaves ho hl root).symm
  · intro kept
    obtain ⟨others,ho,kept⟩ := kept
    refine ⟨⟨fun _ => ⟨others,ho⟩,fun _ => ⟨[],h⟩⟩,?_⟩
    intro changes found leaves same hc hf hl hs
    rw [h] at hc
    rw [ho] at hf
    obtain rfl := Option.some.inj hc
    obtain rfl := Option.some.inj hf
    obtain rfl := Account.leaves_nil.mp hl
    rw [kept same hs]
    rfl

theorem mirrors_transfer_iff {sender recipient : Identity} {amount : U128}
    (crypto : Supported S prove T (.transfer sender recipient amount)) :
    T.Mirrors S (.transfer sender recipient amount) ↔
      T.Follows (.transfer sender recipient amount) := by
  cases ha : T.getAccount sender with
  | none =>
    have hw : T.written (.transfer sender recipient amount)=none := by
      rw [AccountSMT.written,ha]
      rfl
    have limit : (T.committed sender).balance=0 := by rw [committed_of_none ha]
    rw [mirrors_iff_refused hw,expected_transfer_eq]
    simp only [AccountSMT.Follows,ha]
    constructor
    · rintro h rfl
      rw [if_pos] at h
      · cases h
      · exact ⟨by bv_omega,fun _ => by simpa using (T.committed recipient).balance.isLt⟩
    · intro h
      rw [if_neg]
      intro enough
      rw [limit] at enough
      exact h (by bv_omega)
  | some a =>
    have hc := AccountSMT.committed_of_getAccount ha
    simp only [AccountSMT.Follows,ha]
    by_cases same : sender=recipient
    · subst same
      have hw : T.written (.transfer sender sender amount)=some [] := by
        rw [AccountSMT.written,ha,Option.bind_some,if_pos rfl]
      rw [mirrors_iff_kept crypto hw,expected_transfer_eq,moved_self]
      constructor
      · intro h _
        obtain ⟨_,h,_⟩ := h
        split_ifs at h with enough
        rw [← hc]
        exact enough.1
      · intro h
        have covered : amount≤(T.committed sender).balance := by
          rw [hc]
          exact h rfl
        refine ⟨[T.committed sender],if_pos ⟨covered,fun ne => absurd rfl ne⟩,?_⟩
        intro leaves hl
        have current := leaves_committed T [sender]
        rw [List.map_singleton,hl] at current
        rw [Except.ok.inj current,setLeaves_self]
        simp
    · refine iff_of_true (mirrors_of_eq ?_) (fun h => absurd h same)
      rw [AccountSMT.written,ha,Option.bind_some,if_neg same,expected_transfer_eq,hc,
        moved_of_ne same]
      simp only [ne_eq,same,not_false_eq_true,true_implies]

theorem insert_allowance_iff {a : Account} {spender : Identity} {amount : U128}
    (hle : amount≤a.allowance spender) :
    a.updateAllowances spender (a.allowance spender-amount)=a ↔
      amount=0 ∧ ∃ allowed,a.allowances[spender]?=some allowed := by
  constructor
  · intro h
    have found : (a.updateAllowances spender (a.allowance spender-amount)).allowances[spender]?=
        some (a.allowance spender-amount) := Std.ExtTreeMap.getElem?_insert_self
    rw [h] at found
    refine ⟨?_,_,found⟩
    have left : a.allowance spender=a.allowance spender-amount := by
      conv_lhs => rw [Account.allowance,found]
      rfl
    bv_omega
  · intro h
    obtain ⟨rfl,allowed,found⟩ := h
    have left : a.allowance spender-0=allowed := by simp [Account.allowance,found]
    have kept : a.allowances.insert spender (a.allowance spender-0)=a.allowances := by
      apply Std.ExtTreeMap.ext_getElem?
      intro k
      rw [Std.ExtTreeMap.getElem?_insert]
      split_ifs with hk
      · rw [← Std.LawfulEqOrd.eq_of_compare hk,found,left]
      · rfl
    unfold Account.updateAllowances
    rw [kept]

theorem mirrors_transferFrom_iff {owner spender recipient : Identity} {amount : U128}
    (crypto : Supported S prove T (.transferFrom owner spender recipient amount)) :
    T.Mirrors S (.transferFrom owner spender recipient amount) ↔
      T.Follows (.transferFrom owner spender recipient amount) := by
  cases ha : T.getAccount owner with
  | none =>
    have hw : T.written (.transferFrom owner spender recipient amount)=none := by
      rw [AccountSMT.written,ha]
      rfl
    have limit : (T.committed owner).balance=0 := by rw [committed_of_none ha]
    have allowed : (T.committed owner).allowance spender=0 := by
      rw [committed_of_none ha]
      simp [Account.allowance]
    rw [mirrors_iff_refused hw,expected_transferFrom_eq]
    simp only [AccountSMT.Follows,ha]
    constructor
    · rintro h rfl
      rw [if_pos] at h
      · cases h
      · exact ⟨by bv_omega,by bv_omega,
          fun _ => by simpa using (T.committed recipient).balance.isLt⟩
    · intro h
      rw [if_neg]
      intro enough
      rw [limit] at enough
      exact h (by bv_omega)
  | some a =>
    have hc := AccountSMT.committed_of_getAccount ha
    have funded := AccountSMT.balance_ne_zero ha
    simp only [AccountSMT.Follows,ha]
    by_cases same : owner=recipient
    · subst same
      have hw : T.written (.transferFrom owner spender owner amount)=some [] := by
        rw [AccountSMT.written,ha,Option.bind_some,if_pos rfl]
      rw [mirrors_iff_kept crypto hw,expected_transferFrom_eq,moved_self,hc]
      constructor
      · intro h _
        obtain ⟨others,ho,kept⟩ := h
        split_ifs at ho with enough
        obtain rfl := Option.some.inj ho
        refine (insert_allowance_iff enough.1).mp ?_
        have hx : expected T (.transferFrom owner spender owner amount)=
            some [a.updateAllowances spender (a.allowance spender-amount)] := by
          rw [expected_transferFrom_eq,moved_self,hc,if_pos enough]
        obtain ⟨leaves,hl⟩ := crypto.writable _ hx
        obtain ⟨l,hw,rfl⟩ := Account.leaves_single.mp hl
        have key : (a.updateAllowances spender (a.allowance spender-amount)).getKey sha256=
            Account.computeKey sha256 owner := T.keyed _ a ha
        have hk := congrFun (kept _ hl) (Account.computeKey sha256 owner)
        rw [setLeaves_single,key,Function.update_self] at hk
        have before := T.committed_toH256 owner
        rw [hc,← hk] at before
        refine crypto.sound.funded_injective ?_ ?_ funded hw before
        · exact Or.inr (Or.inr ⟨_,hx,by simp⟩)
        · exact Or.inl ⟨owner,by simp [SmtTokenAction.names],Or.inr hc.symm⟩
      · intro h
        obtain ⟨rfl,allowed,found⟩ := h rfl
        have le : (0 : U128)≤a.allowance spender := by bv_omega
        have kept := (insert_allowance_iff le).mpr ⟨rfl,allowed,found⟩
        rw [kept]
        refine ⟨[a],if_pos ⟨le,by bv_omega,fun ne => absurd rfl ne⟩,?_⟩
        intro leaves hl
        have current := leaves_committed T [owner]
        rw [List.map_singleton,hc,hl] at current
        rw [Except.ok.inj current,setLeaves_self]
        simp
    · refine iff_of_true (mirrors_of_eq ?_) (fun h => absurd h same)
      rw [AccountSMT.written,ha,Option.bind_some,if_neg same,expected_transferFrom_eq,hc,
        moved_of_ne same]
      simp only [ne_eq,same,not_false_eq_true,true_implies]

theorem mirrors_approve (owner spender : Identity) (amount : U128) :
    T.Mirrors S (.approve owner spender amount) := by
  cases ha : T.getAccount owner with
  | none =>
    have hw : T.written (.approve owner spender amount)=none := by
      rw [AccountSMT.written,ha]
      rfl
    rw [mirrors_iff_refused hw,Option.eq_none_iff_forall_ne_some]
    intro changes hx
    refine (expected_approve.mp hx).1 ?_
    rw [committed_of_none ha]
  | some a =>
    refine mirrors_of_eq ?_
    have hc := AccountSMT.committed_of_getAccount ha
    rw [AccountSMT.written,ha,Option.map_some]
    symm
    rw [expected_approve,hc]
    exact ⟨AccountSMT.balance_ne_zero ha,rfl⟩

theorem mirrors_iff (crypto : Supported S prove T action) :
    T.Mirrors S action ↔ T.Follows action := by
  cases action with
  | transfer sender recipient amount => exact mirrors_transfer_iff crypto
  | transferFrom owner spender recipient amount => exact mirrors_transferFrom_iff crypto
  | approve owner spender amount =>
    exact iff_of_true (mirrors_approve owner spender amount) trivial

section Outputs
variable (quote : String → String) {calldata : Calldata}
  {blob : Blob} {ctx : ExecutionContext} {metadata : Bytes}

/-- The output of a call without effects. -/
def Reports (calldata : Calldata) (output : HyleOutput) : Prop :=
  ∃ initial next,∃ res : Except String (Bytes × ExecutionContext),
    output=asHyleOutput quote initial next calldata (res.map fun p => (p.1,p.2,[]))

variable {quote} in
/-- All but the commitments, the success and the words is the calldata's. -/
theorem Reports.wordless_eq {output : HyleOutput} (h : Reports quote calldata output) :
    wordless output=
      { version := 1
        initialState := output.initialState
        nextState := output.nextState
        identity := calldata.identity
        index := calldata.index
        blobs := calldata.blobs
        txBlobCount := calldata.txBlobCount
        success := output.success
        txHash := calldata.txHash
        stateReads := []
        txCtx := calldata.txCtx
        onchainEffects := []
        programOutputs := [] } := by
  obtain ⟨initial,next,res,rfl⟩ := h
  cases res with
  | error m => rfl
  | ok p =>
    by_cases callees : p.2.calleesBlobs=[]
    · simp [asHyleOutput,Except.map,callees,wordless]
    · simp [asHyleOutput,Except.map,callees,wordless,fail]

variable {quote} in
theorem Reports.wordless_eq_iff {reported proved : HyleOutput}
    (h : Reports quote calldata reported) (hp : Reports quote calldata proved) :
    wordless reported=wordless proved ↔ reported.success=proved.success ∧
      reported.initialState=proved.initialState ∧ reported.nextState=proved.nextState := by
  rw [h.wordless_eq,hp.wordless_eq]
  simp only [HyleOutput.mk.injEq,true_and,and_true]
  exact ⟨fun same => ⟨same.2.2,same.1,same.2.1⟩,fun same => ⟨same.2.1,same.2.2,same.1⟩⟩

/-- The executor's turn on an action that it writes. -/
theorem handle_written {output : String}
    (hp : parseCalldata SmtTokenAction calldata=.ok (action,ctx))
    (ha : T.innerHandle action=.ok (output,fresh)) : T.handle S quote calldata=
      .ok (asHyleOutput quote (T.getStateCommitment S) (fresh.getStateCommitment S) calldata
        (.ok (utf8 output,ctx,[])),fresh) := by
  simp only [AccountSMT.handle,hp,ha,Outcome.caught,bind,Except.bind]
  rfl

theorem handle_refused {m : String}
    (hp : parseCalldata SmtTokenAction calldata=.ok (action,ctx))
    (ha : T.innerHandle action=.error (.err m)) : T.handle S quote calldata=
      .ok (fail calldata (T.getStateCommitment S) m,T) := by
  simp only [AccountSMT.handle,hp,ha,Outcome.caught,bind,Except.bind]
  rfl

/-- The blob of a parsed calldata gets one step. -/
theorem contract_of_parsed (hb : calldata.blobs.get calldata.index=some blob)
    (hp : parseCalldata SmtTokenAction calldata=.ok (action,ctx)) :
    T.contract S prove blob=⟨T.getStateCommitment S,[T.step prove action]⟩ := by
  obtain ⟨parsed,hs,rfl,_⟩ := parseCalldata_eq_ok.mp hp
  obtain ⟨other,ho,hd,_⟩ := parseStructuredBlob_eq_some.mp hs
  obtain rfl : blob=other := Option.some.inj (hb.symm.trans ho)
  have data : BlobData.parse SmtTokenAction blob.data=some parsed.data.parameters := by
    rw [BlobData.parse,hd]
    rfl
  simp only [AccountSMT.contract,data]

variable [Borsh Proof] [LawfulBorsh Proof]

/-- The circuit turns once on the contract that the metadata encodes. -/
theorem execute_metadata (hm : T.buildCommitmentMetadata S prove blob=.ok metadata) :
    Guest.execute (zkContract S sha256) quote metadata [calldata]=
      Guest.turns (zkContract S sha256) quote (T.contract S prove blob)
        (T.getStateCommitment S) [calldata] := by
  have written : Borsh.ser (T.contract S prove blob)=some metadata :=
    Outcome.fromOption_eq_ok.mp hm
  exact Guest.execute_started (fromSlice_ser written) rfl [calldata]

theorem execute_of_turn {proved : HyleOutput} {after : SmtTokenContract Proof}
    {next : StateCommitment} (hm : T.buildCommitmentMetadata S prove blob=.ok metadata)
    (ht : Guest.turn (zkContract S sha256) quote (T.contract S prove blob)
      (T.getStateCommitment S) calldata=.ok (proved,after,next)) :
    Guest.execute (zkContract S sha256) quote metadata [calldata]=.ok [proved] := by
  rw [execute_metadata quote hm]
  exact Guest.turns_single.mpr ⟨after,next,ht⟩

variable (crypto : Supported S prove T action)
include crypto

/-- The circuit proves a success with the root of the changed accounts. -/
theorem execute_expected {leaves : List (H256 × H256)}
    (hb : calldata.blobs.get calldata.index=some blob)
    (hp : parseCalldata SmtTokenAction calldata=.ok (action,ctx))
    (hm : T.buildCommitmentMetadata S prove blob=.ok metadata)
    (he : expected T action=some changes) (hl : Account.leaves sha256 changes=.ok leaves) :
    ∃ output,Guest.execute (zkContract S sha256) quote metadata [calldata]=
      .ok [asHyleOutput quote (T.getStateCommitment S)
        (S.root (setLeaves T.tree.leaf leaves)).toList calldata (.ok (utf8 output,ctx,[]))] := by
  obtain ⟨output,ran⟩ := crypto.runAction_step he hl
  have hx : (zkContract S sha256).execute (T.contract S prove blob) calldata=
      (.ok (utf8 output,ctx,[]),⟨(S.root (setLeaves T.tree.leaf leaves)).toList,[]⟩) := by
    rw [contract_of_parsed hb hp]
    exact (execute_eq_ok hp).mpr ⟨_,_,_,rfl,ran,rfl,rfl⟩
  exact ⟨output,execute_of_turn quote hm (Guest.turn_of_ok hx)⟩

theorem execute_refused (hb : calldata.blobs.get calldata.index=some blob)
    (hp : parseCalldata SmtTokenAction calldata=.ok (action,ctx))
    (hm : T.buildCommitmentMetadata S prove blob=.ok metadata)
    (he : expected T action=none) :
    ∃ m,Guest.execute (zkContract S sha256) quote metadata [calldata]=
      .ok [fail calldata (T.getStateCommitment S) m] := by
  obtain ⟨m,ran⟩ := crypto.runAction_refused he
  have hx : (zkContract S sha256).execute (T.contract S prove blob) calldata=
      (.error (.err m),⟨T.getStateCommitment S,[]⟩) := by
    rw [contract_of_parsed hb hp]
    show SmtTokenContract.execute S sha256 _ calldata=_
    unfold SmtTokenContract.execute
    rw [hp]
    simp only [List.getLast?_singleton,ran,List.dropLast_singleton]
  exact ⟨m,execute_of_turn quote hm (Guest.turn_of_err hx)⟩

omit crypto [LawfulBorsh Proof] in
theorem agrees_iff_of {reported proved : HyleOutput}
    (hh : T.handle S quote calldata=.ok (reported,fresh))
    (hm : T.buildCommitmentMetadata S prove blob=.ok metadata)
    (hx : Guest.execute (zkContract S sha256) quote metadata [calldata]=.ok [proved])
    (hr : Reports quote calldata reported) (hp : Reports quote calldata proved) :
    Agrees S quote prove T calldata blob ↔ reported.success=proved.success ∧
      reported.initialState=proved.initialState ∧ reported.nextState=proved.nextState ∧
      fresh.getStateCommitment S=reported.nextState := by
  have parts := hr.wordless_eq_iff hp
  constructor
  · intro agrees
    obtain ⟨other,last,built,out,ho,hb,hout,same⟩ := agrees
    rw [hh] at ho
    obtain ⟨rfl,rfl⟩ := Prod.mk.inj (Except.ok.inj ho)
    rw [hm] at hb
    obtain rfl := Except.ok.inj hb
    rw [hx] at hout
    obtain rfl := List.singleton_inj.mp (Except.ok.inj hout)
    obtain ⟨success,initial,next⟩ := parts.mp same.1
    exact ⟨success,initial,next,same.2⟩
  · intro same
    obtain ⟨success,initial,next,reached⟩ := same
    exact ⟨_,_,_,_,hh,hm,hx,parts.mpr ⟨success,initial,next⟩,reached⟩

end Outputs

/-- The root is the same after the writes of the executor. -/
def AccountSMT.KeepsRoot (S : Scheme H256 H256 H256 Proof) (T : AccountSMT sha256)
    (action : SmtTokenAction) : Prop :=
  ∀ changes leaves,T.written action=some changes → Account.leaves sha256 changes=.ok leaves →
    S.root (setLeaves T.tree.leaf leaves)=S.root T.tree.leaf

theorem asHyleOutput_success (quote : String → String) (initial next : StateCommitment)
    (calldata : Calldata) (output : Bytes) (ctx : ExecutionContext) :
    (asHyleOutput quote initial next calldata (.ok (output,ctx,[]))).success=
      decide (ctx.calleesBlobs=[]) := by
  by_cases h : ctx.calleesBlobs=[]
  · simp [asHyleOutput,h]
  · simp [asHyleOutput,h,fail]

theorem asHyleOutput_nextState (quote : String → String) (initial next : StateCommitment)
    (calldata : Calldata) (output : Bytes) (ctx : ExecutionContext) :
    (asHyleOutput quote initial next calldata (.ok (output,ctx,[]))).nextState=
      if ctx.calleesBlobs=[] then next else initial := by
  by_cases h : ctx.calleesBlobs=[]
  · simp [asHyleOutput,h]
  · simp [asHyleOutput,h,fail]

theorem root_toList_inj {first second : H256 → H256} :
    (S.root first).toList=(S.root second).toList ↔ S.root first=S.root second :=
  ⟨fun h => ByteVec.toList_injective h,congrArg _⟩

/-- The writes of the executor are the only ones that are asked about. -/
theorem AccountSMT.keepsRoot_iff_of_written {writes : List Account} {leaves : List (H256 × H256)}
    (hw : T.written action=some writes) (hl : Account.leaves sha256 writes=.ok leaves) :
    T.KeepsRoot S action ↔ S.root (setLeaves T.tree.leaf leaves)=S.root T.tree.leaf := by
  refine ⟨fun kept => kept writes leaves hw hl,?_⟩
  intro same changes others hc ho
  rw [hw] at hc
  obtain rfl := Option.some.inj hc
  rw [hl] at ho
  rw [← Except.ok.inj ho]
  exact same

/-- Executor and circuit both act, and are told apart by the roots that they reach. -/
theorem AccountSMT.mirrors_iff_of_written {writes changes : List Account}
    {leaves others : List (H256 × H256)} (hw : T.written action=some writes)
    (he : expected T action=some changes) (hl : Account.leaves sha256 writes=.ok leaves)
    (ho : Account.leaves sha256 changes=.ok others) :
    T.Mirrors S action ↔
      S.root (setLeaves T.tree.leaf leaves)=S.root (setLeaves T.tree.leaf others) := by
  refine ⟨fun mirrors => mirrors.2 writes changes leaves others hw he hl ho,?_⟩
  intro same
  refine ⟨⟨fun _ => ⟨changes,he⟩,fun _ => ⟨writes,hw⟩⟩,?_⟩
  intro first second l m hf hs hl' ho'
  rw [hw] at hf
  rw [he] at hs
  obtain rfl := Option.some.inj hf
  obtain rfl := Option.some.inj hs
  rw [hl] at hl'
  rw [ho] at ho'
  rw [← Except.ok.inj hl',← Except.ok.inj ho']
  exact same

variable [Borsh Proof] [LawfulBorsh Proof] {quote : String → String} {calldata : Calldata}
  {blob : Blob} {metadata : Bytes}

omit [Borsh Proof] [LawfulBorsh Proof] in
/-- An executor that does not panic performs its writes. -/
theorem innerHandle_of_written {ctx : ExecutionContext}
    (hp : parseCalldata SmtTokenAction calldata=.ok (action,ctx))
    (quiet : Outcome.Quiet (T.handle S quote calldata)) (hw : T.written action=some changes) :
    ∃ output fresh leaves,T.innerHandle action=.ok (output,fresh) ∧
      Account.leaves sha256 changes=.ok leaves ∧
      fresh.tree.leaf=setLeaves T.tree.leaf leaves := by
  cases ha : T.innerHandle action with
  | ok p =>
    obtain ⟨output,fresh⟩ := p
    obtain ⟨others,ho,hu⟩ := AccountSMT.innerHandle_eq_ok.mp ⟨output,ha⟩
    rw [hw] at ho
    obtain rfl := Option.some.inj ho
    obtain ⟨leaves,hl,eq⟩ := AccountSMT.leaf_updateAll hu
    exact ⟨output,fresh,leaves,rfl,hl,eq⟩
  | error e =>
    cases e with
    | err m => exact absurd ha (AccountSMT.innerHandle_ne_err hw)
    | panic m =>
      refine absurd ?_ (quiet m)
      simp only [AccountSMT.handle,hp,ha,Outcome.caught,Outcome.panic,bind,Except.bind]

/-- The executor of the token agrees with its circuit on a calldata that is parsed and that
both take the same way, or that leaves callees over and does not move the root. -/
theorem handle_agrees_iff (hb : calldata.blobs.get calldata.index=some blob)
    (hm : T.buildCommitmentMetadata S prove blob=.ok metadata)
    (quiet : Outcome.Quiet (T.handle S quote calldata))
    (supported : ∀ action ctx,parseCalldata SmtTokenAction calldata=.ok (action,ctx) →
      Supported S prove T action) :
    Agrees S quote prove T calldata blob ↔
      ∃ action ctx,parseCalldata SmtTokenAction calldata=.ok (action,ctx) ∧
        if ctx.calleesBlobs=[] then T.Follows action else T.KeepsRoot S action := by
  cases hp : parseCalldata SmtTokenAction calldata with
  | error e =>
    constructor
    · intro agrees
      obtain ⟨reported,fresh,_,_,hh,_⟩ := agrees
      simp only [AccountSMT.handle,hp,bind,Except.bind] at hh
      cases hh
    · intro parsed
      obtain ⟨action,ctx,h,_⟩ := parsed
      cases h
  | ok parsed =>
    obtain ⟨action,ctx⟩ := parsed
    have crypto := supported action ctx hp
    have single : (∃ other context,
        (Except.ok (action,ctx) : Outcome (SmtTokenAction × ExecutionContext))=
          .ok (other,context) ∧
        if context.calleesBlobs=[] then T.Follows other else T.KeepsRoot S other) ↔
        if ctx.calleesBlobs=[] then T.Mirrors S action else T.KeepsRoot S action := by
      rw [mirrors_iff crypto]
      constructor
      · intro h
        obtain ⟨other,context,eq,h⟩ := h
        obtain ⟨rfl,rfl⟩ := Prod.mk.inj (Except.ok.inj eq)
        exact h
      · intro h
        exact ⟨action,ctx,rfl,h⟩
    rw [single]
    cases hw : T.written action with
    | none =>
      obtain ⟨m,ha⟩ := AccountSMT.innerHandle_refused hw
      have hh := handle_refused (S := S) quote hp ha
      have keeps : T.KeepsRoot S action := by
        intro changes leaves hc
        rw [hw] at hc
        cases hc
      rw [mirrors_iff_refused hw]
      cases he : expected T action with
      | none =>
        obtain ⟨n,hx⟩  := execute_refused quote crypto hb hp hm he
        rw [agrees_iff_of quote hh hm hx ⟨_,[],.error m,rfl⟩ ⟨_,[],.error n,rfl⟩]
        refine iff_of_true ⟨rfl,rfl,rfl,rfl⟩ ?_
        split_ifs
        · rfl
        · exact keeps
      | some changes =>
        obtain ⟨leaves,hl⟩ := crypto.writable changes he
        obtain ⟨output,hx⟩ := execute_expected quote crypto hb hp hm he hl
        rw [agrees_iff_of quote hh hm hx ⟨_,[],.error m,rfl⟩ ⟨_,_,.ok (utf8 output,ctx),rfl⟩,
          asHyleOutput_success,asHyleOutput_nextState]
        by_cases callees : ctx.calleesBlobs=[]
        · simp [callees,fail]
        · simp [callees,fail,keeps]
    | some writes =>
      obtain ⟨output,fresh,leaves,ha,hl,tree⟩ := innerHandle_of_written hp quiet hw
      have hh := handle_written (S := S) quote hp ha
      have reached : fresh.getStateCommitment S=
          (S.root (setLeaves T.tree.leaf leaves)).toList := by
        rw [AccountSMT.getStateCommitment,tree]
      have keeps := AccountSMT.keepsRoot_iff_of_written (S := S) hw hl
      cases he : expected T action with
      | none =>
        obtain ⟨n,hx⟩  := execute_refused quote crypto hb hp hm he
        rw [agrees_iff_of quote hh hm hx ⟨_,_,.ok (utf8 output,ctx),rfl⟩ ⟨_,[],.error n,rfl⟩,
          asHyleOutput_success,asHyleOutput_nextState,reached]
        by_cases callees : ctx.calleesBlobs=[]
        · have apart : ¬T.Mirrors S action := by
            intro mirrors
            obtain ⟨changes,hc⟩ := mirrors.1.mp ⟨writes,hw⟩
            rw [he] at hc
            cases hc
          simp [callees,fail,apart]
        · simp only [callees,if_false,decide_false,keeps,← root_toList_inj]
          exact ⟨fun h => h.2.2.2,fun h => ⟨rfl,asHyleOutput_initialState _ _ _ _ _,rfl,h⟩⟩
      | some changes =>
        obtain ⟨others,ho⟩ := crypto.writable changes he
        obtain ⟨proved,hx⟩ := execute_expected quote crypto hb hp hm he ho
        rw [agrees_iff_of quote hh hm hx ⟨_,_,.ok (utf8 output,ctx),rfl⟩
            ⟨_,_,.ok (utf8 proved,ctx),rfl⟩,asHyleOutput_success,asHyleOutput_success,
          asHyleOutput_nextState,asHyleOutput_nextState,asHyleOutput_initialState,
          asHyleOutput_initialState,reached]
        by_cases callees : ctx.calleesBlobs=[]
        · have mirrors := AccountSMT.mirrors_iff_of_written (S := S) hw he hl ho
          simp only [callees,if_true,mirrors,root_toList_inj,true_and,and_true]
        · simp only [callees,if_false,keeps,true_and]
          exact root_toList_inj

end

namespace OneAccount

def approvalBlob : Blob :=
  ⟨"oranj",(Borsh.ser (StructuredBlobData.mk none none approval)).getD []⟩

/-- The only key is the one that is opened. -/
def prove (_ : H256 → H256) (_ : List H256) : Unit := ()

theorem step_accounts : accounts.step prove approval=step alice := by
  have held : (accounts.getAccount "alice@wallet").getD (Account.new "alice@wallet" 0)=alice :=
    evaluated.committed
  simp only [AccountSMT.step,approval,held]
  rfl

theorem supported_approval : Supported OneAccount.tree prove accounts approval where
  sound := by
    rw [step_accounts]
    exact soundCrypto (Or.inl rfl)
  recovers := oneKey_recovers key rootOf prove accounts.tree.leaf
  writable := by
    intro changes he
    rw [evaluated.approved] at he
    obtain rfl := Option.some.inj he
    exact ⟨_,evaluated.written⟩

theorem handle_approval : (accounts.handle OneAccount.tree quote (calldata approval)).isOk=true ∧
    (accounts.buildCommitmentMetadata OneAccount.tree prove approvalBlob).isOk=true := by
  decide +kernel

end OneAccount

open OneAccount in
/-- The approval of an account that the tree holds. -/
theorem handle_agrees_approval :
    Agrees OneAccount.tree OneAccount.quote OneAccount.prove accounts (calldata approval)
      approvalBlob := by
  have run := execute_approval
  have handled := handle_approval
  have quiet : Outcome.Quiet (accounts.handle OneAccount.tree OneAccount.quote
      (calldata approval)) := by
    intro m panics
    have ok := handled.1
    rw [panics] at ok
    cases ok
  cases hm : accounts.buildCommitmentMetadata OneAccount.tree OneAccount.prove approvalBlob with
  | error e =>
    have ok := handled.2
    rw [hm] at ok
    cases ok
  | ok metadata =>
    have supported : ∀ action ctx,parseCalldata SmtTokenAction (calldata approval)=
        .ok (action,ctx) → Supported OneAccount.tree OneAccount.prove accounts action := by
      intro action ctx hp
      rw [run.1] at hp
      obtain ⟨rfl,_⟩ := Prod.mk.inj (Except.ok.inj hp)
      exact supported_approval
    refine (handle_agrees_iff rfl hm quiet supported).mpr ⟨approval,ctx,run.1,?_⟩
    have alone : ctx.calleesBlobs=[] := rfl
    rw [if_pos alone]
    trivial

end TruthSeeker.SmtToken
