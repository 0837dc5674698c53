import TruthSeeker.SmtToken.Contract

namespace TruthSeeker.SmtToken

open Sdk SparseMerkle

/-- The accounts of the token, each under the digest of its address. -/
structure AccountSMT (sha256 : Bytes → H256) where
  tree : Store H256 (fun a => (Account.toH256 sha256 a).toOption) (ByteVec.zero 32)
  keyed : ∀ (key : H256) (a : Account),tree.values[key]?=some a → a.getKey sha256=key

namespace AccountSMT

variable {sha256 : Bytes → H256}

/-- The account committed under a name: an empty one when the tree has none. -/
def committed (T : AccountSMT sha256) (name : Identity) : Account :=
  T.tree.values[Account.computeKey sha256 name]?.getD ⟨name,0,∅⟩

theorem committed_getKey (T : AccountSMT sha256) (name : Identity) :
    (T.committed name).getKey sha256=Account.computeKey sha256 name := by
  unfold committed
  cases hv : T.tree.values[Account.computeKey sha256 name]? with
  | none => rfl
  | some a => exact T.keyed _ a hv

theorem committed_toH256 (T : AccountSMT sha256) (name : Identity) :
    (T.committed name).toH256 sha256=.ok (T.tree.leaf (Account.computeKey sha256 name)) := by
  unfold committed
  cases hv : T.tree.values[Account.computeKey sha256 name]? with
  | none => simp [Store.leaf,hv,Account.toH256]
  | some a =>
    obtain ⟨l,hl,_⟩ := T.tree.stored _ a hv
    have ha : a.toH256 sha256=.ok l := by
      cases hx : a.toH256 sha256 with
      | error e => simp [hx,Except.toOption] at hl
      | ok m => simpa [hx,Except.toOption] using hl
    rw [Store.leaf_of_some hv hl,← ha]
    rfl

end AccountSMT

namespace SmtTokenAction

/-- The accounts that an action may change. -/
def names : SmtTokenAction → List Identity
  | .transfer sender recipient _ => [sender,recipient]
  | .transferFrom owner _ recipient _ => [owner,recipient]
  | .approve owner _ _ => [owner]

/-- The accounts after an action, from the accounts before it. -/
def outcome (lookup : Identity → Option Account) : SmtTokenAction → Option (List Account)
  | .transfer sender recipient amount => do
    let a ← lookup sender
    let b ← lookup recipient
    if amount≤a.balance ∧ (sender≠recipient → b.balance.toNat+amount.toNat<2^128) then
      some (moved sender recipient a b amount)
    else none
  | .transferFrom owner spender recipient amount => do
    let a ← lookup owner
    let b ← lookup recipient
    if amount≤a.allowance spender ∧ amount≤a.balance ∧
        (owner≠recipient → b.balance.toNat+amount.toNat<2^128) then
      some (moved owner recipient (a.updateAllowances spender (a.allowance spender-amount))
        b amount)
    else none
  | .approve owner spender amount => do
    let a ← lookup owner
    if a.balance≠0 then some [a.updateAllowances spender amount] else none

end SmtTokenAction

section
variable {Proof : Type} (S : Scheme H256 H256 H256 Proof) {sha256 : Bytes → H256}
  (T : AccountSMT sha256)

/-- The outcome of an action on the committed accounts. -/
def expected (action : SmtTokenAction) : Option (List Account) :=
  action.outcome (fun name => some (T.committed name))

/-- The outcome of an action on the supplied accounts. -/
def supplied (step : SmtTokenStep Proof) (action : SmtTokenAction) : Option (List Account) :=
  action.outcome (fun name => step.accounts[name]?)

/-- The commitment is that of the tree in which only the named accounts changed, from
their committed values. -/
def Applies (action : SmtTokenAction) (fresh : StateCommitment) : Prop :=
  ∃ changes leaves,expected T action=some changes ∧
    Account.leaves sha256 changes=.ok leaves ∧
    fresh=(S.root (setLeaves T.tree.leaf leaves)).toList

/-- The accounts that the execution and its specification read or write. -/
def InPlay (step : SmtTokenStep Proof) (action : SmtTokenAction) (a : Account) : Prop :=
  (∃ name∈action.names,step.accounts[name]?=some a ∨ a=T.committed name) ∨
  (∃ changed,supplied step action=some changed ∧ a∈changed) ∨
  ∃ changes,expected T action=some changes ∧ a∈changes

/-- The byte strings whose digests the execution and its specification compare. -/
def hashed (step : SmtTokenStep Proof) (action : SmtTokenAction) : Set Bytes :=
  {bs | (∃ name∈action.names,bs=utf8 name) ∨
    ∃ a,InPlay T step action a ∧ (bs=utf8 a.address ∨ Borsh.ser a=some bs)}

/-- No collision of SHA-256 on these strings, no account whose digest is the empty leaf,
and a proof that is sound for the tree before and after the action. -/
structure SoundCrypto (step : SmtTokenStep Proof) (action : SmtTokenAction) : Prop where
  collisionFree : Set.InjOn sha256 (hashed T step action)
  leafNonzero : ∀ a bs,InPlay T step action a → Borsh.ser a=some bs →
    sha256 bs≠ByteVec.zero 32
  soundBefore : Sound S step.proof T.tree.leaf
  soundAfter : ∀ changes leaves,expected T action=some changes →
    Account.leaves sha256 changes=.ok leaves →
    Sound S step.proof (setLeaves T.tree.leaf leaves)
  binding : ∀ changes leaves,expected T action=some changes →
    Account.leaves sha256 changes=.ok leaves →
    S.root T.tree.leaf=S.root (setLeaves T.tree.leaf leaves) →
    T.tree.leaf=setLeaves T.tree.leaf leaves

end

section
variable {Proof : Type} {S : Scheme H256 H256 H256 Proof} {sha256 : Bytes → H256}
  {T : AccountSMT sha256} {step : SmtTokenStep Proof} {action : SmtTokenAction}

namespace Account

theorem toH256_empty {a : Account} (h : a.balance=0) :
    a.toH256 sha256=.ok (ByteVec.zero 32) := by
  simp [toH256,h]

theorem toH256_funded {a : Account} {leaf : H256} (h : a.balance≠0) :
    a.toH256 sha256=.ok leaf ↔ ∃ bs,Borsh.ser a=some bs ∧ sha256 bs=leaf := by
  simp only [toH256,if_neg h,Outcome.bind_eq_ok,Outcome.fromOption_eq_ok,Outcome.pure_eq_ok]

theorem leaves_nil {ls : List (H256 × H256)} : leaves sha256 []=.ok ls ↔ ls=[] := by
  simp [leaves,eq_comm]

theorem leaves_cons {a : Account} {as : List Account} {ls : List (H256 × H256)} :
    leaves sha256 (a::as)=.ok ls ↔ ∃ l rest,a.toH256 sha256=.ok l ∧
      leaves sha256 as=.ok rest ∧ ls=(a.getKey sha256,l)::rest := by
  simp only [leaves,Outcome.bind_eq_ok,Outcome.pure_eq_ok]
  constructor
  · intro h
    obtain ⟨l,hl,rest,hr,hs⟩ := h
    exact ⟨l,rest,hl,hr,hs.symm⟩
  · intro h
    obtain ⟨l,rest,hl,hr,hs⟩ := h
    exact ⟨l,hl,rest,hr,hs.symm⟩

theorem leaves_single {a : Account} {ls : List (H256 × H256)} :
    leaves sha256 [a]=.ok ls ↔ ∃ l,a.toH256 sha256=.ok l ∧ ls=[(a.getKey sha256,l)] := by
  simp [leaves_cons,leaves_nil]

theorem leaves_pair {a b : Account} {ls : List (H256 × H256)} :
    leaves sha256 [a,b]=.ok ls ↔ ∃ l m,a.toH256 sha256=.ok l ∧ b.toH256 sha256=.ok m ∧
      ls=[(a.getKey sha256,l),(b.getKey sha256,m)] := by
  simp only [leaves_cons,leaves_nil]
  constructor
  · intro h
    obtain ⟨l,_,hl,⟨m,_,hm,rfl,rfl⟩,rfl⟩ := h
    exact ⟨l,m,hl,hm,rfl⟩
  · intro h
    obtain ⟨l,m,hl,hm,rfl⟩ := h
    exact ⟨l,_,hl,⟨m,[],hm,rfl,rfl⟩,rfl⟩

@[simp] theorem debit_zero (a : Account) : a.debit 0=a := by
  simp [debit]

@[simp] theorem credit_zero (a : Account) : a.credit 0=a := by
  simp [credit]

end Account

namespace SoundCrypto

variable (crypto : SoundCrypto S T step action)
include crypto

/-- A funded account never has the empty leaf. -/
theorem funded_ne_zero {a : Account} (ha : InPlay T step action a) (hb : a.balance≠0) :
    a.toH256 sha256≠.ok (ByteVec.zero 32) := by
  intro h
  obtain ⟨bs,hs,hz⟩ := (Account.toH256_funded hb).mp h
  exact crypto.leafNonzero a bs ha hs hz

/-- Accounts with one leaf are equal, or both empty. -/
theorem leaf_injective {a c : Account} {l : H256} (ha : InPlay T step action a)
    (hc : InPlay T step action c) (hla : a.toH256 sha256=.ok l)
    (hlc : c.toH256 sha256=.ok l) : a=c ∨ a.balance=0 ∧ c.balance=0 := by
  by_cases hab : a.balance=0
  · right
    have hz : l=ByteVec.zero 32 := by
      rw [Account.toH256_empty hab] at hla
      exact (Except.ok.inj hla).symm
    by_contra hn
    have hcb : c.balance≠0 := fun h => hn ⟨hab,h⟩
    rw [hz] at hlc
    exact crypto.funded_ne_zero hc hcb hlc
  · by_cases hcb : c.balance=0
    · rw [Account.toH256_empty hcb] at hlc
      rw [← hlc] at hla
      exact absurd hla (crypto.funded_ne_zero ha hab)
    · left
      obtain ⟨xs,hx,hdx⟩ := (Account.toH256_funded hab).mp hla
      obtain ⟨ys,hy,hdy⟩ := (Account.toH256_funded hcb).mp hlc
      have hs : xs=ys := by
        apply crypto.collisionFree
        · exact Or.inr ⟨a,ha,Or.inr hx⟩
        · exact Or.inr ⟨c,hc,Or.inr hy⟩
        · rw [hdx,hdy]
      rw [hs] at hx
      exact Borsh.ser_injective hx hy

theorem funded_injective {a c : Account} {l : H256} (ha : InPlay T step action a)
    (hc : InPlay T step action c) (hb : a.balance≠0) (hla : a.toH256 sha256=.ok l)
    (hlc : c.toH256 sha256=.ok l) : a=c := by
  rcases crypto.leaf_injective ha hc hla hlc with h | h
  · exact h
  · exact absurd h.1 hb

theorem key_injective {a : Account} {name : Identity} (ha : InPlay T step action a)
    (hn : name∈action.names) (h : a.getKey sha256=Account.computeKey sha256 name) :
    a.address=name := by
  apply utf8_injective
  apply crypto.collisionFree
  · exact Or.inr ⟨a,ha,Or.inl rfl⟩
  · exact Or.inl ⟨name,hn,rfl⟩
  · exact h

theorem names_injective {m n : Identity} (hm : m∈action.names) (hn : n∈action.names)
    (h : Account.computeKey sha256 m=Account.computeKey sha256 n) : m=n := by
  apply utf8_injective
  apply crypto.collisionFree
  · exact Or.inl ⟨m,hm,rfl⟩
  · exact Or.inl ⟨n,hn,rfl⟩
  · exact h

theorem committed_address {name : Identity} (hn : name∈action.names) :
    (T.committed name).address=name :=
  crypto.key_injective (Or.inl ⟨name,hn,Or.inr rfl⟩) hn (T.committed_getKey name)

/-- A funded account that opens the tree under its name is the committed one. -/
theorem committed_of_funded {a : Account} {name : Identity} (ha : InPlay T step action a)
    (hn : name∈action.names) (hb : a.balance≠0)
    (hl : a.toH256 sha256=.ok (T.tree.leaf (Account.computeKey sha256 name))) :
    T.committed name=a :=
  (crypto.funded_injective ha (Or.inl ⟨name,hn,Or.inr rfl⟩) hb hl
    (T.committed_toH256 name)).symm

omit crypto in
/-- An empty account opens the tree only where it holds no account. -/
theorem committed_of_empty {a : Account} {name : Identity} (hb : a.balance=0)
    (hl : a.toH256 sha256=.ok (T.tree.leaf (Account.computeKey sha256 name))) :
    T.committed name=⟨name,0,∅⟩ := by
  rw [Account.toH256_empty hb] at hl
  have hv := Store.none_of_leaf_zero (Except.ok.inj hl).symm
  simp [AccountSMT.committed,hv]

end SoundCrypto

end

end TruthSeeker.SmtToken
