import TruthSeeker.Framework.SparseMerkle
import TruthSeeker.Model.Contract
import TruthSeeker.Sdk.Utils

namespace TruthSeeker.SmtToken

abbrev Allowances := Std.ExtTreeMap Identity U128

structure Account where
  address : Identity
  balance : U128
  allowances : Allowances
  deriving DecidableEq

def Account.layout : Borsh.Layout Account (Identity × U128 × Allowances) where
  fields a := (a.address,a.balance,a.allowances)
  make := fun (address,balance,allowances) => ⟨address,balance,allowances⟩
  make_fields _ := rfl

instance : Borsh Account := Account.layout.borsh
instance : LawfulBorsh Account := Account.layout.lawful

def checkedSub (a b : U128) : Option U128 := if b≤a then some (a-b) else none

def checkedAdd (a b : U128) : Option U128 :=
  if a.toNat+b.toNat<2^128 then some (a+b) else none

namespace Account

variable (sha256 : Bytes → H256)

def computeKey (address : Identity) : H256 := sha256 (utf8 address)

def getKey (self : Account) : H256 := computeKey sha256 self.address

def updateAllowances (self : Account) (spender : Identity) (amount : U128) : Account :=
  { self with allowances := self.allowances.insert spender amount }

/-- The leaf of an account. Without a balance it is zero, whatever the allowances. -/
def toH256 (self : Account) : Outcome H256 :=
  if self.balance=0 then .ok (ByteVec.zero 32)
  else do
    let serialized ← Outcome.fromOption (Borsh.ser self)
      (.panic "called `Result::unwrap()` on an `Err` value")
    return sha256 serialized

/-- The keys and leaves of the listed accounts. -/
def leaves : List Account → Outcome (List (H256 × H256))
  | [] => .ok []
  | a::as => do
    let leaf ← a.toH256 sha256
    let rest ← leaves as
    return (a.getKey sha256,leaf)::rest

/-- What the owner lets the spender take. -/
def allowance (self : Account) (spender : Identity) : U128 :=
  self.allowances[spender]?.getD 0

def debit (self : Account) (amount : U128) : Account :=
  { self with balance := self.balance-amount }

def credit (self : Account) (amount : U128) : Account :=
  { self with balance := self.balance+amount }

end Account

open Sdk SparseMerkle

inductive SmtTokenAction where
  | transfer (sender recipient : Identity) (amount : U128)
  | transferFrom (owner spender recipient : Identity) (amount : U128)
  | approve (owner spender : Identity) (amount : U128)
  deriving DecidableEq

instance : Borsh SmtTokenAction where
  ser | .transfer sender recipient amount => Borsh.tagged 0 (sender,recipient,amount)
      | .transferFrom owner spender recipient amount =>
          Borsh.tagged 1 (owner,spender,recipient,amount)
      | .approve owner spender amount => Borsh.tagged 2 (owner,spender,amount)
  de | 0::bs => Borsh.payload
        (fun (sender,recipient,amount) => .transfer sender recipient amount) bs
     | 1::bs => Borsh.payload
        (fun (owner,spender,recipient,amount) => .transferFrom owner spender recipient amount) bs
     | 2::bs => Borsh.payload (fun (owner,spender,amount) => .approve owner spender amount) bs
     | _ => none

/-- The accounts of one action with the proof of their leaves. -/
structure SmtTokenStep (Proof : Type) where
  proof : Proof
  accounts : Std.ExtTreeMap Identity Account
  deriving DecidableEq

/-- The steps are in reverse order: the last one is for the next calldata. -/
structure SmtTokenContract (Proof : Type) where
  commitment : StateCommitment
  steps : List (SmtTokenStep Proof)
  deriving DecidableEq

abbrev RunOk := Bytes × ExecutionContext × List OnchainEffect

/-- The root that a commitment holds; another length is a panic. -/
def rootOf (commitment : StateCommitment) : Outcome H256 :=
  if h : commitment.length=32 then .ok ⟨commitment,h⟩
  else Outcome.panic "called `Result::unwrap()` on an `Err` value"

section
variable {Proof : Type} (S : Scheme H256 H256 H256 Proof) (sha256 : Bytes → H256)

/-- The listed accounts are checked against the commitment. -/
def verifyAccounts (commitment : StateCommitment) (proof : Proof) (accounts : List Account) :
    Outcome Unit := do
  let leaves ← Account.leaves sha256 accounts
  let root ← rootOf commitment
  let verified ← Outcome.fromExcept (S.verify proof root leaves)
    (fun _ => .panic "Failed to verify proof")
  Outcome.ensure (verified=true) "Merkle proof invalid"

/-- The commitment after the listed accounts changed. -/
def newCommitment (proof : Proof) (accounts : List Account) : Outcome StateCommitment := do
  let leaves ← Account.leaves sha256 accounts
  let newRoot ← Outcome.fromExcept (S.computeRoot proof leaves)
    (fun _ => .panic "Failed to compute new root")
  return newRoot.toList

def transferNoverif (accounts : Std.ExtTreeMap Identity Account) (proof : Proof)
    (sender recipient : Identity) (amount : U128) : Outcome (String × StateCommitment) := do
  let senderAccount ← Outcome.fromOption accounts[sender]? (.panic "checked above")
  let balance ← Outcome.fromOption (checkedSub senderAccount.balance amount)
    (.err "Insufficient balance")
  let accounts := accounts.insert sender { senderAccount with balance := balance }
  let recipientAccount ← Outcome.fromOption accounts[recipient]? (.panic "checked above")
  let balance ← Outcome.fromOption (checkedAdd recipientAccount.balance amount)
    (.err "Overflow in recipient balance")
  let accounts := accounts.insert recipient { recipientAccount with balance := balance }
  let senderAccount ← Outcome.fromOption accounts[sender]? (.panic "checked above")
  let recipientAccount ← Outcome.fromOption accounts[recipient]? (.panic "checked above")
  let commitment ← newCommitment S sha256 proof
    (if sender=recipient then [senderAccount] else [senderAccount,recipientAccount])
  return (s!"Transferred {amount.toNat} to {recipientAccount.address}",commitment)

def transfer (commitment : StateCommitment) (step : SmtTokenStep Proof)
    (sender recipient : Identity) (amount : U128) : Outcome (String × StateCommitment) := do
  let senderAccount ← Outcome.fromOption step.accounts[sender]? (.err "Sender not found")
  let recipientAccount ← Outcome.fromOption step.accounts[recipient]?
    (.err "Recipient not found")
  verifyAccounts S sha256 commitment step.proof
    (if sender=recipient then [senderAccount] else [senderAccount,recipientAccount])
  transferNoverif S sha256 step.accounts step.proof sender recipient amount

/-- The accounts are not checked against the commitment here. -/
def transferFrom (step : SmtTokenStep Proof) (owner spender recipient : Identity)
    (amount : U128) : Outcome (String × StateCommitment) := do
  let recipientAccount ← Outcome.fromOption step.accounts[recipient]?
    (.err "Recipient not found")
  Outcome.ensure (recipientAccount.address=recipient) "Recipient address mismatch"
  let ownerAccount ← Outcome.fromOption step.accounts[owner]? (.err "Owner not found")
  Outcome.ensure (ownerAccount.address=owner) "Owner address mismatch"
  let allowance := ownerAccount.allowance spender
  Outcome.ensure (amount≤allowance)
    s!"Allowance exceeded for spender={spender} owner={ownerAccount.address} allowance={allowance.toNat}"
  let left ← Outcome.fromOption (checkedSub allowance amount) (.err "Allowance underflow")
  let accounts := step.accounts.insert owner (ownerAccount.updateAllowances spender left)
  transferNoverif S sha256 accounts step.proof owner recipient amount

def approve (commitment : StateCommitment) (step : SmtTokenStep Proof)
    (owner spender : Identity) (amount : U128) : Outcome (String × StateCommitment) := do
  let ownerAccount ← Outcome.fromOption step.accounts[owner]? (.err "Owner account not found")
  verifyAccounts S sha256 commitment step.proof [ownerAccount]
  Outcome.ensure (ownerAccount.balance≠0) s!"Owner account {owner} not found"
  let fresh ← newCommitment S sha256 step.proof [ownerAccount.updateAllowances spender amount]
  return (s!"Approved {amount.toNat} to {spender}",fresh)

/-- The action of the calldata, on the accounts of one step. -/
def runAction (commitment : StateCommitment) (step : SmtTokenStep Proof) :
    SmtTokenAction → Outcome (String × StateCommitment)
  | .transfer sender recipient amount =>
      transfer S sha256 commitment step sender recipient amount
  | .transferFrom owner spender recipient amount =>
      transferFrom S sha256 step owner spender recipient amount
  | .approve owner spender amount => approve S sha256 commitment step owner spender amount

/-- The execution context is returned, but no action reads it. -/
def SmtTokenContract.execute (self : SmtTokenContract Proof) (calldata : Calldata) :
    Outcome RunOk × SmtTokenContract Proof :=
  match parseCalldata SmtTokenAction calldata with
  | .error e => (.error e,self)
  | .ok (action,ctx) =>
    match self.steps.getLast? with
    | none => (Outcome.panic "Incorrect proof setup",self)
    | some step =>
      let self := { self with steps := self.steps.dropLast }
      match runAction S sha256 self.commitment step action with
      | .error e => (.error e,self)
      | .ok (output,commitment) =>
        (.ok (utf8 output,ctx,[]),{ self with commitment := commitment })

end

section
variable {Proof : Type} {S : Scheme H256 H256 H256 Proof} {sha256 : Bytes → H256}

/-- The accounts are those under their keys in the committed tree. -/
def Verified (S : Scheme H256 H256 H256 Proof) (sha256 : Bytes → H256)
    (commitment : StateCommitment) (proof : Proof) (accounts : List Account) : Prop :=
  ∃ leaves root,Account.leaves sha256 accounts=.ok leaves ∧ commitment=root.toList ∧
    S.computeRoot proof leaves=.ok root

/-- The root that the proof gives to the accounts. -/
def Recomputed (S : Scheme H256 H256 H256 Proof) (sha256 : Bytes → H256) (proof : Proof)
    (accounts : List Account) (fresh : StateCommitment) : Prop :=
  ∃ leaves root,Account.leaves sha256 accounts=.ok leaves ∧
    S.computeRoot proof leaves=.ok root ∧ fresh=root.toList

theorem rootOf_eq_ok {commitment : StateCommitment} {root : H256} :
    rootOf commitment=.ok root ↔ commitment=root.toList := by
  unfold rootOf
  split_ifs with h
  · constructor
    · intro he
      rw [← Except.ok.inj he]
    · intro he
      exact congrArg _ (ByteVec.ext he)
  · constructor
    · intro he
      cases he
    · intro he
      rw [he] at h
      exact absurd root.length_toList h

theorem verifyAccounts_eq_ok {commitment : StateCommitment} {proof : Proof}
    {accounts : List Account} {u : Unit} :
    verifyAccounts S sha256 commitment proof accounts=.ok u ↔
      Verified S sha256 commitment proof accounts := by
  simp only [verifyAccounts,Outcome.bind_eq_ok,Outcome.fromExcept_eq_ok,Outcome.ensure_eq_ok,
    rootOf_eq_ok,Verified]
  constructor
  · intro h
    obtain ⟨leaves,hl,root,hr,verified,hv,ht⟩ := h
    rw [ht,verify_eq_true] at hv
    exact ⟨leaves,root,hl,hr,hv⟩
  · intro h
    obtain ⟨leaves,root,hl,hr,hc⟩ := h
    exact ⟨leaves,hl,root,hr,true,verify_eq_true.mpr hc,rfl⟩

theorem newCommitment_eq_ok {proof : Proof} {accounts : List Account}
    {fresh : StateCommitment} :
    newCommitment S sha256 proof accounts=.ok fresh ↔
      Recomputed S sha256 proof accounts fresh := by
  simp only [newCommitment,Outcome.bind_eq_ok,Outcome.fromExcept_eq_ok,Outcome.pure_eq_ok,
    Recomputed]
  constructor
  · intro h
    obtain ⟨leaves,hl,root,hr,hf⟩ := h
    exact ⟨leaves,root,hl,hr,hf.symm⟩
  · intro h
    obtain ⟨leaves,root,hl,hr,hf⟩ := h
    exact ⟨leaves,hl,root,hr,hf.symm⟩

theorem checkedSub_eq_some {a b c : U128} : checkedSub a b=some c ↔ b≤a ∧ c=a-b := by
  unfold checkedSub
  split_ifs with h <;> simp [h,eq_comm]

theorem checkedAdd_eq_some {a b c : U128} :
    checkedAdd a b=some c ↔ a.toNat+b.toNat<2^128 ∧ c=a+b := by
  unfold checkedAdd
  split_ifs with h
  · simp only [Option.some.injEq,h,true_and,eq_comm]
  · constructor
    · intro he
      cases he
    · intro he
      exact absurd he.1 h

/-- The accounts that a transfer leaves: a transfer to oneself changes nothing. -/
def moved (sender recipient : Identity) (senderAccount recipientAccount : Account)
    (amount : U128) : List Account :=
  if sender=recipient then [senderAccount]
  else [senderAccount.debit amount,recipientAccount.credit amount]

theorem moved_self (name : Identity) (a b : Account) (amount : U128) :
    moved name name a b amount=[a] := if_pos rfl

theorem moved_of_ne {sender recipient : Identity} (h : sender≠recipient) (a b : Account)
    (amount : U128) : moved sender recipient a b amount=[a.debit amount,b.credit amount] :=
  if_neg h

theorem sub_add_self (a b : U128) : a-b+b=a := by
  bv_omega

theorem sub_add_toNat {a b : U128} (h : b≤a) : (a-b).toNat+b.toNat<2^128 := by
  bv_omega

/-- A transfer succeeds when the balance of the sender covers the amount and that of
the recipient does not overflow. -/
theorem transferNoverif_eq_ok {accounts : Std.ExtTreeMap Identity Account} {proof : Proof}
    {sender recipient : Identity} {amount : U128} {output : String} {fresh : StateCommitment} :
    transferNoverif S sha256 accounts proof sender recipient amount=.ok (output,fresh) ↔
      ∃ senderAccount recipientAccount,accounts[sender]?=some senderAccount ∧
        accounts[recipient]?=some recipientAccount ∧ amount ≤ senderAccount.balance ∧
        (sender≠recipient → recipientAccount.balance.toNat+amount.toNat<2^128) ∧
        Recomputed S sha256 proof
          (moved sender recipient senderAccount recipientAccount amount) fresh ∧
        output=s!"Transferred {amount.toNat} to {recipientAccount.address}" := by
  simp only [transferNoverif,Outcome.bind_eq_ok,Outcome.fromOption_eq_ok,Outcome.pure_eq_ok,
    checkedSub_eq_some,checkedAdd_eq_some,newCommitment_eq_ok,Prod.mk.injEq]
  by_cases hsr : sender=recipient
  · subst hsr
    simp only [Std.ExtTreeMap.getElem?_insert_self,if_true,moved,ne_eq,not_true,
      false_implies,true_and]
    constructor
    · intro h
      obtain ⟨a,ha,b,⟨hle,rfl⟩,_,hr,c,⟨_,rfl⟩,_,hs,_,ht,f,hf,ho,rfl⟩ := h
      obtain rfl := Option.some.inj hr
      obtain rfl := Option.some.inj hs
      obtain rfl := Option.some.inj ht
      simp only [sub_add_self] at hf ho
      exact ⟨a,a,ha,ha,hle,hf,ho.symm⟩
    · intro h
      obtain ⟨a,b,ha,hb,hle,hf,ho⟩ := h
      obtain rfl : a=b := by simpa [ha] using hb
      refine ⟨a,ha,_,⟨hle,rfl⟩,_,rfl,_,⟨sub_add_toNat hle,rfl⟩,_,rfl,_,rfl,fresh,?_,?_,rfl⟩
      · simpa only [sub_add_self] using hf
      · exact ho.symm
  · have hrs : recipient≠sender := fun h => hsr h.symm
    have hget : ∀ (m : Std.ExtTreeMap Identity Account) (a : Account),
        (m.insert sender a)[recipient]?=m[recipient]? := by
      intro m a
      rw [Std.ExtTreeMap.getElem?_insert]
      simp [hsr]
    have hset : ∀ (m : Std.ExtTreeMap Identity Account) (a : Account),
        (m.insert recipient a)[sender]?=m[sender]? := by
      intro m a
      rw [Std.ExtTreeMap.getElem?_insert]
      simp [hrs]
    simp only [hget,hset,Std.ExtTreeMap.getElem?_insert_self,moved,ne_eq,hsr,
      not_false_eq_true,true_implies]
    constructor
    · intro h
      obtain ⟨a,ha,_,⟨hle,rfl⟩,b,hb,_,⟨hlt,rfl⟩,_,hs,_,ht,f,hf,ho,rfl⟩ := h
      obtain rfl := Option.some.inj hs
      obtain rfl := Option.some.inj ht
      exact ⟨a,b,ha,hb,hle,hlt,hf,ho.symm⟩
    · intro h
      obtain ⟨a,b,ha,hb,hle,hlt,hf,ho⟩ := h
      exact ⟨a,ha,_,⟨hle,rfl⟩,b,hb,_,⟨hlt,rfl⟩,_,rfl,_,rfl,fresh,hf,ho.symm,rfl⟩

/-- What an action requires of the supplied accounts, and the accounts that it leaves. -/
def Accepts (S : Scheme H256 H256 H256 Proof) (sha256 : Bytes → H256)
    (commitment : StateCommitment) (step : SmtTokenStep Proof) (changed : List Account) :
    SmtTokenAction → Prop
  | .transfer sender recipient amount =>
      ∃ senderAccount recipientAccount,step.accounts[sender]?=some senderAccount ∧
        step.accounts[recipient]?=some recipientAccount ∧
        Verified S sha256 commitment step.proof
          (if sender=recipient then [senderAccount] else [senderAccount,recipientAccount]) ∧
        amount ≤ senderAccount.balance ∧
        (sender≠recipient → recipientAccount.balance.toNat+amount.toNat<2^128) ∧
        changed=moved sender recipient senderAccount recipientAccount amount
  | .transferFrom owner spender recipient amount =>
      ∃ ownerAccount recipientAccount,step.accounts[owner]?=some ownerAccount ∧
        step.accounts[recipient]?=some recipientAccount ∧
        ownerAccount.address=owner ∧ recipientAccount.address=recipient ∧
        amount≤ownerAccount.allowance spender ∧ amount≤ownerAccount.balance ∧
        (owner≠recipient → recipientAccount.balance.toNat+amount.toNat<2^128) ∧
        changed=moved owner recipient
          (ownerAccount.updateAllowances spender (ownerAccount.allowance spender-amount))
          recipientAccount amount
  | .approve owner spender amount =>
      ∃ ownerAccount,step.accounts[owner]?=some ownerAccount ∧
        Verified S sha256 commitment step.proof [ownerAccount] ∧ ownerAccount.balance≠0 ∧
        changed=[ownerAccount.updateAllowances spender amount]

theorem transfer_eq_ok {commitment fresh : StateCommitment} {step : SmtTokenStep Proof}
    {sender recipient : Identity} {amount : U128} :
    (∃ output,transfer S sha256 commitment step sender recipient amount=.ok (output,fresh)) ↔
      ∃ changed,Accepts S sha256 commitment step changed
        (.transfer sender recipient amount) ∧ Recomputed S sha256 step.proof changed fresh := by
  simp only [transfer,Outcome.bind_eq_ok,Outcome.fromOption_eq_ok,verifyAccounts_eq_ok,
    transferNoverif_eq_ok,Accepts]
  constructor
  · intro h
    obtain ⟨output,a,ha,b,hb,_,hv,a',b',ha',hb',hle,hlt,hf,_⟩ := h
    obtain rfl : a=a' := by simpa [ha] using ha'
    obtain rfl : b=b' := by simpa [hb] using hb'
    exact ⟨_,⟨a,b,ha,hb,hv,hle,hlt,rfl⟩,hf⟩
  · intro h
    obtain ⟨_,⟨a,b,ha,hb,hv,hle,hlt,rfl⟩,hf⟩ := h
    exact ⟨_,a,ha,b,hb,(),hv,a,b,ha,hb,hle,hlt,hf,rfl⟩

theorem transferFrom_eq_ok {commitment fresh : StateCommitment} {step : SmtTokenStep Proof}
    {owner spender recipient : Identity} {amount : U128} :
    (∃ output,transferFrom S sha256 step owner spender recipient amount=.ok (output,fresh)) ↔
      ∃ changed,Accepts S sha256 commitment step changed
        (.transferFrom owner spender recipient amount) ∧
        Recomputed S sha256 step.proof changed fresh := by
  simp only [transferFrom,Outcome.bind_eq_ok,Outcome.fromOption_eq_ok,Outcome.ensure_eq_ok,
    checkedSub_eq_some,transferNoverif_eq_ok,Accepts]
  constructor
  · intro h
    obtain ⟨output,b,hb,_,hbr,a,ha,_,hao,_,hal,_,⟨_,rfl⟩,a',b',ha',hb',hle,hlt,hf,_⟩ := h
    rw [Std.ExtTreeMap.getElem?_insert_self] at ha'
    obtain rfl := Option.some.inj ha'
    by_cases hor : owner=recipient
    · subst hor
      rw [Std.ExtTreeMap.getElem?_insert_self] at hb'
      obtain rfl := Option.some.inj hb'
      refine ⟨_,⟨a,b,ha,hb,hao,hbr,hal,hle,fun h => absurd rfl h,rfl⟩,?_⟩
      simpa only [moved,if_true] using hf
    · rw [Std.ExtTreeMap.getElem?_insert] at hb'
      obtain rfl : b=b' := by simpa [hor,hb] using hb'
      exact ⟨_,⟨a,b,ha,hb,hao,hbr,hal,hle,hlt,rfl⟩,hf⟩
  · intro h
    obtain ⟨_,⟨a,b,ha,hb,hao,hbr,hal,hle,hlt,rfl⟩,hf⟩ := h
    by_cases hor : owner=recipient
    · subst hor
      obtain rfl : a=b := by simpa [ha] using hb
      refine ⟨_,a,ha,(),hao,a,ha,(),hao,(),hal,_,⟨hal,rfl⟩,_,_,
        Std.ExtTreeMap.getElem?_insert_self,Std.ExtTreeMap.getElem?_insert_self,hle,
        fun h => absurd rfl h,?_,rfl⟩
      simpa only [moved,if_true] using hf
    · refine ⟨_,b,hb,(),hbr,a,ha,(),hao,(),hal,_,⟨hal,rfl⟩,_,b,
        Std.ExtTreeMap.getElem?_insert_self,?_,hle,hlt,hf,rfl⟩
      rw [Std.ExtTreeMap.getElem?_insert]
      simpa [hor] using hb

theorem approve_eq_ok {commitment fresh : StateCommitment} {step : SmtTokenStep Proof}
    {owner spender : Identity} {amount : U128} :
    (∃ output,approve S sha256 commitment step owner spender amount=.ok (output,fresh)) ↔
      ∃ changed,Accepts S sha256 commitment step changed (.approve owner spender amount) ∧
        Recomputed S sha256 step.proof changed fresh := by
  simp only [approve,Outcome.bind_eq_ok,Outcome.fromOption_eq_ok,Outcome.ensure_eq_ok,
    verifyAccounts_eq_ok,newCommitment_eq_ok,Outcome.pure_eq_ok,Prod.mk.injEq,Accepts]
  constructor
  · intro h
    obtain ⟨output,a,ha,_,hv,_,hb,f,hf,_,rfl⟩ := h
    exact ⟨_,⟨a,ha,hv,hb,rfl⟩,hf⟩
  · intro h
    obtain ⟨_,⟨a,ha,hv,hb,rfl⟩,hf⟩ := h
    exact ⟨_,a,ha,(),hv,(),hb,fresh,hf,rfl,rfl⟩

/-- An action succeeds exactly on the accounts that it accepts and the proof recomputes. -/
theorem runAction_eq_ok {commitment fresh : StateCommitment} {step : SmtTokenStep Proof}
    {action : SmtTokenAction} :
    (∃ output,runAction S sha256 commitment step action=.ok (output,fresh)) ↔
      ∃ changed,Accepts S sha256 commitment step changed action ∧
        Recomputed S sha256 step.proof changed fresh := by
  cases action with
  | transfer sender recipient amount => exact transfer_eq_ok
  | transferFrom owner spender recipient amount => exact transferFrom_eq_ok
  | approve owner spender amount => exact approve_eq_ok

theorem execute_eq_ok {self self' : SmtTokenContract Proof} {calldata : Calldata}
    {action : SmtTokenAction} {ctx : ExecutionContext} {out : RunOk}
    (hp : parseCalldata SmtTokenAction calldata=.ok (action,ctx)) :
    self.execute S sha256 calldata=(.ok out,self') ↔
      ∃ step output commitment,self.steps.getLast?=some step ∧
        runAction S sha256 self.commitment step action=.ok (output,commitment) ∧
        out=(utf8 output,ctx,[]) ∧ self'=⟨commitment,self.steps.dropLast⟩ := by
  unfold SmtTokenContract.execute
  rw [hp]
  cases hs : self.steps.getLast? with
  | none => simp [Outcome.panic]
  | some step =>
    cases hr : runAction S sha256 self.commitment step action with
    | error e => simp [hr]
    | ok p =>
      obtain ⟨output,commitment⟩ := p
      simp [hr,eq_comm]

end

end TruthSeeker.SmtToken
