import TruthSeeker.Model.Actions
import TruthSeeker.Sdk.Guest
import TruthSeeker.SmtToken.Caller
import TruthSeeker.SmtToken.Committed

namespace TruthSeeker.SmtToken

open Borsh Sdk SparseMerkle

section Circuit
variable {Proof : Type}

def SmtTokenStep.layout :
    Layout (SmtTokenStep Proof) (Proof × Std.ExtTreeMap Identity Account) where
  fields s := (s.proof,s.accounts)
  make := fun (proof,accounts) => ⟨proof,accounts⟩
  make_fields _ := rfl

instance [Borsh Proof] : Borsh (SmtTokenStep Proof) := SmtTokenStep.layout.borsh
instance [Borsh Proof] [LawfulBorsh Proof] : LawfulBorsh (SmtTokenStep Proof) :=
  SmtTokenStep.layout.lawful

def SmtTokenContract.layout :
    Layout (SmtTokenContract Proof) (StateCommitment × List (SmtTokenStep Proof)) where
  fields c := (c.commitment,c.steps)
  make := fun (commitment,steps) => ⟨commitment,steps⟩
  make_fields _ := rfl

instance [Borsh Proof] : Borsh (SmtTokenContract Proof) := SmtTokenContract.layout.borsh
instance [Borsh Proof] [LawfulBorsh Proof] : LawfulBorsh (SmtTokenContract Proof) :=
  SmtTokenContract.layout.lawful

/-- The token as the circuit runs it. Only the commitment is restored after a failure:
a step that was taken is gone. -/
def zkContract (S : Scheme H256 H256 H256 Proof) (sha256 : Bytes → H256) :
    TransactionalZkContract (SmtTokenContract Proof) where
  execute self calldata := self.execute S sha256 calldata
  commit self := self.commitment
  initializeContract self := (.ok (),self)
  State := StateCommitment
  initialState self := self.commitment
  revert self initialState := { self with commitment := initialState }
  onSuccess self := (self.commitment,self)
  commit_revert _ _ := rfl

end Circuit

namespace OneAccount

/-- An approval that another blob of the transaction names as its caller, and a blob that
is not an action of the token. -/
def composed : Calldata :=
  { calldata approval with
    blobs := [(0,⟨"oranj",(Borsh.ser (StructuredBlobData.mk none none approval)).getD []⟩),
      (1,⟨"oranj",(Borsh.ser (StructuredBlobData.mk (some 0) none DropEndOfReader.dropped)).getD
        []⟩)] }

def metadata : Bytes := (Borsh.ser (contract alice)).getD []

def quote (s : String) : String := "\""++s++"\""

def outputs : List HyleOutput :=
  (Guest.execute (zkContract tree sha256) quote metadata
    [composed,{ composed with index := 1 }]).toOption.getD []

theorem execute_composed :
    fromSlice (SmtTokenContract Unit) metadata=some (contract alice) ∧
    Guest.execute (zkContract tree sha256) quote metadata
      [composed,{ composed with index := 1 }]=.ok outputs := by
  decide +kernel

def twoSteps : Bytes :=
  (Borsh.ser (SmtTokenContract.mk root.toList [step approved,step alice])).getD []

def approvals : List HyleOutput :=
  (Guest.execute (zkContract tree sha256) quote twoSteps
    [calldata approval,calldata approval]).toOption.getD []

theorem execute_approvals :
    (fromSlice (SmtTokenContract Unit) twoSteps=
        some ⟨root.toList,[step approved,step alice]⟩ ∧
      Guest.execute (zkContract tree sha256) quote twoSteps
        [calldata approval,calldata approval]=.ok approvals) ∧
    Chained root.toList approvals ∧ approvals.map (fun output => output.success)=[true,true] := by
  decide +kernel

end OneAccount

open OneAccount in
/-- The approval moves the commitment, but its output is a failure because of the callee:
the next output starts at a state where none has ended. -/
theorem not_execute_chained :
    Guest.execute (zkContract tree sha256) quote metadata
      [composed,{ composed with index := 1 }]=.ok outputs ∧
    ¬Chained (contract alice).commitment outputs := by
  refine ⟨execute_composed.2,?_⟩
  decide +kernel

open OneAccount in
/-- Two approvals are in step. The approval with a callee is not, with a blob behind it. -/
theorem execute_chained_iff_two :
    Guest.Paced (zkContract tree sha256) ⟨root.toList,[step approved,step alice]⟩ root.toList
      [calldata approval,calldata approval] ∧
    ¬Guest.Paced (zkContract tree sha256) (contract alice) root.toList
      [composed,{ composed with index := 1 }] := by
  obtain ⟨approves,chained,_⟩ := execute_approvals
  refine ⟨?_,?_⟩
  · exact (Guest.execute_chained_iff approves.1 approves.2).mp chained rfl
  · intro paced
    have broken : ¬Chained (contract alice).commitment outputs := by decide +kernel
    exact broken ((Guest.execute_chained_iff execute_composed.1 execute_composed.2).mpr
      fun _ => paced)

def TOTAL_SUPPLY : U128 := 100000000000000

def FAUCET_ID : Identity := "faucet@hydentity"

def Account.new (address : Identity) (balance : U128) : Account := ⟨address,balance,∅⟩

namespace AccountSMT

variable {sha256 : Bytes → H256}

def empty : AccountSMT sha256 := ⟨Store.empty,by simp [Store.empty]⟩

theorem keyed_update {T : AccountSMT sha256} {a : Account}
    {tree : Store H256 (fun a => (Account.toH256 sha256 a).toOption) (ByteVec.zero 32)}
    (h : T.tree.update (a.getKey sha256) a=some tree) (key : H256) (b : Account)
    (hb : tree.values[key]?=some b) : b.getKey sha256=key := by
  by_cases hk : key=a.getKey sha256
  · subst hk
    obtain ⟨l,hl,_⟩ := Store.update_eq_some.mp h
    rw [Store.getElem?_update_self h hl] at hb
    split_ifs at hb
    rw [← Option.some.inj hb]
  · rw [Store.getElem?_update_of_ne h hk] at hb
    exact T.keyed key b hb

/-- Writes the account under the digest of its address, which a change of the account keeps.
An account without a balance is removed. -/
def update (self : AccountSMT sha256) (account : Account) : Option (AccountSMT sha256) :=
  match h : self.tree.update (account.getKey sha256) account with
  | none => none
  | some tree => some ⟨tree,keyed_update h⟩

def default (sha256 : Bytes → H256) : Outcome (AccountSMT sha256) :=
  Outcome.fromOption (empty.update (Account.new FAUCET_ID TOTAL_SUPPLY))
    (.panic "Failed to initialize faucet account")

def getAccount (self : AccountSMT sha256) (address : Identity) : Option Account :=
  self.tree.values[Account.computeKey sha256 address]?

/-- A store in memory refuses nothing; an account that cannot be serialized is a panic. -/
def write (self : AccountSMT sha256) (account : Account) : Outcome (AccountSMT sha256) :=
  Outcome.fromOption (self.update account)
    (.panic "called `Result::unwrap()` on an `Err` value")

/-- Both transfers end with this: the balances are checked before the first write. -/
def transferBalance (self : AccountSMT sha256) (sender recipient : Account) (amount : U128) :
    Outcome (String × AccountSMT sha256) := do
  let balance ← Outcome.fromOption (checkedSub sender.balance amount)
    (.err "Insufficient balance")
  let sender := { sender with balance := balance }
  let balance ← Outcome.fromOption (checkedAdd recipient.balance amount)
    (.err "Overflow in recipient balance")
  let recipient := { recipient with balance := balance }
  let self ← self.write sender
  let self ← self.write recipient
  return (s!"Transferred {amount.toNat} to {recipient.address}",self)

def innerHandle (self : AccountSMT sha256) :
    SmtTokenAction → Outcome (String × AccountSMT sha256)
  | .transfer sender recipient amount => do
    let senderAccount ← Outcome.fromOption (self.getAccount sender)
      (.err s!"Sender account {sender} not found")
    if sender=recipient then return (s!"Transferred {amount.toNat} to {recipient}",self)
    else
      let recipientAccount := (self.getAccount recipient).getD (Account.new recipient 0)
      self.transferBalance senderAccount recipientAccount amount
  | .transferFrom owner spender recipient amount => do
    let ownerAccount ← Outcome.fromOption (self.getAccount owner)
      (.err s!"Owner account {owner} not found")
    if owner=recipient then return (s!"Transferred {amount.toNat} to {recipient}",self)
    else
      let recipientAccount := (self.getAccount recipient).getD (Account.new recipient 0)
      let allowance := ownerAccount.allowance spender
      Outcome.ensure (amount≤allowance)
        s!"Allowance exceeded for spender={spender} owner={ownerAccount.address} allowance={allowance.toNat}"
      let left ← Outcome.fromOption (checkedSub allowance amount) (.err "Allowance underflow")
      self.transferBalance (ownerAccount.updateAllowances spender left) recipientAccount amount
  | .approve owner spender amount => do
    let ownerAccount ← Outcome.fromOption (self.getAccount owner)
      (.err s!"Owner account {owner} not found")
    let self ← self.write (ownerAccount.updateAllowances spender amount)
    return (s!"Approved {amount.toNat} to {spender}",self)

variable {Proof : Type} (S : Scheme H256 H256 H256 Proof)

def getStateCommitment (self : AccountSMT sha256) : StateCommitment :=
  (S.root self.tree.leaf).toList

/-- An action that fails has a failed output; a blob that is not parsed has none. -/
def handle (quote : String → String) (self : AccountSMT sha256) (calldata : Calldata) :
    Outcome (HyleOutput × AccountSMT sha256) := do
  let initialStateCommitment := self.getStateCommitment S
  let (action,executionCtx) ← parseCalldata SmtTokenAction calldata
  let output ← Outcome.caught (self.innerHandle action)
  let fresh := match output with
    | .ok (_,fresh) => fresh
    | .error _ => self
  return (asHyleOutput quote initialStateCommitment (fresh.getStateCommitment S) calldata
    (output.map fun p => (utf8 p.1,executionCtx,[])),fresh)

/-- The accounts of an action under their addresses, with the proof of their keys. -/
def step (prove : (H256 → H256) → List H256 → Proof) (self : AccountSMT sha256)
    (action : SmtTokenAction) : SmtTokenStep Proof :=
  let account name := (self.getAccount name).getD (Account.new name 0)
  let pair first second : SmtTokenStep Proof :=
    let firstAccount := account first
    let secondAccount := account second
    let keys := if first=second then [firstAccount.getKey sha256]
      else [firstAccount.getKey sha256,secondAccount.getKey sha256]
    ⟨prove self.tree.leaf keys,
      .ofList [(firstAccount.address,firstAccount),(secondAccount.address,secondAccount)]⟩
  match action with
  | .transfer sender recipient _ => pair sender recipient
  | .transferFrom owner _ recipient _ => pair owner recipient
  | .approve owner _ _ =>
    let ownerAccount := account owner
    ⟨prove self.tree.leaf [ownerAccount.getKey sha256],
      .ofList [(ownerAccount.address,ownerAccount)]⟩

/-- A blob that is not an action gets no step. -/
def contract (prove : (H256 → H256) → List H256 → Proof) (self : AccountSMT sha256)
    (blob : Blob) : SmtTokenContract Proof where
  commitment := self.getStateCommitment S
  steps :=
    match BlobData.parse SmtTokenAction blob.data with
    | some action => [self.step prove action]
    | none => []

def buildCommitmentMetadata [Borsh Proof] (prove : (H256 → H256) → List H256 → Proof)
    (self : AccountSMT sha256) (blob : Blob) : Outcome Bytes :=
  Outcome.fromOption (Borsh.ser (self.contract S prove blob))
    (.err "Failed to serialize SMT Token contract")

/-- The new step is first: the circuit takes the last one. -/
def mergeCommitmentMetadata (Proof : Type) [Borsh Proof] (initial next : Bytes) :
    Outcome Bytes := do
  let initialCommitment ← Outcome.fromOption (fromSlice (SmtTokenContract Proof) initial)
    (.err "Failed to deserialize")
  let nextCommitment ← Outcome.fromOption (fromSlice (SmtTokenContract Proof) next)
    (.err "Failed to deserialize")
  let step ← Outcome.fromOption nextCommitment.steps.head?
    (.panic "index out of bounds: the len is 0 but the index is 0")
  Outcome.fromOption
    (Borsh.ser { initialCommitment with steps := step::initialCommitment.steps })
    (.err "Failed to serialize")

section Written
variable {T fresh : AccountSMT sha256} {name : Identity}
  {a : Account} {action : SmtTokenAction}

theorem ext {t u : AccountSMT sha256} (h : t.tree=u.tree) : t=u := by
  cases t
  cases u
  cases h
  rfl

theorem update_eq_some :
    T.update a=some fresh ↔ T.tree.update (a.getKey sha256) a=some fresh.tree := by
  unfold update
  split
  · next h => simp [h]
  · next tree h =>
    constructor
    · intro eq
      rw [h,← Option.some.inj eq]
    · intro eq
      rw [h] at eq
      exact congrArg some (ext (Option.some.inj eq))

theorem exists_update : (∃ fresh,T.update a=some fresh) ↔ ∃ l,a.toH256 sha256=.ok l := by
  have leaf : (∃ l,(a.toH256 sha256).toOption=some l) ↔ ∃ l,a.toH256 sha256=.ok l := by
    cases a.toH256 sha256 with
    | ok l => simp [Except.toOption]
    | error e => simp [Except.toOption]
  rw [← leaf,← Store.exists_update T.tree (a.getKey sha256) a]
  constructor
  · intro h
    obtain ⟨fresh,h⟩ := h
    exact ⟨fresh.tree,update_eq_some.mp h⟩
  · intro h
    obtain ⟨tree,h⟩ := h
    exact ⟨⟨tree,keyed_update h⟩,update_eq_some.mpr h⟩

/-- The account under a name, or an empty one. -/
theorem getD_getAccount (T : AccountSMT sha256) (name : Identity) :
    (T.getAccount name).getD (Account.new name 0)=T.committed name := rfl

theorem committed_of_getAccount (h : T.getAccount name=some a) : T.committed name=a := by
  rw [← getD_getAccount,h]
  rfl

/-- A stored account has a balance. -/
theorem balance_ne_zero (h : T.getAccount name=some a) : a.balance≠0 := by
  intro hb
  obtain ⟨l,hl,hz⟩ := T.tree.stored _ a h
  rw [Account.toH256_empty hb] at hl
  exact hz (Option.some.inj hl).symm

theorem leaf_update (h : T.update a=some fresh) : ∃ l,a.toH256 sha256=.ok l ∧
    fresh.tree.leaf=Function.update T.tree.leaf (a.getKey sha256) l := by
  have hu := update_eq_some.mp h
  obtain ⟨l,hl,_⟩ := Store.update_eq_some.mp hu
  refine ⟨l,?_,Store.leaf_update hu hl⟩
  cases hx : a.toH256 sha256 with
  | error e => simp [hx,Except.toOption] at hl
  | ok m => simpa [hx,Except.toOption] using hl

/-- The accounts that an action writes, nothing if it fails. -/
def written (T : AccountSMT sha256) : SmtTokenAction → Option (List Account)
  | .transfer sender recipient amount =>
    (T.getAccount sender).bind fun a =>
      if sender=recipient then some []
      else if amount≤a.balance ∧ (T.committed recipient).balance.toNat+amount.toNat<2^128 then
        some [a.debit amount,(T.committed recipient).credit amount]
      else none
  | .transferFrom owner spender recipient amount =>
    (T.getAccount owner).bind fun a =>
      if owner=recipient then some []
      else if amount≤a.allowance spender ∧ amount≤a.balance ∧
          (T.committed recipient).balance.toNat+amount.toNat<2^128 then
        some [(a.updateAllowances spender (a.allowance spender-amount)).debit amount,
          (T.committed recipient).credit amount]
      else none
  | .approve owner spender amount =>
    (T.getAccount owner).map fun a => [a.updateAllowances spender amount]

def updateAll (T : AccountSMT sha256) : List Account → Option (AccountSMT sha256)
  | [] => some T
  | a::as => (T.update a).bind fun T => T.updateAll as

theorem write_eq_ok : T.write a=.ok fresh ↔ T.update a=some fresh := Outcome.fromOption_eq_ok

theorem transferBalance_eq_ok {b : Account} {amount : U128} {output : String} :
    T.transferBalance a b amount=.ok (output,fresh) ↔ amount≤a.balance ∧
      b.balance.toNat+amount.toNat<2^128 ∧
      T.updateAll [a.debit amount,b.credit amount]=some fresh ∧
      output=s!"Transferred {amount.toNat} to {b.address}" := by
  simp only [transferBalance,Outcome.bind_eq_ok,Outcome.fromOption_eq_ok,Outcome.pure_eq_ok,
    checkedSub_eq_some,checkedAdd_eq_some,write_eq_ok,updateAll,Option.bind_eq_some_iff,
    Prod.mk.injEq]
  constructor
  · intro h
    obtain ⟨_,⟨hle,rfl⟩,_,⟨hlt,rfl⟩,mid,hm,last,hl,ho,rfl⟩ := h
    exact ⟨hle,hlt,⟨mid,hm,last,hl,rfl⟩,ho.symm⟩
  · intro h
    obtain ⟨hle,hlt,⟨mid,hm,last,hl,hf⟩,ho⟩ := h
    exact ⟨_,⟨hle,rfl⟩,_,⟨hlt,rfl⟩,mid,hm,last,hl,ho.symm,Option.some.inj hf⟩

/-- An action succeeds exactly if it writes accounts that can be written. -/
theorem innerHandle_eq_ok : (∃ output,T.innerHandle action=.ok (output,fresh)) ↔
    ∃ changes,T.written action=some changes ∧ T.updateAll changes=some fresh := by
  cases action with
  | transfer sender recipient amount =>
    simp only [innerHandle,Outcome.bind_eq_ok,Outcome.fromOption_eq_ok,written,
      Option.bind_eq_some_iff]
    by_cases hsr : sender=recipient
    · simp only [hsr,if_true,Outcome.pure_eq_ok,Prod.mk.injEq,Option.some.injEq]
      constructor
      · intro h
        obtain ⟨_,a,ha,_,hf⟩ := h
        exact ⟨[],⟨a,ha,rfl⟩,congrArg some hf⟩
      · intro h
        obtain ⟨_,⟨a,ha,hc⟩,hf⟩ := h
        subst hc
        exact ⟨_,a,ha,rfl,Option.some.inj hf⟩
    · simp only [hsr,if_false,getD_getAccount,transferBalance_eq_ok]
      constructor
      · intro h
        obtain ⟨_,a,ha,hle,hlt,hf,_⟩ := h
        exact ⟨_,⟨a,ha,if_pos ⟨hle,hlt⟩⟩,hf⟩
      · intro h
        obtain ⟨changes,⟨a,ha,hc⟩,hf⟩ := h
        split_ifs at hc with enough
        obtain rfl := Option.some.inj hc
        exact ⟨_,a,ha,enough.1,enough.2,hf,rfl⟩
  | transferFrom owner spender recipient amount =>
    simp only [innerHandle,Outcome.bind_eq_ok,Outcome.fromOption_eq_ok,written,
      Option.bind_eq_some_iff]
    by_cases hor : owner=recipient
    · simp only [hor,if_true,Outcome.pure_eq_ok,Prod.mk.injEq,Option.some.injEq]
      constructor
      · intro h
        obtain ⟨_,a,ha,_,hf⟩ := h
        exact ⟨[],⟨a,ha,rfl⟩,congrArg some hf⟩
      · intro h
        obtain ⟨_,⟨a,ha,hc⟩,hf⟩ := h
        subst hc
        exact ⟨_,a,ha,rfl,Option.some.inj hf⟩
    · simp only [hor,if_false,getD_getAccount,Outcome.bind_eq_ok,Outcome.ensure_eq_ok,
        Outcome.fromOption_eq_ok,checkedSub_eq_some,transferBalance_eq_ok]
      constructor
      · intro h
        obtain ⟨_,a,ha,_,hal,_,⟨_,hl⟩,hle,hlt,hf,_⟩ := h
        subst hl
        exact ⟨_,⟨a,ha,if_pos ⟨hal,hle,hlt⟩⟩,hf⟩
      · intro h
        obtain ⟨changes,⟨a,ha,hc⟩,hf⟩ := h
        split_ifs at hc with enough
        obtain rfl := Option.some.inj hc
        exact ⟨_,a,ha,(),enough.1,_,⟨enough.1,rfl⟩,enough.2.1,enough.2.2,hf,rfl⟩
  | approve owner spender amount =>
    simp only [innerHandle,Outcome.bind_eq_ok,Outcome.fromOption_eq_ok,Outcome.pure_eq_ok,
      write_eq_ok,written,Option.map_eq_some_iff,Prod.mk.injEq]
    constructor
    · intro h
      obtain ⟨_,a,ha,last,hw,_,hf⟩ := h
      subst hf
      refine ⟨_,⟨a,ha,rfl⟩,?_⟩
      simp [updateAll,hw]
    · intro h
      obtain ⟨_,⟨a,ha,hc⟩,hf⟩ := h
      subst hc
      obtain ⟨last,hw,hl⟩ := Option.bind_eq_some_iff.mp hf
      exact ⟨_,a,ha,last,hw,rfl,Option.some.inj hl⟩

theorem transferBalance_refused {b : Account} {amount : U128}
    (h : ¬(amount≤a.balance ∧ b.balance.toNat+amount.toNat<2^128)) :
    ∃ m,T.transferBalance a b amount=.error (.err m) := by
  by_cases hle : amount≤a.balance
  · have hlt : ¬b.balance.toNat+amount.toNat<2^128 := fun hlt => h ⟨hle,hlt⟩
    refine ⟨"Overflow in recipient balance",?_⟩
    simp only [transferBalance,checkedSub,checkedAdd,if_pos hle,if_neg hlt,Outcome.fromOption,
      bind,Except.bind]
  · refine ⟨"Insufficient balance",?_⟩
    simp only [transferBalance,checkedSub,if_neg hle,Outcome.fromOption,bind,Except.bind]

/-- Any other action is an error. -/
theorem innerHandle_refused (h : T.written action=none) :
    ∃ m,T.innerHandle action=.error (.err m) := by
  cases action with
  | transfer sender recipient amount =>
    cases ha : T.getAccount sender with
    | none =>
      refine ⟨s!"Sender account {sender} not found",?_⟩
      simp only [innerHandle,ha,Outcome.fromOption,bind,Except.bind]
    | some a =>
      simp only [written,ha,Option.bind_some] at h
      split_ifs at h with hsr short
      obtain ⟨m,hm⟩ := transferBalance_refused (T := T) short
      refine ⟨m,?_⟩
      simp only [innerHandle,ha,hsr,if_false,Outcome.fromOption,bind,Except.bind,
        getD_getAccount,hm]
  | transferFrom owner spender recipient amount =>
    cases ha : T.getAccount owner with
    | none =>
      refine ⟨s!"Owner account {owner} not found",?_⟩
      simp only [innerHandle,ha,Outcome.fromOption,bind,Except.bind]
    | some a =>
      simp only [written,ha,Option.bind_some] at h
      split_ifs at h with hor short
      by_cases hal : amount≤a.allowance spender
      · obtain ⟨m,hm⟩ := transferBalance_refused (T := T)
          (a := a.updateAllowances spender (a.allowance spender-amount))
          (fun enough => short ⟨hal,enough⟩)
        refine ⟨m,?_⟩
        simp only [innerHandle,ha,hor,if_false,Outcome.fromOption,bind,Except.bind,
          getD_getAccount,Outcome.ensure,if_pos hal,checkedSub,hm]
      · refine ⟨s!"Allowance exceeded for spender={spender} owner={a.address} allowance={(a.allowance spender).toNat}",?_⟩
        simp only [innerHandle,ha,hor,if_false,Outcome.fromOption,bind,Except.bind,
          Outcome.ensure,if_neg hal,Outcome.err]
  | approve owner spender amount =>
    cases ha : T.getAccount owner with
    | none =>
      refine ⟨s!"Owner account {owner} not found",?_⟩
      simp only [innerHandle,ha,Outcome.fromOption,bind,Except.bind]
    | some a => simp [written,ha] at h

theorem write_ne_err {m : String} : T.write a≠.error (.err m) := by
  unfold write
  cases T.update a with
  | none => simp [Outcome.fromOption]
  | some fresh => simp [Outcome.fromOption]

theorem transferBalance_ne_err {b : Account} {amount : U128} {m : String}
    (hle : amount≤a.balance) (hlt : b.balance.toNat+amount.toNat<2^128) :
    T.transferBalance a b amount≠.error (.err m) := by
  intro h
  simp only [transferBalance,checkedSub,checkedAdd,if_pos hle,if_pos hlt,Outcome.fromOption,bind,
    Except.bind] at h
  split at h
  · next first => exact write_ne_err (first.trans (congrArg _ (Except.error.inj h)))
  · split at h
    · next second => exact write_ne_err (second.trans (congrArg _ (Except.error.inj h)))
    · cases h

/-- An action that writes accounts is no error: it panics where one cannot be written. -/
theorem innerHandle_ne_err {changes : List Account} {m : String}
    (h : T.written action=some changes) : T.innerHandle action≠.error (.err m) := by
  intro refused
  cases action with
  | transfer sender recipient amount =>
    obtain ⟨a,ha,hc⟩ := Option.bind_eq_some_iff.mp h
    simp only [innerHandle,ha,Outcome.fromOption,bind,Except.bind,getD_getAccount] at refused
    split_ifs at hc refused with hsr enough
    · cases refused
    · exact transferBalance_ne_err enough.1 enough.2 refused
  | transferFrom owner spender recipient amount =>
    obtain ⟨a,ha,hc⟩ := Option.bind_eq_some_iff.mp h
    simp only [innerHandle,ha,Outcome.fromOption,bind,Except.bind,getD_getAccount] at refused
    split_ifs at hc refused with hor enough
    · cases refused
    · simp only [Outcome.ensure,if_pos enough.1,checkedSub] at refused
      exact transferBalance_ne_err (a := a.updateAllowances spender (a.allowance spender-amount))
        enough.2.1 enough.2.2 refused
  | approve owner spender amount =>
    obtain ⟨a,ha,hc⟩ := Option.map_eq_some_iff.mp h
    simp only [innerHandle,ha,Outcome.fromOption,bind,Except.bind] at refused
    split at refused
    · next first => exact write_ne_err (first.trans (congrArg _ (Except.error.inj refused)))
    · cases refused

end Written

end AccountSMT

end TruthSeeker.SmtToken
