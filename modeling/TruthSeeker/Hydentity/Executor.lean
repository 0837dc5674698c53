import TruthSeeker.Amm.Executor
import TruthSeeker.Sdk.Guest

namespace TruthSeeker

open Bytes Borsh Sdk

inductive HydentityAction where
  | registerIdentity (account : String)
  | verifyIdentity (account : String) (nonce : UInt32)
  | getIdentityInfo (account : String)
  deriving DecidableEq

instance : Borsh HydentityAction where
  ser | .registerIdentity account => tagged 0 account
      | .verifyIdentity account nonce => tagged 1 (account,nonce)
      | .getIdentityInfo account => tagged 2 account
  de | 0::bs => payload .registerIdentity bs
     | 1::bs => payload (fun (p : String × UInt32) => .verifyIdentity p.1 p.2) bs
     | 2::bs => payload .getIdentityInfo bs
     | _ => none

namespace Hydentity

structure AccountInfo where
  hash : String
  nonce : UInt32
  deriving DecidableEq

def AccountInfo.layout : Borsh.Layout AccountInfo (String × UInt32) where
  fields info := (info.hash,info.nonce)
  make := fun (hash,nonce) => ⟨hash,nonce⟩
  make_fields _ := rfl

instance : Borsh AccountInfo := AccountInfo.layout.borsh
instance : LawfulBorsh AccountInfo := AccountInfo.layout.lawful

end Hydentity

structure Hydentity where
  identities : Std.ExtTreeMap String Hydentity.AccountInfo

def Hydentity.layout :
    Borsh.Layout Hydentity (Std.ExtTreeMap String Hydentity.AccountInfo) where
  fields h := h.identities
  make identities := ⟨identities⟩
  make_fields _ := rfl

instance : Borsh Hydentity := Hydentity.layout.borsh
instance : LawfulBorsh Hydentity := Hydentity.layout.lawful

namespace Hydentity

variable (sha256 : Bytes → H256) (toJson : AccountInfo → String) (self : Hydentity)

/-- The state of a new contract. -/
def default : Hydentity := ⟨∅⟩

/-- The text that is hashed for an account and its password. -/
def credential (name privateInput : String) : Bytes := utf8 (name++":"++privateInput)

def hashed (name privateInput : String) : String :=
  hex (sha256 (credential name privateInput)).toList

/-- The pieces of a registration `account:hash`. -/
def pieces (registration : String) : List String :=
  (registration.toList.splitOn ':').map String.ofList

/-- An account that exists is found out after it has been overwritten. -/
def registerIdentity (registration privateInput : String) : Except String Unit × Hydentity :=
  match pieces registration with
  | [] => (.error "No account name found in registration",self)
  | [_] => (.error "No hash found in registratio",self)
  | name::hash::_ =>
      let accountInfo : AccountInfo := ⟨hashed sha256 name privateInput,0⟩
      if hash≠accountInfo.hash then (.error "Invalid hash or password",self)
      else
        let next : Hydentity := ⟨self.identities.insert name accountInfo⟩
        if self.identities.contains name then (.error "Identity already exists",next)
        else (.ok (),next)

def verifyIdentity (account : String) (nonce : UInt32) (privateInput : String) :
    Except String Bool × Hydentity :=
  match self.identities[account]? with
  | none => (.error "Identity not found",self)
  | some storedInfo =>
      if nonce≠storedInfo.nonce then (.error "Invalid nonce",self)
      else if storedInfo.hash≠hashed sha256 account privateInput then (.ok false,self)
      else
        (.ok true,
          ⟨self.identities.insert account { storedInfo with nonce := storedInfo.nonce+1 }⟩)

def getIdentityInfo (account : String) : Except String String :=
  match self.identities[account]? with
  | some info => .ok (toJson info)
  | none => .error "Identity not found"

def executeIdentityAction (action : HydentityAction) (privateInput : String) :
    Except String String × Hydentity :=
  match action with
  | .registerIdentity account =>
      match self.registerIdentity sha256 account privateInput with
      | (.ok _,next) => (.ok s!"Successfully registered identity for account: {account}",next)
      | (.error e,next) => (.error s!"Failed to register identity: {e}",next)
  | .verifyIdentity account nonce =>
      match self.verifyIdentity sha256 account nonce privateInput with
      | (.ok true,next) => (.ok s!"Identity verified for account: {account}",next)
      | (.ok false,next) => (.error s!"Identity verification failed for account: {account}",next)
      | (.error e,next) => (.error s!"Error verifying identity: {e}",next)
  | .getIdentityInfo account =>
      match self.getIdentityInfo toJson account with
      | .ok info => (.ok s!"Retrieved identity info for account: {account}: {info}",self)
      | .error e => (.error s!"Failed to get identity info: {e}",self)

def execute (calldata : Calldata) :
    Outcome (Bytes × ExecutionContext × List OnchainEffect) × Hydentity :=
  match parseRawCalldata HydentityAction calldata with
  | .error fault => (.error fault,self)
  | .ok (action,execCtx) =>
      match String.fromUTF8? ⟨calldata.privateInput.toArray⟩ with
      | none => (.error (.err "Invalid UTF-8 sequence"),self)
      | some privateInput =>
          let (output,next) := self.executeIdentityAction sha256 toJson action privateInput
          (Outcome.fromExcept (output.map fun text => (utf8 text,execCtx,[])) .err,next)

/-- What the commitment hashes. -/
def preimage : Bytes :=
  self.identities.toList.flatMap fun p =>
    utf8 p.1++utf8 p.2.hash++(ofNatLE 4 p.2.nonce.toNat).reverse

def commit : StateCommitment := (sha256 self.preimage).toList

end Hydentity

/-- The contract as the circuit and the executor run it. -/
def hydentity (sha256 : Bytes → H256) (toJson : Hydentity.AccountInfo → String) :
    ZkContract Hydentity where
  execute self := self.execute sha256 toJson
  commit self := self.commit sha256
  initializeContract self := (.ok (),self)

end TruthSeeker

namespace TruthSeeker.Hydentity

open Sdk Bytes

variable {sha256 : Bytes → H256} {toJson : AccountInfo → String} {quote : String → String}
  {self : Hydentity} {calldata : Calldata}

/-- A registration that checks, of an account that exists: it is refused with the stored
nonce and hash replaced. -/
def Overwrites (sha256 : Bytes → H256) (self : Hydentity) (calldata : Calldata) : Prop :=
  ∃ registration ctx privateInput name hash others info,
    parseRawCalldata HydentityAction calldata=.ok (.registerIdentity registration,ctx) ∧
    String.fromUTF8? ⟨calldata.privateInput.toArray⟩=some privateInput ∧
    pieces registration=name::hash::others ∧ hash=hashed sha256 name privateInput ∧
    self.identities[name]?=some info ∧ info≠⟨hash,0⟩

theorem insert_eq_self {name : String} {info other : AccountInfo}
    (stored : self.identities[name]?=some info) :
    Hydentity.mk (self.identities.insert name other)=self ↔ other=info := by
  constructor
  · intro same
    rw [← same,Std.ExtTreeMap.getElem?_insert_self] at stored
    exact Option.some.inj stored
  · rintro rfl
    obtain ⟨identities⟩ := self
    congr 1
    ext1 key
    rw [Std.ExtTreeMap.getElem?_insert]
    split_ifs with here
    · rw [← Std.LawfulEqOrd.compare_eq_iff_eq.mp here,stored]
    · rfl

theorem registerIdentity_of_pieces (self : Hydentity)
    {registration privateInput name hash : String} {others : List String} (split : pieces registration=name::hash::others)
    (checks : hash=hashed sha256 name privateInput) :
    self.registerIdentity sha256 registration privateInput=
      (if self.identities.contains name then .error "Identity already exists" else .ok (),
        ⟨self.identities.insert name ⟨hash,0⟩⟩) := by
  simp only [registerIdentity,split,← checks,ne_eq,not_true,if_false]
  split_ifs <;> rfl

theorem registerIdentity_cases (self : Hydentity) (sha256 : Bytes → H256)
    (registration privateInput : String) :
    (∃ e,self.registerIdentity sha256 registration privateInput=(.error e,self)) ∨
    ∃ name hash others,pieces registration=name::hash::others ∧
      hash=hashed sha256 name privateInput := by
  match split : pieces registration with
  | [] => exact .inl ⟨_,by simp only [registerIdentity,split]; rfl⟩
  | [_] => exact .inl ⟨_,by simp only [registerIdentity,split]; rfl⟩
  | name::hash::others =>
    by_cases checks : hash=hashed sha256 name privateInput
    · exact .inr ⟨name,hash,others,rfl,checks⟩
    · exact .inl ⟨_,by simp only [registerIdentity,split,checks,ne_eq,not_false_eq_true,if_true]; rfl⟩

/-- A verification that does not succeed keeps the state. -/
theorem verifyIdentity_cases (self : Hydentity) (sha256 : Bytes → H256) (account : String)
    (nonce : UInt32) (privateInput : String) :
    (∃ e,self.verifyIdentity sha256 account nonce privateInput=(.error e,self)) ∨
    self.verifyIdentity sha256 account nonce privateInput=(.ok false,self) ∨
    ∃ info,self.identities[account]?=some info ∧ info.nonce=nonce ∧
      info.hash=hashed sha256 account privateInput ∧
      self.verifyIdentity sha256 account nonce privateInput=
        (.ok true,⟨self.identities.insert account ⟨info.hash,nonce+1⟩⟩) := by
  cases stored : self.identities[account]? with
  | none => exact .inl ⟨_,by simp only [verifyIdentity,stored]; rfl⟩
  | some info =>
    by_cases current : nonce=info.nonce
    · by_cases checks : info.hash=hashed sha256 account privateInput
      · refine .inr (.inr ⟨info,rfl,current.symm,checks,?_⟩)
        simp only [verifyIdentity,stored,current,ne_eq,not_true,if_false,← checks]
      · refine .inr (.inl ?_)
        simp only [verifyIdentity,stored,current,checks,ne_eq,not_true,not_false_eq_true,if_true,
          if_false]
    · exact .inl ⟨_,by
        simp only [verifyIdentity,stored,current,ne_eq,not_false_eq_true,if_true]; rfl⟩

/-- A failed execution that changes the state is a registration found out too late. -/
theorem execute_changed {m : String}
    (failed : (self.execute sha256 toJson calldata).1=.error (.err m))
    (changed : (self.execute sha256 toJson calldata).2≠self) : self.Overwrites sha256 calldata := by
  cases parsed : parseRawCalldata HydentityAction calldata with
  | error fault => simp [execute,parsed] at changed
  | ok parsed_action =>
    obtain ⟨action,ctx⟩ := parsed_action
    cases text : String.fromUTF8? ⟨calldata.privateInput.toArray⟩ with
    | none => simp [execute,parsed,text] at changed
    | some privateInput =>
      simp only [execute,parsed,text] at failed changed
      cases action with
      | getIdentityInfo account =>
        exfalso
        apply changed
        simp only [executeIdentityAction]
        split <;> rfl
      | verifyIdentity account nonce =>
        obtain ⟨e,refused⟩|refused|⟨info,_,_,_,went⟩ :=
          verifyIdentity_cases self sha256 account nonce privateInput
        · simp [executeIdentityAction,refused] at changed
        · simp [executeIdentityAction,refused] at changed
        · simp [executeIdentityAction,went,Except.map,Outcome.fromExcept] at failed
      | registerIdentity registration =>
        obtain ⟨e,refused⟩|⟨name,hash,others,split,checks⟩ :=
          registerIdentity_cases self sha256 registration privateInput
        · simp [executeIdentityAction,refused] at changed
        · have register := registerIdentity_of_pieces self split checks
          by_cases known : self.identities.contains name
          · rw [if_pos known] at register
            simp only [executeIdentityAction,register] at changed
            rw [Std.ExtTreeMap.contains_eq_isSome_getElem?] at known
            obtain ⟨info,stored⟩ := Option.isSome_iff_exists.mp known
            refine ⟨registration,ctx,privateInput,name,hash,others,info,parsed,text,split,checks,
              stored,fun same => changed ?_⟩
            exact (insert_eq_self stored).mpr same.symm
          · rw [if_neg known] at register
            simp [executeIdentityAction,register,Except.map,Outcome.fromExcept] at failed

theorem atomic_iff : Atomic (execute sha256 toJson) (fun self => .ok (self.commit sha256)) quote
    self calldata ↔ ¬self.Overwrites sha256 calldata := by
  rw [Sdk.atomic_iff]
  constructor
  · rintro atomic ⟨registration,ctx,privateInput,name,hash,others,info,parsed,text,split,checks,
      stored,differs⟩
    have register := registerIdentity_of_pieces self split checks
    have known : self.identities.contains name := by
      rw [Std.ExtTreeMap.contains_eq_isSome_getElem?,stored]
      rfl
    rw [if_pos known] at register
    obtain ⟨m,run⟩ : ∃ m,self.execute sha256 toJson calldata=
        (.error (.err m),⟨self.identities.insert name ⟨hash,0⟩⟩) :=
      ⟨_,by simp only [execute,parsed,text,executeIdentityAction,register,Except.map,
        Outcome.fromExcept]; rfl⟩
    have kept := atomic m (by rw [run]) _ rfl
    rw [run] at kept
    exact differs ((insert_eq_self stored).mp kept).symm
  · intro clean m failed _ _
    by_contra changed
    exact clean (execute_changed failed changed)

/-- The executors of the two contracts keep their state over a failure, except where an update
comes before the check that fails. -/
theorem handlers_atomic (quote : String → String) (sha256 : Bytes → H256)
    (toJson : AccountInfo → String) (calldata : Calldata) :
    (∀ amm : Amm,Atomic (Amm.execute quote) Amm.commit quote amm calldata ↔
      ¬amm.Spoils calldata) ∧
    ∀ self : Hydentity,
      Atomic (execute sha256 toJson) (fun self => .ok (self.commit sha256)) quote self calldata ↔
        ¬self.Overwrites sha256 calldata :=
  ⟨fun _ => Amm.atomic_iff,fun _ => atomic_iff⟩

section Examples

/-- SHA-256 of the credential of `bob`, and of the one with an empty password. -/
def bobDigest : H256 :=
  ByteVec.ofNat 32 0x247647663e2c0f5f45be9ea230dfab521269ea3800577983be5e1e39d31214e5
def emptyDigest : H256 :=
  ByteVec.ofNat 32 0x886300ad0a5fa985341a8059d5731751931cf51c0334e72a5692b85cd13ddb53

def knownDigests : List (Bytes × H256) :=
  [(credential "bob@hydentity" "pw",bobDigest),(credential "bob@hydentity" "",emptyDigest)]

def knownSha256 : Bytes → H256 := ByteVec.lookup knownDigests

def registration : HydentityAction := .registerIdentity ("bob@hydentity:"++hex bobDigest.toList)

def bobCalldata (action : HydentityAction) (password : String) : Calldata where
  txHash := ""
  identity := "bob@hydentity"
  blobs := [(0,⟨"hydentity",(Borsh.ser action).getD []⟩)]
  txBlobCount := 1
  index := 0
  txCtx := none
  privateInput := utf8 password

/-- `bob` after three verifications. -/
def registered : Hydentity :=
  ⟨(∅ : Std.ExtTreeMap String AccountInfo).insert "bob@hydentity" ⟨hex bobDigest.toList,3⟩⟩

/-- A swap of one token for all ten of the other. -/
def greedySwap : Calldata where
  txHash := ""
  identity := "bob@hydentity"
  blobs := [
    (0,⟨"amm",(Borsh.ser (StructuredBlobData.mk none (some [1,2])
      (AmmAction.swap ("token1","token2") (1,10)))).getD []⟩),
    (1,⟨"token1",(Borsh.ser (StructuredBlobData.mk (some 0) none
      (HyllarAction.transferFrom "bob@hydentity" "amm" 1))).getD []⟩),
    (2,⟨"token2",(Borsh.ser (StructuredBlobData.mk (some 0) none
      (HyllarAction.transfer "bob@hydentity" 10))).getD []⟩)]
  txBlobCount := 3
  index := 0
  txCtx := none
  privateInput := []

theorem not_handlers_atomic :
    ¬Atomic (Amm.execute id) Amm.commit id (Amm.pool 10 10) greedySwap ∧
    ¬Atomic (execute knownSha256 fun _ => "") (fun self => .ok (self.commit knownSha256)) id
      registered (bobCalldata registration "pw") := by
  constructor
  · intro atomic
    have failed : ((Amm.pool 10 10).execute id greedySwap).1=.error (.err
        "Invalid swap: expected to receive between 0 and 1 token2") := by decide +kernel
    have kept := congrArg (fun amm : Amm => amm.pairs[UnorderedTokenPair.new "token1" "token2"]?)
      (atomic _ failed)
    exact absurd kept (by decide +kernel)
  · intro atomic
    have failed : (registered.execute knownSha256 (fun _ => "")
        (bobCalldata registration "pw")).1=.error (.err
          "Failed to register identity: Identity already exists") := by decide +kernel
    have kept := congrArg (fun self : Hydentity => self.identities["bob@hydentity"]?)
      (atomic _ failed)
    exact absurd kept (by decide +kernel)

end Examples

end TruthSeeker.Hydentity
