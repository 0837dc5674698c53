import TruthSeeker.Sdk.Secp256k1
import TruthSeeker.Sdk.Utils

namespace TruthSeeker.Wallet

open Bytes Sdk

abbrev InviteCodePubKey := ByteVec 33

inductive AuthMethod where
  | password (hash : String)
  | uninitialized
  deriving DecidableEq

instance : Borsh AuthMethod where
  ser | .password hash => Borsh.tagged 0 hash
      | .uninitialized => some [1]
  de | 0::bs => Borsh.payload .password bs
     | 1::bs => some (.uninitialized,bs)
     | _ => none

instance : LawfulBorsh AuthMethod where
  de_ser := by
    intro m bs h rest
    cases m with
    | password hash =>
      obtain ⟨body,rfl,hb⟩ := Borsh.tagged_eq_some h
      exact Borsh.payload_ser AuthMethod.password hb rest
    | uninitialized =>
      obtain rfl : [1]=bs := by simpa [Borsh.ser] using h
      rfl

structure SessionKey where
  publicKey : String
  expirationDate : TimestampMs
  nonce : U128
  whitelist : Option (List ContractName)
  laneId : Option LaneId
  deriving DecidableEq

def SessionKey.layout : Borsh.Layout SessionKey
    (String × TimestampMs × U128 × Option (List ContractName) × Option LaneId) where
  fields k := (k.publicKey,k.expirationDate,k.nonce,k.whitelist,k.laneId)
  make := fun (publicKey,expirationDate,nonce,whitelist,laneId) =>
    ⟨publicKey,expirationDate,nonce,whitelist,laneId⟩
  make_fields _ := rfl

instance : Borsh SessionKey := SessionKey.layout.borsh
instance : LawfulBorsh SessionKey := SessionKey.layout.lawful

/-- An account of the wallet. Its identity is also its key in the Merkle tree. -/
structure AccountInfo where
  identity : String
  authMethod : AuthMethod
  sessionKeys : List SessionKey
  nonce : U128
  deriving DecidableEq

def AccountInfo.layout :
    Borsh.Layout AccountInfo (String × AuthMethod × List SessionKey × U128) where
  fields a := (a.identity,a.authMethod,a.sessionKeys,a.nonce)
  make := fun (identity,authMethod,sessionKeys,nonce) => ⟨identity,authMethod,sessionKeys,nonce⟩
  make_fields _ := rfl

instance : Borsh AccountInfo := AccountInfo.layout.borsh
instance : LawfulBorsh AccountInfo := AccountInfo.layout.lawful

inductive WalletAction where
  | registerIdentity (account : String) (nonce : U128) (salt : String)
      (authMethod : AuthMethod) (inviteCode : String)
  | verifyIdentity (account : String) (nonce : U128)
  | addSessionKey (account : String) (key : String) (expirationDate : U128)
      (whitelist : Option (List ContractName)) (laneId : Option LaneId)
  | removeSessionKey (account : String) (key : String)
  | useSessionKey (account : String) (nonce : U128)
  | updateInviteCodePublicKey (inviteCodePublicKey : InviteCodePubKey) (smtRoot : H256)
  deriving DecidableEq

instance : Borsh WalletAction where
  ser | .registerIdentity account nonce salt auth invite =>
          Borsh.tagged 0 (account,nonce,salt,auth,invite)
      | .verifyIdentity account nonce => Borsh.tagged 1 (account,nonce)
      | .addSessionKey account key date whitelist lane =>
          Borsh.tagged 2 (account,key,date,whitelist,lane)
      | .removeSessionKey account key => Borsh.tagged 3 (account,key)
      | .useSessionKey account nonce => Borsh.tagged 4 (account,nonce)
      | .updateInviteCodePublicKey key root => Borsh.tagged 5 (key,root)
  de | 0::bs => Borsh.payload
        (fun (account,nonce,salt,auth,invite) =>
          .registerIdentity account nonce salt auth invite) bs
     | 1::bs => Borsh.payload (fun (account,nonce) => .verifyIdentity account nonce) bs
     | 2::bs => Borsh.payload
        (fun (account,key,date,whitelist,lane) =>
          .addSessionKey account key date whitelist lane) bs
     | 3::bs => Borsh.payload (fun (account,key) => .removeSessionKey account key) bs
     | 4::bs => Borsh.payload (fun (account,nonce) => .useSessionKey account nonce) bs
     | 5::bs => Borsh.payload (fun (key,root) => .updateInviteCodePublicKey key root) bs
     | _ => none

example : (Borsh.ser (WalletAction.verifyIdentity "bob" 3)).bind (Borsh.fromSlice WalletAction)=
    some (.verifyIdentity "bob" 3) := by decide +kernel

namespace WalletAction

/-- The account that the action names; changing the invite key names none. -/
def account? : WalletAction → Option String
  | registerIdentity account .. => some account
  | verifyIdentity account _ => some account
  | addSessionKey account .. => some account
  | removeSessionKey account _ => some account
  | useSessionKey account _ => some account
  | updateInviteCodePublicKey .. => none

def isRegister : WalletAction → Bool
  | registerIdentity .. => true
  | _ => false

private theorem length_of_payload {β : Type} [Borsh β] {make : String × β → WalletAction}
    {bs rest : Bytes} {action : WalletAction} {name : String}
    (h : Borsh.payload make bs=some (action,rest)) (hn : action.account?=some name)
    (hm : ∀ p,(make p).account?=some p.1) : (utf8 name).length<2^32 := by
  obtain ⟨⟨p,tail⟩,hp,he⟩ := Option.map_eq_some_iff.mp h
  obtain ⟨rfl,_⟩ := Prod.mk.inj he
  obtain ⟨body,hs,_⟩ := de_prod_eq_some hp
  rw [hm] at hn
  obtain rfl := Option.some.inj hn
  exact length_of_de_string hs

/-- The name in an action that was read is short enough to be written. -/
theorem length_account {data : Bytes} {action : WalletAction} {name : String}
    (h : Borsh.fromSlice WalletAction data=some action) (hn : action.account?=some name) :
    (utf8 name).length<2^32 := by
  rw [Borsh.fromSlice_eq_some] at h
  simp only [Borsh.de] at h
  split at h
  · exact length_of_payload h hn (fun _ => rfl)
  · exact length_of_payload h hn (fun _ => rfl)
  · exact length_of_payload h hn (fun _ => rfl)
  · exact length_of_payload h hn (fun _ => rfl)
  · exact length_of_payload h hn (fun _ => rfl)
  · obtain ⟨⟨p,tail⟩,_,he⟩ := Option.map_eq_some_iff.mp h
    obtain ⟨rfl,_⟩ := Prod.mk.inj he
    cases hn
  · cases h

end WalletAction

namespace AuthMethod

/-- The data of the first blob of the `check_secret` contract. -/
def checkedSecret (calldata : Calldata) : Option BlobData :=
  (calldata.blobs.find? (fun p => p.2.contractName="check_secret")).map (fun p => p.2.data)

def verify (method : AuthMethod) (calldata : Calldata) : Outcome String :=
  match method with
  | uninitialized => Outcome.err "Wallet is not initialized"
  | password hash => do
    let checkSecret ← Outcome.fromOption (checkedSecret calldata)
      (.err "Missing check_secret blob")
    let checkedHash := hex checkSecret
    Outcome.ensure (checkedHash=hash)
      s!"Invalid authentication, expected {hash}, got {checkedHash}"
    return "Authentication successful"

/-- A password whose hash is the content of the `check_secret` blob. -/
def Proves (method : AuthMethod) (calldata : Calldata) : Prop :=
  ∃ secret,checkedSecret calldata=some secret ∧ method=.password (hex secret)

theorem verify_eq_ok {method : AuthMethod} {calldata : Calldata} {message : String} :
    method.verify calldata=.ok message ↔
      method.Proves calldata ∧ message="Authentication successful" := by
  cases method with
  | uninitialized => simp [verify,Proves]
  | password hash =>
    simp only [verify,Outcome.bind_eq_ok,Outcome.fromOption_eq_ok,Outcome.ensure_eq_ok,
      Outcome.pure_eq_ok,Proves,AuthMethod.password.injEq]
    constructor
    · rintro ⟨secret,hs,_,hh,rfl⟩
      exact ⟨⟨secret,hs,hh.symm⟩,rfl⟩
    · rintro ⟨⟨secret,hs,hh⟩,rfl⟩
      exact ⟨secret,hs,(),hh.symm,rfl⟩

end AuthMethod

def checkForInviteCode (sha256 : Bytes → H256) (account inviteCode : String)
    (calldata : Calldata) (inviteCodePublicKey : InviteCodePubKey) : Outcome Unit := do
  let blob ← CheckSecp256k1.expect sha256 calldata
    (utf8 s!"Invite - {inviteCode} for {account}")
  Outcome.ensure (blob.publicKey=inviteCodePublicKey) "Invalid public key"

namespace SessionKey

/-- The first blob of another contract that the key may not be used with. -/
def notWhitelisted (key : SessionKey) (calldata : Calldata) : Option Blob :=
  (calldata.blobs.find? (fun p => p.1≠calldata.index ∧ p.2.contractName≠"secp256k1" ∧
    ∃ whitelist∈key.whitelist,p.2.contractName∉whitelist)).map Prod.snd

/-- The checks of a key before its use. -/
def check (key : SessionKey) (calldata : Calldata) (txCtx : TxContext) : Outcome Unit := do
  match key.notWhitelisted calldata with
  | some blob => Outcome.err s!"Blob: {blob.contractName} not whitelisted"
  | none => pure ()
  Outcome.ensure (key.laneId=none ∨ key.laneId=some txCtx.laneId)
    "Session key not valid for this lane"
  Outcome.ensure (txCtx.timestamp<key.expirationDate) "Session key expired"

/-- Whitelisted blobs only, on the lane of the key, before its expiration. -/
def Usable (key : SessionKey) (calldata : Calldata) (txCtx : TxContext) : Prop :=
  key.notWhitelisted calldata=none ∧ (key.laneId=none ∨ key.laneId=some txCtx.laneId) ∧
    txCtx.timestamp<key.expirationDate

theorem check_eq_ok {key : SessionKey} {calldata : Calldata} {txCtx : TxContext} {u : Unit} :
    key.check calldata txCtx=.ok u ↔ key.Usable calldata txCtx := by
  unfold check Usable
  cases key.notWhitelisted calldata with
  | some blob => simp [Outcome.bind_eq_ok]
  | none => simp [Outcome.bind_eq_ok]

end SessionKey

/-- Applies the function to the first item that satisfies the predicate. -/
def updateFirst {α : Type} (p : α → Bool) (f : α → α) : List α → List α
  | [] => []
  | a::as => if p a then f a::as else a::updateFirst p f as

namespace AccountInfo

def default : AccountInfo := ⟨"",.uninitialized,[],0⟩

def computeKey (sha256 : Bytes → H256) (identity : String) : H256 := sha256 (utf8 identity)

/-- The leaf of an account. Every uninitialised account has the zero leaf. -/
def toH256 (sha256 : Bytes → H256) (account : AccountInfo) : Outcome H256 :=
  if account.authMethod=.uninitialized then .ok (ByteVec.zero 32)
  else do
    let serialized ← Outcome.fromOption (Borsh.ser account)
      (.panic "called `Result::unwrap()` on an `Err` value")
    return sha256 serialized

def registerIdentity (self : AccountInfo) (account : String) (nonce : U128)
    (authMethod : AuthMethod) : Outcome (String × AccountInfo) := do
  Outcome.ensure (self.identity=account) "Identity already registered"
  Outcome.ensure (self.authMethod=.uninitialized) "Identity already registered"
  return (s!"Successfully registered identity for account: {account}",
    { self with authMethod := authMethod, nonce := nonce })

def verifyIdentity (self : AccountInfo) (nonce : U128) : Outcome (String × AccountInfo) := do
  Outcome.ensure (self.nonce<nonce) "Invalid nonce"
  return ("Identity verified",{ self with nonce := nonce })

def addSessionKey (self : AccountInfo) (key : String) (expirationDate : U128)
    (whitelist : Option (List ContractName)) (laneId : Option LaneId) :
    Outcome (String × AccountInfo) := do
  Outcome.ensure (∀ k∈self.sessionKeys,k.publicKey≠key) "Session key already exists"
  return ("Session key added",{ self with
    sessionKeys := self.sessionKeys++[⟨key,expirationDate,0,whitelist,laneId⟩]
    nonce := self.nonce+1 })

def removeSessionKey (self : AccountInfo) (key : String) : Outcome (String × AccountInfo) := do
  let kept := self.sessionKeys.filter (fun k => k.publicKey≠key)
  Outcome.ensure (kept.length≠self.sessionKeys.length) "Session key not found"
  return ("Session key removed",{ self with sessionKeys := kept, nonce := self.nonce+1 })

def useSessionKey (self : AccountInfo) (publicKey : String) (calldata : Calldata)
    (nonce : U128) : Outcome (String × AccountInfo) := do
  let txCtx ← Outcome.fromOption calldata.txCtx (.err "tx_ctx is missing")
  Outcome.ensure (calldata.blobs.length=calldata.txBlobCount.toNat)
    "All blobs should be in the Calldata for whitelist validation"
  let sessionKey ← Outcome.fromOption
    (self.sessionKeys.find? (fun k => k.publicKey=publicKey)) (.err "Session key not found")
  sessionKey.check calldata txCtx
  return ("Session key is valid",{ self with
    sessionKeys := updateFirst (fun k => k.publicKey=publicKey)
      (fun k => { k with nonce := nonce }) self.sessionKeys })

def handleRegistration (self : AccountInfo) (account : String) (nonce : U128)
    (authMethod : AuthMethod) (calldata : Calldata) : Outcome (String × AccountInfo) := do
  let _ ← authMethod.verify calldata
  self.registerIdentity account nonce authMethod

def handleSessionKeyUsage (sha256 : Bytes → H256) (self : AccountInfo) (account : String)
    (nonce : U128) (calldata : Calldata) : Outcome (String × AccountInfo) := do
  Outcome.ensure (self.identity=account) "Account does not match registered identity"
  let secp256k1Blob ← CheckSecp256k1.expect sha256 calldata (utf8 (toString nonce.toNat))
  self.useSessionKey (hex secp256k1Blob.publicKey.toList) calldata nonce

def handleAuthenticatedAction (self : AccountInfo) (action : WalletAction)
    (calldata : Calldata) : Outcome (String × AccountInfo) := do
  let _ ← self.authMethod.verify calldata
  match action with
  | .verifyIdentity account nonce =>
    Outcome.ensure (self.identity=account) "Account does not match registered identity"
    self.verifyIdentity nonce
  | .addSessionKey account key expirationDate whitelist laneId =>
    Outcome.ensure (self.identity=account) "Account does not match registered identity"
    self.addSessionKey key expirationDate whitelist laneId
  -- The account that the action names is not compared here.
  | .removeSessionKey _ key => self.removeSessionKey key
  | _ => Outcome.panic "internal error: entered unreachable code"

/-- The handler of every action that works on one account. -/
def applyAction (sha256 : Bytes → H256) (inviteCodePublicKey : InviteCodePubKey)
    (self : AccountInfo) (action : WalletAction) (calldata : Calldata) :
    Outcome (String × AccountInfo) :=
  match action with
  | .registerIdentity account nonce _ authMethod inviteCode => do
    checkForInviteCode sha256 account inviteCode calldata inviteCodePublicKey
    self.handleRegistration account nonce authMethod calldata
  | .useSessionKey account nonce => self.handleSessionKeyUsage sha256 account nonce calldata
  | action => self.handleAuthenticatedAction action calldata

end AccountInfo

end TruthSeeker.Wallet
