import TruthSeeker.Framework.BorshSchema
import TruthSeeker.Wallet.Account

namespace TruthSeeker.Wallet

open Bytes

section Code
variable {ν : Type} (serialize : BorshSchema → JsValue ν → Option Bytes)

def walletContractName : ContractName := "wallet"

def schema : BorshSchema := .enum
  [("RegisterIdentity",.struct
      [("account",.string),
       ("nonce",.u128),
       ("salt",.string),
       ("auth_method",.enum [("Password",.struct [("hash",.string)])]),
       ("invite_code",.string)]),
   ("VerifyIdentity",.struct
      [("account",.string),
       ("nonce",.u128)]),
   ("AddSessionKey",.struct
      [("account",.string),
       ("key",.string),
       ("expiration_date",.u128),
       ("whitelist",.option (.vec .string)),
       ("lane_id",.option .string)]),
   ("RemoveSessionKey",.struct
      [("account",.string),
       ("key",.string)]),
   ("UseSessionKey",.struct
      [("account",.string),
       ("nonce",.u128)])]

def serializeIdentityAction (action : JsValue ν) : Option Bytes := serialize schema action

def blobOf (action : JsValue ν) : Option Blob :=
  (serializeIdentityAction serialize action).map fun data => ⟨walletContractName,data⟩

def registerBlob (account : String) (nonce : ν) (salt hash inviteCode : String) : Option Blob :=
  blobOf serialize (.object [("RegisterIdentity",.object
    [("account",.string account),
     ("nonce",.number nonce),
     ("salt",.string salt),
     ("auth_method",.object [("Password",.object [("hash",.string hash)])]),
     ("invite_code",.string inviteCode)])])

def verifyIdentityBlob (account : String) (nonce : ν) : Option Blob :=
  blobOf serialize (.object [("VerifyIdentity",.object
    [("nonce",.number nonce),
     ("account",.string account)])])

/-- The lane is put under the key `laneId`. -/
def addSessionKeyBlob (account key : String) (expirationDate : ν)
    (whitelist : Option (List String)) (laneId : Option String) : Option Blob :=
  blobOf serialize (.object [("AddSessionKey",.object
    [("account",.string account),
     ("key",.string key),
     ("expiration_date",.number expirationDate),
     ("whitelist",whitelist.elim .undefined fun names => .array (names.map .string)),
     ("laneId",laneId.elim .undefined .string)])])

def removeSessionKeyBlob (account key : String) : Option Blob :=
  blobOf serialize (.object [("RemoveSessionKey",.object
    [("account",.string account),
     ("key",.string key)])])

/-- The second blob that `createIdentityBlobs` makes for a session key that has not expired. -/
def useSessionKeyBlob (username : String) (now : ν) : Option Blob :=
  blobOf serialize (.object [("UseSessionKey",.object
    [("account",.string username),
     ("nonce",.number now)])])

end Code

/-- A call of one of the builders. -/
inductive BuilderCall (ν : Type) where
  | register (account : String) (nonce : ν) (salt hash inviteCode : String)
  | verifyIdentity (account : String) (nonce : ν)
  | addSessionKey (account key : String) (expirationDate : ν) (whitelist : Option (List String))
      (laneId : Option String)
  | removeSessionKey (account key : String)
  | useSessionKey (username : String) (now : ν)

namespace BuilderCall
variable {ν : Type}

section Definitions
variable (nat? : ν → Option Nat) (serialize : BorshSchema → JsValue ν → Option Bytes)

def blob : BuilderCall ν → Option Blob
  | register account nonce salt hash inviteCode =>
      registerBlob serialize account nonce salt hash inviteCode
  | verifyIdentity account nonce => verifyIdentityBlob serialize account nonce
  | addSessionKey account key expirationDate whitelist laneId =>
      addSessionKeyBlob serialize account key expirationDate whitelist laneId
  | removeSessionKey account key => removeSessionKeyBlob serialize account key
  | useSessionKey username now => useSessionKeyBlob serialize username now

/-- The action is of the same variant and has all fields as they were given. -/
def Preserved : BuilderCall ν → WalletAction → Prop
  | register account nonce salt hash inviteCode,action => ∃ n : U128,nat? nonce=some n.toNat ∧
      action=.registerIdentity account n salt (.password hash) inviteCode
  | verifyIdentity account nonce,action => ∃ n : U128,nat? nonce=some n.toNat ∧
      action=.verifyIdentity account n
  | addSessionKey account key expirationDate whitelist laneId,action =>
      ∃ n : U128,nat? expirationDate=some n.toNat ∧
        action=.addSessionKey account key n whitelist (laneId.map utf8)
  | removeSessionKey account key,action => action=.removeSessionKey account key
  | useSessionKey username now,action => ∃ n : U128,nat? now=some n.toNat ∧
      action=.useSessionKey username n

def laneId? : BuilderCall ν → Option String
  | addSessionKey _ _ _ _ laneId => laneId
  | _ => none

/-- A string whose length fits into 32 bits. -/
def Short (s : String) : Prop := (utf8 s).length<2^32

instance (s : String) : Decidable (Short s) := inferInstanceAs (Decidable (_<_))

/-- The strings and the list are not too long, and the number is a natural one of 128 bits. -/
def Fits : BuilderCall ν → Prop
  | register account nonce salt hash inviteCode => Short account ∧ Short salt ∧ Short hash ∧
      Short inviteCode ∧ ∃ n : U128,nat? nonce=some n.toNat
  | verifyIdentity account nonce => Short account ∧ ∃ n : U128,nat? nonce=some n.toNat
  | addSessionKey account key expirationDate whitelist _ => Short account ∧ Short key ∧
      (∀ names ∈ whitelist,names.length<2^32 ∧ ∀ name ∈ names,Short name) ∧
      ∃ n : U128,nat? expirationDate=some n.toNat
  | removeSessionKey account key => Short account ∧ Short key
  | useSessionKey username now => Short username ∧ ∃ n : U128,nat? now=some n.toNat

end Definitions

end BuilderCall

instance : LawfulBorsh WalletAction where
  de_ser := by
    intro action bs h rest
    cases action with
    | registerIdentity account nonce salt auth invite =>
      obtain ⟨body,rfl,hb⟩ := Borsh.tagged_eq_some h
      exact Borsh.payload_ser _ hb rest
    | verifyIdentity account nonce =>
      obtain ⟨body,rfl,hb⟩ := Borsh.tagged_eq_some h
      exact Borsh.payload_ser _ hb rest
    | addSessionKey account key date whitelist lane =>
      obtain ⟨body,rfl,hb⟩ := Borsh.tagged_eq_some h
      exact Borsh.payload_ser _ hb rest
    | removeSessionKey account key =>
      obtain ⟨body,rfl,hb⟩ := Borsh.tagged_eq_some h
      exact Borsh.payload_ser _ hb rest
    | useSessionKey account nonce =>
      obtain ⟨body,rfl,hb⟩ := Borsh.tagged_eq_some h
      exact Borsh.payload_ser _ hb rest
    | updateInviteCodePublicKey key root =>
      obtain ⟨body,rfl,hb⟩ := Borsh.tagged_eq_some h
      exact Borsh.payload_ser _ hb rest

theorem exists_ser_of_payload {α β : Type} [Borsh α] [Borsh β] [WritableBorsh β] {make : β → α}
    {bs rest : Bytes} {a : α} (h : Borsh.payload make bs=some (a,rest))
    (hm : ∀ b,(∃ xs,Borsh.ser b=some xs) → ∃ xs,Borsh.ser (make b)=some xs) :
    ∃ xs,Borsh.ser a=some xs := by
  obtain ⟨⟨b,tail⟩,hb,he⟩ := Option.map_eq_some_iff.mp h
  obtain ⟨rfl,_⟩ := Prod.mk.inj he
  exact hm b (WritableBorsh.exists_ser hb)

theorem exists_tagged {α : Type} [Borsh α] {tag : UInt8} {a : α} :
    (∃ xs,Borsh.tagged tag a=some xs) ↔ ∃ xs,Borsh.ser a=some xs := by
  constructor
  · intro ⟨xs,h⟩
    obtain ⟨body,_,hb⟩ := Borsh.tagged_eq_some h
    exact ⟨body,hb⟩
  · intro ⟨xs,h⟩
    exact ⟨tag::xs,by simp [Borsh.tagged,h]⟩

instance : WritableBorsh AuthMethod where
  exists_ser := by
    intro bs rest method h
    simp only [Borsh.de] at h
    split at h
    · exact exists_ser_of_payload h fun hash => exists_tagged.mpr
    · obtain ⟨rfl,_⟩ := Prod.mk.inj (Option.some.inj h)
      exact ⟨_,rfl⟩
    · cases h

instance : WritableBorsh WalletAction where
  exists_ser := by
    intro bs rest action h
    simp only [Borsh.de] at h
    split at h
    · exact exists_ser_of_payload h fun fields => exists_tagged.mpr
    · exact exists_ser_of_payload h fun fields => exists_tagged.mpr
    · exact exists_ser_of_payload h fun fields => exists_tagged.mpr
    · exact exists_ser_of_payload h fun fields => exists_tagged.mpr
    · exact exists_ser_of_payload h fun fields => exists_tagged.mpr
    · exact exists_ser_of_payload h fun fields => exists_tagged.mpr
    · cases h

namespace BuilderCall
variable {ν : Type} {nat? : ν → Option Nat} {serialize : BorshSchema → JsValue ν → Option Bytes}

/-- What the Rust type writes into a blob of the wallet. -/
def rustBlob (action : WalletAction) : Option Blob :=
  (Borsh.ser action).map fun data => ⟨walletContractName,data⟩

section Encodings
open BorshSchema
variable (h : EncodesBySchema nat? serialize) {n : U128} {x : ν}

include h

/-- A variant of the schema is written as the Rust variant in its place, if the fields are. -/
theorem blobOf_variant {name : String} {fields : List (String × BorshSchema)}
    {properties : List (String × JsValue ν)} {β : Type} [Borsh β] {b : β} (tag : Nat)
    (hv : ∃ variants,schema=.enum variants ∧ variants[tag]?=some (name,.struct fields))
    (ht : tag<256) (hf : concat (fields.map fun field =>
      serialize field.2 (JsValue.property properties field.1))=Borsh.ser b) :
    blobOf serialize (.object [(name,.object properties)])=
      (Borsh.tagged (UInt8.ofNat tag) b).map fun data => ⟨walletContractName,data⟩ := by
  obtain ⟨variants,hs,hv⟩ := hv
  have distinct : (variants.map Prod.fst).Nodup := by
    cases hs
    decide
  rw [blobOf,serializeIdentityAction,hs,h.enum _ tag name _ _ distinct hv ht,h.struct,hf]
  rfl

theorem registerBlob_eq {account salt hash inviteCode : String} (ha : Short account)
    (hs : Short salt) (hh : Short hash) (hi : Short inviteCode) (hn : nat? x=some n.toNat) :
    registerBlob serialize account x salt hash inviteCode=
      rustBlob (.registerIdentity account n salt (.password hash) inviteCode) := by
  have method : serialize (.enum [("Password",.struct [("hash",.string)])])
      (.object [("Password",.object [("hash",.string hash)])])=
        Borsh.ser (AuthMethod.password hash) := by
    rw [h.enum _ 0 "Password" _ _ (by simp) rfl (by decide),h.struct]
    have fields : serialize .string (.string hash)=Borsh.ser hash := h.string hash hh
    simp only [List.map_cons,List.map_nil,JsValue.property,List.lookup_cons_self,
      Option.getD_some,fields,concat_single]
    rfl
  apply blobOf_variant h 0 ⟨_,rfl,rfl⟩ (by decide)
  show concat [serialize .string (.string account),serialize .u128 (.number x),
    serialize .string (.string salt),
    serialize (.enum [("Password",.struct [("hash",.string)])])
      (.object [("Password",.object [("hash",.string hash)])]),
    serialize .string (.string inviteCode)]=_
  rw [h.string account ha,h.number hn,h.string salt hs,method,h.string inviteCode hi]
  exact concat_cons (concat_cons (concat_cons (concat_cons concat_single)))

theorem verifyIdentityBlob_eq {account : String} (ha : Short account)
    (hn : nat? x=some n.toNat) :
    verifyIdentityBlob serialize account x=rustBlob (.verifyIdentity account n) := by
  apply blobOf_variant h 1 ⟨_,rfl,rfl⟩ (by decide)
  show concat [serialize .string (.string account),serialize .u128 (.number x)]=_
  rw [h.string account ha,h.number hn]
  exact concat_cons concat_single

/-- The lane does not get into the bytes. -/
theorem addSessionKeyBlob_eq {account key : String} {whitelist : Option (List String)}
    (laneId : Option String) (ha : Short account) (hk : Short key)
    (hw : ∀ names ∈ whitelist,names.length<2^32 ∧ ∀ name ∈ names,Short name)
    (hn : nat? x=some n.toNat) : addSessionKeyBlob serialize account key x whitelist laneId=
      rustBlob (.addSessionKey account key n whitelist none) := by
  have names : serialize (.option (.vec .string))
      (whitelist.elim .undefined fun names => .array (names.map .string))=Borsh.ser whitelist :=
    h.optional (by simp) fun names hm => h.strings (hw names hm).1 (hw names hm).2
  have lane : serialize (.option .string) .undefined=Borsh.ser (none : Option LaneId) :=
    h.none .string
  apply blobOf_variant h 2 ⟨_,rfl,rfl⟩ (by decide)
  show concat [serialize .string (.string account),serialize .string (.string key),
    serialize .u128 (.number x),
    serialize (.option (.vec .string))
      (whitelist.elim .undefined fun names => .array (names.map .string)),
    serialize (.option .string) .undefined]=_
  rw [h.string account ha,h.string key hk,h.number hn,names,lane]
  exact concat_cons (concat_cons (concat_cons (concat_cons concat_single)))

theorem removeSessionKeyBlob_eq {account key : String} (ha : Short account) (hk : Short key) :
    removeSessionKeyBlob serialize account key=rustBlob (.removeSessionKey account key) := by
  apply blobOf_variant h 3 ⟨_,rfl,rfl⟩ (by decide)
  show concat [serialize .string (.string account),serialize .string (.string key)]=_
  rw [h.string account ha,h.string key hk]
  exact concat_cons concat_single

theorem useSessionKeyBlob_eq {username : String} (ha : Short username)
    (hn : nat? x=some n.toNat) :
    useSessionKeyBlob serialize username x=rustBlob (.useSessionKey username n) := by
  apply blobOf_variant h 4 ⟨_,rfl,rfl⟩ (by decide)
  show concat [serialize .string (.string username),serialize .u128 (.number x)]=_
  rw [h.string username ha,h.number hn]
  exact concat_cons concat_single

end Encodings

/-- What is read from a blob that the Rust type wrote. -/
theorem read_rustBlob {action read : WalletAction} {blob : Blob}
    (hb : rustBlob action=some blob) (hr : Borsh.fromSlice WalletAction blob.data=some read) :
    read=action := by
  obtain ⟨data,hs,rfl⟩ := Option.map_eq_some_iff.mp hb
  rw [Borsh.fromSlice_ser hs] at hr
  exact (Option.some.inj hr).symm

/-- An action that the Rust type writes is read back. -/
theorem exists_preserved {call : BuilderCall ν} {action : WalletAction}
    (hb : call.blob serialize=rustBlob action) (hp : call.Preserved nat? action)
    (h : ∃ bs,Borsh.ser action=some bs) : ∃ blob action,call.blob serialize=some blob ∧
      Borsh.fromSlice WalletAction blob.data=some action ∧ call.Preserved nat? action := by
  obtain ⟨data,hs⟩ := h
  have made : rustBlob action=some ⟨walletContractName,data⟩ := by
    rw [rustBlob,hs]
    rfl
  exact ⟨_,action,hb.trans made,Borsh.fromSlice_ser hs,hp⟩

/-- What the Rust type can hold fits. -/
theorem fits_of_preserved {call : BuilderCall ν} {action : WalletAction}
    (hp : call.Preserved nat? action) (hw : ∃ bs,Borsh.ser action=some bs) : call.Fits nat? := by
  cases call with
  | register account nonce salt hash inviteCode =>
    obtain ⟨n,hn,rfl⟩ := hp
    obtain ⟨ha,rest⟩ := exists_ser_prod.mp (exists_tagged.mp hw)
    obtain ⟨hs,hm,hi⟩ := (exists_ser_prod.mp (exists_ser_prod.mp rest).2).imp id exists_ser_prod.mp
    exact ⟨exists_ser_string.mp ha,exists_ser_string.mp hs,
      exists_ser_string.mp (exists_tagged.mp hm),exists_ser_string.mp hi,n,hn⟩
  | verifyIdentity account nonce =>
    obtain ⟨n,hn,rfl⟩ := hp
    have fields := exists_ser_prod.mp (exists_tagged.mp hw)
    exact ⟨exists_ser_string.mp fields.1,n,hn⟩
  | addSessionKey account key expirationDate whitelist laneId =>
    obtain ⟨n,hn,rfl⟩ := hp
    obtain ⟨ha,rest⟩ := exists_ser_prod.mp (exists_tagged.mp hw)
    obtain ⟨hk,rest⟩ := exists_ser_prod.mp rest
    have list := (exists_ser_prod.mp (exists_ser_prod.mp rest).2).1
    refine ⟨exists_ser_string.mp ha,exists_ser_string.mp hk,?_,n,hn⟩
    rintro names rfl
    obtain ⟨bound,each⟩ := exists_ser_list.mp (exists_ser_some.mp list)
    exact ⟨bound,fun name hm => exists_ser_string.mp (each name hm)⟩
  | removeSessionKey account key =>
    obtain rfl : action=_ := hp
    have fields := exists_ser_prod.mp (exists_tagged.mp hw)
    exact ⟨exists_ser_string.mp fields.1,exists_ser_string.mp fields.2⟩
  | useSessionKey username now =>
    obtain ⟨n,hn,rfl⟩ := hp
    have fields := exists_ser_prod.mp (exists_tagged.mp hw)
    exact ⟨exists_ser_string.mp fields.1,n,hn⟩

end BuilderCall

open BuilderCall in
/-- The Rust type reads a blob of the wallet library as the action that was asked for exactly if no
lane is given, and strings and numbers fit their types. -/
theorem preserves_iff {ν : Type} (nat? : ν → Option Nat)
    (serialize : BorshSchema → JsValue ν → Option Bytes)
    (h : BorshSchema.EncodesBySchema nat? serialize) (call : BuilderCall ν) :
    (∃ blob action,call.blob serialize=some blob ∧
      Borsh.fromSlice WalletAction blob.data=some action ∧ call.Preserved nat? action) ↔
        call.Fits nat? ∧ call.laneId?=none := by
  constructor
  · rintro ⟨blob,action,hb,hr,hp⟩
    have written := WritableBorsh.exists_ser (Borsh.fromSlice_eq_some.mp hr)
    have fits := fits_of_preserved hp written
    refine ⟨fits,?_⟩
    cases call with
    | addSessionKey account key expirationDate whitelist laneId =>
      obtain ⟨ha,hk,hw,_⟩ := fits
      obtain ⟨n,hn,rfl⟩ := hp
      have made : addSessionKeyBlob serialize account key expirationDate whitelist laneId=_ :=
        addSessionKeyBlob_eq h _ ha hk hw hn
      have same := read_rustBlob (made.symm.trans hb) hr
      rw [WalletAction.addSessionKey.injEq] at same
      exact Option.map_eq_none_iff.mp same.2.2.2.2
    | _ => rfl
  · rintro ⟨fits,hl⟩
    have text : ∀ {s},Short s → ∃ bs,Borsh.ser s=some bs := exists_ser_string.mpr
    have word : ∀ n : U128,∃ bs,Borsh.ser n=some bs := fun n => ⟨_,rfl⟩
    cases call with
    | register account nonce salt hash inviteCode =>
      obtain ⟨ha,hs,hh,hi,n,hn⟩ := fits
      have made := registerBlob_eq h ha hs hh hi hn
      refine exists_preserved made ⟨n,hn,rfl⟩ ?_
      have method : ∃ bs,Borsh.ser (AuthMethod.password hash)=some bs :=
        exists_tagged.mpr (text hh)
      have last : ∃ bs,Borsh.ser (AuthMethod.password hash,inviteCode)=some bs :=
        exists_ser_prod.mpr ⟨method,text hi⟩
      have rest : ∃ bs,Borsh.ser (n,salt,AuthMethod.password hash,inviteCode)=some bs :=
        exists_ser_prod.mpr ⟨word n,exists_ser_prod.mpr ⟨text hs,last⟩⟩
      exact exists_tagged.mpr (exists_ser_prod.mpr ⟨text ha,rest⟩)
    | verifyIdentity account nonce =>
      obtain ⟨ha,n,hn⟩ := fits
      have made := verifyIdentityBlob_eq h ha hn
      refine exists_preserved made ⟨n,hn,rfl⟩ ?_
      exact exists_tagged.mpr (exists_ser_prod.mpr ⟨text ha,word n⟩)
    | addSessionKey account key expirationDate whitelist laneId =>
      obtain ⟨ha,hk,hw,n,hn⟩ := fits
      obtain rfl : laneId=none := hl
      have made := addSessionKeyBlob_eq h none ha hk hw hn
      refine exists_preserved made ⟨n,hn,rfl⟩ ?_
      have names : ∃ bs,Borsh.ser whitelist=some bs := by
        cases whitelist with
        | none => exact ⟨_,rfl⟩
        | some names =>
          obtain ⟨bound,each⟩ := hw names rfl
          exact exists_ser_some.mpr (exists_ser_list.mpr ⟨bound,fun name hm => text (each name hm)⟩)
      have lane : ∃ bs,Borsh.ser (none : Option LaneId)=some bs := ⟨_,rfl⟩
      have rest : ∃ bs,Borsh.ser (n,whitelist,(none : Option LaneId))=some bs :=
        exists_ser_prod.mpr ⟨word n,exists_ser_prod.mpr ⟨names,lane⟩⟩
      exact exists_tagged.mpr (exists_ser_prod.mpr ⟨text ha,exists_ser_prod.mpr ⟨text hk,rest⟩⟩)
    | removeSessionKey account key =>
      obtain ⟨ha,hk⟩ := fits
      have made := removeSessionKeyBlob_eq h ha hk
      refine exists_preserved made rfl ?_
      exact exists_tagged.mpr (exists_ser_prod.mpr ⟨text ha,text hk⟩)
    | useSessionKey username now =>
      obtain ⟨ha,n,hn⟩ := fits
      have made := useSessionKeyBlob_eq h ha hn
      refine exists_preserved made ⟨n,hn,rfl⟩ ?_
      exact exists_tagged.mpr (exists_ser_prod.mpr ⟨text ha,word n⟩)

/-- A session key without a lane. -/
def addKey (laneId : Option String) : BuilderCall Int :=
  .addSessionKey "alice" "02ab" 1750000000000 (some ["token"]) laneId

theorem fits_addKey (laneId : Option String) : (addKey laneId).Fits Int.toNat? := by
  refine ⟨by decide +kernel,by decide +kernel,?_,1750000000000,rfl⟩
  intro names hm
  obtain rfl := Option.some.inj hm
  exact ⟨by decide,by decide +kernel⟩

theorem preserves_addKey :
    ∃ blob action,(addKey none).blob (BorshSchema.encode Int.toNat?)=some blob ∧
      Borsh.fromSlice WalletAction blob.data=some action ∧
        (addKey none).Preserved Int.toNat? action :=
  (preserves_iff Int.toNat? _ (BorshSchema.encodesBySchema_encode Int.toNat?) (addKey none)).mpr
    ⟨fits_addKey none,rfl⟩

/-- The session key that is asked for is bound to a lane, and the one that is read is not. -/
theorem not_preserved_laneId :
    ∃ blob,(addKey (some "lane")).blob (BorshSchema.encode Int.toNat?)=some blob ∧
      Borsh.fromSlice WalletAction blob.data=
        some (.addSessionKey "alice" "02ab" 1750000000000 (some ["token"]) none) ∧
      ¬∃ action,Borsh.fromSlice WalletAction blob.data=some action ∧
        (addKey (some "lane")).Preserved Int.toNat? action := by
  have laws := BorshSchema.encodesBySchema_encode Int.toNat?
  obtain ⟨ha,hk,hw,_⟩ := fits_addKey (some "lane")
  have made : (addKey (some "lane")).blob (BorshSchema.encode Int.toNat?)=BuilderCall.rustBlob
      (.addSessionKey "alice" "02ab" 1750000000000 (some ["token"]) none) :=
    BuilderCall.addSessionKeyBlob_eq laws (some "lane") ha hk hw rfl
  have written : (BuilderCall.rustBlob
      (.addSessionKey "alice" "02ab" 1750000000000 (some ["token"]) none)).isSome=true := by
    decide +kernel
  obtain ⟨blob,hb⟩ := Option.isSome_iff_exists.mp written
  obtain ⟨data,hs,rfl⟩ := Option.map_eq_some_iff.mp hb
  refine ⟨_,made.trans hb,Borsh.fromSlice_ser hs,?_⟩
  rintro ⟨action,hr,n,_,rfl⟩
  have same := BuilderCall.read_rustBlob hb hr
  rw [WalletAction.addSessionKey.injEq] at same
  cases same.2.2.2.2

end TruthSeeker.Wallet
