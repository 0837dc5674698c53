import Mathlib.Data.List.Infix
import TruthSeeker.Wallet.Runs

namespace TruthSeeker.Wallet

open Sdk

namespace WalletAction

/-- The actions that the password of the account authenticates. -/
def isAuthenticated : WalletAction → Bool
  | verifyIdentity .. => true
  | addSessionKey .. => true
  | removeSessionKey .. => true
  | _ => false

/-- The actions that raise the nonce of the account by one. -/
def incrementsNonce : WalletAction → Bool
  | addSessionKey .. => true
  | removeSessionKey .. => true
  | _ => false

/-- One of the actions adds the session key that the other one removes. -/
def Undoes : WalletAction → WalletAction → Prop
  | addSessionKey _ key _ _ _,removeSessionKey _ other => key=other
  | removeSessionKey _ key,addSessionKey _ other _ _ _ => key=other
  | _,_ => False

end WalletAction

namespace AccountInfo

variable {sha256 : Bytes → H256} {key : InviteCodePubKey} {a : AccountInfo}
  {calldata : Calldata} {action : WalletAction}

/-- The public keys of the sessions. -/
def keyNames (a : AccountInfo) : List String := a.sessionKeys.map SessionKey.publicKey

theorem map_updateFirst {f : SessionKey → SessionKey} (hf : ∀ k,(f k).publicKey=k.publicKey)
    (p : SessionKey → Bool) (keys : List SessionKey) :
    (updateFirst p f keys).map SessionKey.publicKey=keys.map SessionKey.publicKey := by
  induction keys with
  | nil => rfl
  | cons k keys ih =>
    by_cases hk : p k
    · simp [updateFirst,hk,hf]
    · simp [updateFirst,hk,ih]

/-- The public keys after an action. -/
theorem mem_keyNames_after {name : String} : name∈(a.after calldata action).keyNames ↔
    match action with
    | .addSessionKey _ newKey _ _ _ => name∈a.keyNames ∨ name=newKey
    | .removeSessionKey _ old => name∈a.keyNames ∧ name≠old
    | _ => name∈a.keyNames := by
  unfold keyNames
  cases action with
  | addSessionKey account newKey expirationDate whitelist laneId => simp [after]
  | removeSessionKey account old =>
    simp only [after,List.mem_map,List.mem_filter]
    constructor
    · intro h
      obtain ⟨k,⟨hk,ho⟩,hn⟩ := h
      have hold : k.publicKey≠old := by simpa using ho
      exact ⟨⟨k,hk,hn⟩,hn ▸ hold⟩
    · intro h
      obtain ⟨⟨k,hk,hn⟩,ho⟩ := h
      have hold : k.publicKey≠old := hn.symm ▸ ho
      exact ⟨k,⟨hk,by simpa using hold⟩,hn⟩
  | useSessionKey account nonce =>
    simp only [after]
    rw [map_updateFirst (f := fun k => { k with nonce := nonce }) (fun _ => rfl)]
  | _ => simp [after]

/-- An accepted action of an initialised account does not lower its nonce, and an
authenticated one raises it, when there is room for the increment. -/
theorem nonce_after (h : a.Accepts sha256 key calldata action)
    (hi : a.authMethod≠.uninitialized)
    (room : action.incrementsNonce=true → a.nonce.toNat+1<2^128) :
    a.nonce ≤ (a.after calldata action).nonce ∧
      (action.isAuthenticated=true → a.nonce < (a.after calldata action).nonce) := by
  cases action with
  | registerIdentity account nonce salt authMethod inviteCode =>
    exact absurd h.2.2.2.2 hi
  | verifyIdentity account nonce =>
    have hn : a.nonce < nonce := h.2.2
    simp only [after]
    exact ⟨by bv_omega,fun _ => hn⟩
  | addSessionKey account newKey expirationDate whitelist laneId =>
    have hr := room rfl
    simp only [after]
    exact ⟨by bv_omega,fun _ => by bv_omega⟩
  | removeSessionKey account old =>
    have hr := room rfl
    simp only [after]
    exact ⟨by bv_omega,fun _ => by bv_omega⟩
  | useSessionKey account nonce =>
    simp only [after]
    exact ⟨by bv_omega,fun hf => by cases hf⟩
  | updateInviteCodePublicKey newKey smtRoot => exact h.elim

end AccountInfo

end TruthSeeker.Wallet

namespace TruthSeeker.WalletClient.Wallet

open TruthSeeker.Wallet Bytes Sdk SparseMerkle

section Nonces
variable {Proof : Type} (S : Scheme H256 H256 H256 Proof) {sha256 : Bytes → H256}
  (quote : String → String)

/-- The nonce of the account under a key. -/
def nonceAt (wallet : Wallet sha256) (key : H256) : Option U128 :=
  wallet.smt.values[key]?.map AccountInfo.nonce

/-- An action that the password authenticates is accepted for the account. -/
def AuthenticatedAt (wallet : Wallet sha256) (key : H256) (calldata : Calldata) : Prop :=
  ∃ action,AcceptsAt S quote wallet key calldata action ∧ action.isAuthenticated=true

/-- The account stays registered from the wallet on through a list of blobs. -/
def StaysRegistered (wallet : Wallet sha256) (key : H256) (calldata : List Calldata) : Prop :=
  ∀ p q,calldata=p++q → (nonceAt (run S quote wallet p) key).isSome

/-- The nonce of a registered account is larger after an authenticated action than
before it, and stays so. -/
def AccountNonceGrows (wallet : Wallet sha256) (calldata : List Calldata) : Prop :=
  ∀ before blob middle after key m n,calldata=before++blob::(middle++after) →
    AuthenticatedAt S quote (run S quote wallet before) key blob →
    StaysRegistered S quote (run S quote wallet before) key (blob::middle) →
    nonceAt (run S quote wallet before) key=some m →
    nonceAt (run S quote wallet (before++blob::middle)) key=some n → m < n

/-- The calldata of an authenticated action is accepted once. -/
def AcceptedOnce (wallet : Wallet sha256) (calldata : List Calldata) : Prop :=
  ∀ before blob middle after key,calldata=before++blob::(middle++blob::after) →
    AuthenticatedAt S quote (run S quote wallet before) key blob →
    StaysRegistered S quote (run S quote wallet before) key (blob::middle) →
    ¬AuthenticatedAt S quote (run S quote wallet (before++blob::middle)) key blob

/-- The calldata of an authenticated action is accepted again only after its session key
was taken back, or added back, in between. -/
def AcceptedOnceUndone (wallet : Wallet sha256) (calldata : List Calldata) : Prop :=
  ∀ before blob middle after key,calldata=before++blob::(middle++blob::after) →
    AuthenticatedAt S quote (run S quote wallet before) key blob →
    StaysRegistered S quote (run S quote wallet before) key (blob::middle) →
    AuthenticatedAt S quote (run S quote wallet (before++blob::middle)) key blob →
    ∃ p c q action undo,middle=p++c::q ∧
      AcceptsAt S quote (run S quote wallet before) key blob action ∧
      AcceptsAt S quote (run S quote wallet (before++blob::p)) key c undo ∧ action.Undoes undo

/-- An accepted action that raises the nonce by one does not find the largest nonce. -/
def HasRoom (wallet : Wallet sha256) (calldata : Calldata) : Prop :=
  ∀ key action n,AcceptsAt S quote wallet key calldata action → action.incrementsNonce=true →
    nonceAt wallet key=some n → n.toNat+1<2^128

/-- The blobs of a run that raise nonces by one find room for it. -/
def RoomAlong (wallet : Wallet sha256) (calldata : List Calldata) : Prop :=
  ∀ before blob after,calldata=before++blob::after →
    HasRoom S quote (run S quote wallet before) blob

variable {S quote} {wallet : Wallet sha256} {calldata : Calldata} {key : H256}

theorem nonceAt_eq_some {n : U128} :
    nonceAt wallet key=some n ↔ ∃ a,wallet.smt.values[key]?=some a ∧ a.nonce=n := by
  simp [nonceAt]

/-- A stored account has an authentication method. -/
theorem initialized_of_stored {a : AccountInfo} (h : wallet.smt.values[key]?=some a) :
    a.authMethod≠.uninitialized := by
  intro hu
  obtain ⟨leaf,hl,hz⟩ := wallet.smt.stored key a h
  rw [AccountInfo.toH256_uninitialized hu] at hl
  exact hz (Option.some.inj hl).symm

/-- A blob does not lower the nonce of an account, and an authenticated one raises it. -/
theorem nonceAt_next {m n : U128} (room : HasRoom S quote wallet calldata)
    (hm : nonceAt wallet key=some m)
    (hn : nonceAt (next S quote wallet calldata) key=some n) :
    m ≤ n ∧ (AuthenticatedAt S quote wallet key calldata → m < n) := by
  obtain ⟨a,ha,rfl⟩ := nonceAt_eq_some.mp hm
  obtain ⟨b,hb,rfl⟩ := nonceAt_eq_some.mp hn
  have hi := initialized_of_stored ha
  obtain ⟨action,name,haccepts,_,hacc,rfl⟩|⟨hrejects,name,rfl⟩ := next_cases ha hb
  · have hroom := fun h => room key action a.nonce haccepts h hm
    obtain ⟨hle,hlt⟩ := AccountInfo.nonce_after hacc hi hroom
    refine ⟨hle,?_⟩
    intro ⟨other,hother,hauth⟩
    obtain rfl := hother.action_eq haccepts
    exact hlt hauth
  · refine ⟨?_,fun ⟨action,haccepts,_⟩ => absurd haccepts (hrejects action)⟩
    show a.nonce ≤ a.nonce
    bv_omega

theorem StaysRegistered.stored {calldata : List Calldata}
    (h : StaysRegistered S quote wallet key calldata) {p q : List Calldata}
    (hs : calldata=p++q) : ∃ a,(run S quote wallet p).smt.values[key]?=some a := by
  obtain ⟨n,hn⟩ := Option.isSome_iff_exists.mp (h p q hs)
  obtain ⟨a,ha,_⟩ := nonceAt_eq_some.mp hn
  exact ⟨a,ha⟩

theorem StaysRegistered.tail {calldata : List Calldata} {blob : Calldata}
    (h : StaysRegistered S quote wallet key (blob::calldata)) :
    StaysRegistered S quote (next S quote wallet blob) key calldata :=
  fun p q hs => h (blob::p) q (by rw [hs,List.cons_append])

/-- Along a run the nonce of a registered account is not lowered. -/
theorem nonceAt_run {calldata : List Calldata} {m n : U128}
    (room : RoomAlong S quote wallet calldata)
    (registered : StaysRegistered S quote wallet key calldata)
    (hm : nonceAt wallet key=some m)
    (hn : nonceAt (run S quote wallet calldata) key=some n) : m ≤ n := by
  have hinv : ∃ k,nonceAt (run S quote wallet calldata) key=some k ∧ m ≤ k := by
    refine @Trace.foldl_of_prefixes _ _ (next S quote)
      (fun w => ∃ k,nonceAt w key=some k ∧ m ≤ k) wallet calldata ?_ ?_
    · exact ⟨m,hm,by bv_omega⟩
    · intro p c q hs ⟨k,hk,hle⟩
      have hrun : run S quote wallet (p++[c])=
          next S quote (p.foldl (next S quote) wallet) c := by
        simp [run]
      obtain ⟨l,hl⟩ := Option.isSome_iff_exists.mp
        (registered (p++[c]) q (by simp [hs]))
      rw [hrun] at hl
      refine ⟨l,hl,?_⟩
      have hstep := (nonceAt_next (room p c q hs) hk hl).1
      bv_omega
  obtain ⟨k,hk,hle⟩ := hinv
  rw [hk] at hn
  exact Option.some.inj hn ▸ hle

/-- The account after an accepted action. -/
theorem AcceptsAt.stored {action : WalletAction} {b : AccountInfo}
    (h : AcceptsAt S quote wallet key calldata action)
    (hb : (next S quote wallet calldata).smt.values[key]?=some b) :
    ∃ a : AccountInfo,b=a.after calldata action := by
  obtain ⟨name,_,_,_,hu⟩ := h.written
  exact ⟨wallet.accountInfo name,eq_of_update hu hb⟩

/-- What an accepted action requires of a stored account. -/
theorem AcceptsAt.accepts {action : WalletAction} {a : AccountInfo}
    (h : AcceptsAt S quote wallet key calldata action)
    (ha : wallet.smt.values[key]?=some a) : ∃ name,
      AccountInfo.Accepts sha256 wallet.inviteCodePublicKey { a with identity := name }
        calldata action := by
  obtain ⟨name,_,rfl,haccepts,_⟩ := h.written
  rw [accountInfo_of_stored ha] at haccepts
  exact ⟨name,haccepts⟩

/-- The stored account has a session with this public key. -/
def HasKey (wallet : Wallet sha256) (key : H256) (publicKey : String) : Prop :=
  ∃ a,wallet.smt.values[key]?=some a ∧ publicKey∈a.keyNames

/-- A session key that a blob takes away was removed by an accepted action, and one that
it brings was added by one. -/
theorem hasKey_next {publicKey : String} {a b : AccountInfo}
    (ha : wallet.smt.values[key]?=some a)
    (hb : (next S quote wallet calldata).smt.values[key]?=some b) :
    (publicKey∈a.keyNames → publicKey∉b.keyNames →
      ∃ name,AcceptsAt S quote wallet key calldata (.removeSessionKey name publicKey)) ∧
    (publicKey∉a.keyNames → publicKey∈b.keyNames → ∃ name date whitelist lane,
      AcceptsAt S quote wallet key calldata
        (.addSessionKey name publicKey date whitelist lane)) := by
  obtain ⟨action,name,haccepts,_,_,rfl⟩|⟨_,name,rfl⟩ := next_cases ha hb
  · have hnames : AccountInfo.keyNames { a with identity := name }=a.keyNames := rfl
    rw [AccountInfo.mem_keyNames_after,hnames]
    cases action with
    | addSessionKey account newKey expirationDate whitelist laneId =>
      refine ⟨fun hin hout => absurd (Or.inl hin) hout,?_⟩
      intro hout hin
      obtain rfl := hin.resolve_left hout
      exact ⟨account,expirationDate,whitelist,laneId,haccepts⟩
    | removeSessionKey account old =>
      refine ⟨?_,fun hout hin => absurd hin.1 hout⟩
      intro hin hout
      have he : publicKey=old := by
        by_contra hne
        exact hout ⟨hin,hne⟩
      exact ⟨account,he ▸ haccepts⟩
    | _ => exact ⟨fun hin hout => absurd hin hout,fun hout hin => absurd hin hout⟩
  · exact ⟨fun hin hout => absurd hin hout,fun hout hin => absurd hin hout⟩

/-- A session key that is gone at the end of a run was removed in it. -/
theorem exists_removal {calldata : List Calldata} {publicKey : String}
    (registered : StaysRegistered S quote wallet key calldata)
    (hs : HasKey wallet key publicKey)
    (he : ¬HasKey (run S quote wallet calldata) key publicKey) :
    ∃ p c q name,calldata=p++c::q ∧
      AcceptsAt S quote (run S quote wallet p) key c (.removeSessionKey name publicKey) := by
  obtain ⟨p,c,q,hsplit,⟨a,ha,hin⟩,hgone⟩ :=
    @Trace.exists_step _ _ (next S quote) (fun w => HasKey w key publicKey) _ _ hs he
  obtain ⟨b,hb⟩ := registered.stored (p := p++[c]) (q := q) (by simp [hsplit])
  have hrun : run S quote wallet (p++[c])=next S quote (p.foldl (next S quote) wallet) c := by
    simp [run]
  rw [hrun] at hb
  have hout : publicKey∉b.keyNames := fun hm => hgone ⟨b,hb,hm⟩
  obtain ⟨name,haccepts⟩ := (hasKey_next ha hb).1 hin hout
  exact ⟨p,c,q,name,hsplit,haccepts⟩

/-- A session key that is new at the end of a run was added in it. -/
theorem exists_addition {calldata : List Calldata} {publicKey : String}
    (registered : StaysRegistered S quote wallet key calldata)
    (hs : ¬HasKey wallet key publicKey)
    (he : HasKey (run S quote wallet calldata) key publicKey) :
    ∃ p c q name date whitelist lane,calldata=p++c::q ∧
      AcceptsAt S quote (run S quote wallet p) key c
        (.addSessionKey name publicKey date whitelist lane) := by
  obtain ⟨p,c,q,hsplit,hout,hgone⟩ :=
    @Trace.exists_step _ _ (next S quote) (fun w => ¬HasKey w key publicKey) _ _ hs
      (fun h => h he)
  have ⟨b,hb,hin⟩ := not_not.mp hgone
  obtain ⟨a,ha⟩ := registered.stored (p := p) (q := c::q) hsplit
  have hnew : publicKey∉a.keyNames := fun hm => hout ⟨a,ha,hm⟩
  obtain ⟨name,date,whitelist,lane,haccepts⟩ := (hasKey_next ha hb).2 hnew hin
  exact ⟨p,c,q,name,date,whitelist,lane,hsplit,haccepts⟩

theorem RoomAlong.after {calldata before middle after : List Calldata} {blob : Calldata}
    (room : RoomAlong S quote wallet calldata) (hc : calldata=before++blob::(middle++after)) :
    RoomAlong S quote (next S quote (run S quote wallet before) blob) middle := by
  intro p c q hm
  have h := room (before++blob::p) c (q++after) (by simp [hc,hm])
  rwa [run_through] at h

theorem accountNonceGrows {calldata : List Calldata} (room : RoomAlong S quote wallet calldata) :
    AccountNonceGrows S quote wallet calldata := by
  intro before blob middle after key m n hc hauth registered hm hn
  obtain ⟨a,ha⟩ := registered.stored (p := [blob]) (q := middle) rfl
  have hk : nonceAt (next S quote (run S quote wallet before) blob) key=some a.nonce :=
    nonceAt_eq_some.mpr ⟨a,ha,rfl⟩
  have hlt : m < a.nonce := (nonceAt_next (room before blob (middle++after) hc) hm hk).2 hauth
  rw [run_through] at hn
  have hle : a.nonce ≤ n := nonceAt_run (room.after hc) registered.tail hk hn
  bv_omega

/-- The nonce of an accepted verification is not below any later one of the account. -/
theorem verifyIdentity_once {calldata before middle after : List Calldata} {blob : Calldata}
    {account : String} {nonce : U128} (room : RoomAlong S quote wallet calldata)
    (hc : calldata=before++blob::(middle++after))
    (registered : StaysRegistered S quote (run S quote wallet before) key (blob::middle))
    (hfirst : AcceptsAt S quote (run S quote wallet before) key blob
      (.verifyIdentity account nonce)) :
    ¬AcceptsAt S quote (run S quote wallet (before++blob::middle)) key blob
      (.verifyIdentity account nonce) := by
  intro hsecond
  rw [run_through] at hsecond
  obtain ⟨a,ha⟩ := registered.stored (p := [blob]) (q := middle) rfl
  obtain ⟨b,hb⟩ := registered.stored (p := blob::middle) (q := []) (by simp)
  obtain ⟨old,rfl⟩ := hfirst.stored ha
  have hk : nonceAt (next S quote (run S quote wallet before) blob) key=some nonce :=
    nonceAt_eq_some.mpr ⟨_,ha,rfl⟩
  have hle : nonce ≤ b.nonce :=
    nonceAt_run (room.after hc) registered.tail hk (nonceAt_eq_some.mpr ⟨b,hb,rfl⟩)
  obtain ⟨name,_,_,hlt⟩ := hsecond.accepts hb
  have hlt : b.nonce < nonce := hlt
  bv_omega

theorem acceptedOnceUndone {calldata : List Calldata} (room : RoomAlong S quote wallet calldata) :
    AcceptedOnceUndone S quote wallet calldata := by
  intro before blob middle after key hc ⟨action,hfirst,hauth⟩ registered ⟨other,hsecond,_⟩
  obtain rfl := hfirst.action_eq hsecond
  obtain ⟨a,ha⟩ := registered.stored (p := [blob]) (q := middle) rfl
  obtain ⟨b,hb⟩ := registered.stored (p := blob::middle) (q := []) (by simp)
  obtain ⟨old,hold⟩ := hfirst.stored ha
  obtain ⟨name,hagain⟩ := hsecond.accepts (by rw [run_through]; exact hb)
  have hlast : ∀ publicKey,HasKey (run S quote
      (next S quote (run S quote wallet before) blob) middle) key publicKey ↔
        publicKey∈b.keyNames := by
    intro publicKey
    constructor
    · intro ⟨c,hc,hin⟩
      have hb : (run S quote (next S quote (run S quote wallet before) blob)
        middle).smt.values[key]?=some b := hb
      rw [hb] at hc
      exact Option.some.inj hc ▸ hin
    · exact fun hin => ⟨b,hb,hin⟩
  cases action with
  | verifyIdentity account nonce =>
    exact absurd hsecond (verifyIdentity_once room hc registered hfirst)
  | addSessionKey account newKey expirationDate whitelist laneId =>
    have hs : HasKey (next S quote (run S quote wallet before) blob) key newKey := by
      refine ⟨a,ha,?_⟩
      rw [hold,AccountInfo.mem_keyNames_after]
      exact Or.inr rfl
    have hnew : newKey∉b.keyNames := by
      intro hin
      obtain ⟨k,hk,hn⟩ := List.mem_map.mp hin
      exact hagain.2.2 k hk hn
    obtain ⟨p,c,q,other,hm,haccepts⟩ :=
      exists_removal registered.tail hs (fun h => hnew ((hlast newKey).mp h))
    rw [← run_through] at haccepts
    exact ⟨p,c,q,_,_,hm,hfirst,haccepts,rfl⟩
  | removeSessionKey account old =>
    have hs : ¬HasKey (next S quote (run S quote wallet before) blob) key old := by
      intro ⟨c,hc,hin⟩
      have ha : (next S quote (run S quote wallet before) blob).smt.values[key]?=some a := ha
      rw [ha] at hc
      obtain rfl := Option.some.inj hc
      rw [hold,AccountInfo.mem_keyNames_after] at hin
      exact hin.2 rfl
    have hold : old∈b.keyNames := by
      obtain ⟨_,k,hk,hn⟩ := hagain
      exact List.mem_map.mpr ⟨k,hk,hn⟩
    obtain ⟨p,c,q,other,_,_,_,hm,haccepts⟩ :=
      exists_addition registered.tail hs ((hlast old).mpr hold)
    rw [← run_through] at haccepts
    exact ⟨p,c,q,_,_,hm,hfirst,haccepts,rfl⟩
  | _ => cases hauth

/-- In a run in which the increments find room, the nonce of an account grows with every
authenticated action, and the calldata of one is accepted again only once it was undone. -/
theorem authenticated_actions {calldata : List Calldata}
    (room : RoomAlong S quote wallet calldata) :
    AccountNonceGrows S quote wallet calldata ∧ AcceptedOnceUndone S quote wallet calldata :=
  ⟨accountNonceGrows room,acceptedOnceUndone room⟩

end Nonces

namespace ReplayedSession

/-- The account of `mallory` with some public keys of sessions. -/
def account (publicKeys : List String) (nonce : U128) : AccountInfo :=
  ⟨"mallory",.password "0a0b",publicKeys.map (⟨·,2000,0,none,none⟩),nonce⟩

def calldata (action : WalletAction) : Calldata where
  txHash := ""
  identity := "mallory@wallet"
  blobs := [(0,⟨"wallet",(Borsh.ser action).getD []⟩),(1,⟨"check_secret",[10,11]⟩)]
  txBlobCount := 2
  index := 0
  txCtx := none
  privateInput := []

def add : WalletAction := .addSessionKey "mallory" "0203" 2000 none none
def remove : WalletAction := .removeSessionKey "mallory" "0203"

def key : H256 :=
  ByteVec.ofNat 32 0xc0a497761b175379ed63397cc980546559faa84ca9cbeede773117c31508b6ac

/-- The leaves of the accounts of the run, with the roots of their trees. -/
def leaves : List (AccountInfo × H256 × H256) :=
  [(account [] 1,
      ByteVec.ofNat 32 0x3dd2d189a4ab088ac6876009bc1cc68b05801b1068c853252df24b8ee1a6f3ef,
      ByteVec.ofNat 32 0x599c806f38b403bd5804fd4fdf4e87fccb3764d7381ede643f6f35d89da573fa),
    (account ["0203"] 2,
      ByteVec.ofNat 32 0xb5c517373a42493869c95ba7f89dbbc615dbcc4375cc82a33343fefe3a5ab4f0,
      ByteVec.ofNat 32 0x2bf50b1526d56c4c1366850d904c5b997a6a0dcb5ad8edbbd554691b69a090b9),
    (account [] 3,
      ByteVec.ofNat 32 0x5afa66980ac8357ca23a1f3b4d366720dbef0b102a08dfe6dda56e0e57d6762f,
      ByteVec.ofNat 32 0x438f1795d66efb0cba1410e527f338f74a3f9cadf0fd39772afe1873cceb21e2),
    (account ["0203"] 4,
      ByteVec.ofNat 32 0xca53e0a844fe6e3964200d46a215795255134578d921f726cba8c0b2cdc5a5d6,
      ByteVec.ofNat 32 0xf24ff924f18715b98b53a4a184bd30d115f3c9c0f6db7b38794a5a02beec396a)]

/-- The digests of the state commitments of the run. -/
def commitments : List H256 :=
  [ByteVec.ofNat 32 0xdfacb56ac920ae62fd45b4d39055ca4733722e9a8e7d8adffae8baa256eaee81,
    ByteVec.ofNat 32 0x2832ae7a751d74f4b7c3741ed72c730b1040ca468aa8adb0cee417cebc033eeb,
    ByteVec.ofNat 32 0x313d1f78a6b1faf375772b1794c9a63032bf7723d922e5f187858d57fb56a383,
    ByteVec.ofNat 32 0x8992fb9820a0d6c861542dfd80c3cf38b18350193d9ba8d3287eda29f3446750]

/-- SHA-256 at the byte strings of the run. -/
def sha256 : Bytes → H256 := ByteVec.lookup
  ((utf8 "mallory",key)::leaves.map (fun p => ((Borsh.ser p.1).getD [],p.2.1))++
    leaves.zipWith (fun p c => (p.2.2.toList++defaultInviteCodePublicKey.toList,c)) commitments)

def tree : Scheme H256 H256 H256 Unit :=
  oneKey key (fun l => ByteVec.lookup (leaves.map (fun p => (p.2.1.toList,p.2.2))) l.toList)

def wallet : Wallet sha256 :=
  ⟨defaultInviteCodePublicKey,(Store.empty.update key (account [] 1)).getD Store.empty,∅⟩

def quote (s : String) : String := "\""++s++"\""

theorem parse_calldata {action : WalletAction} (h : action=add ∨ action=remove) :
    parseRawCalldata WalletAction (calldata action)=
      .ok (action,ExecutionContext.new "mallory@wallet" "wallet") := by
  rcases h with h | h
  · rw [h]
    decide +kernel
  · rw [h]
    decide +kernel

/-- Whether the wallet accepts the action. -/
def accepts (wallet : Wallet sha256) (action : WalletAction) : Option Bool :=
  (wallet.handle tree quote (calldata action)).toOption.map fun handled => handled.1.success

/-- The wallet once the key has been added, and once it has been removed again. -/
def added : Wallet sha256 := run tree quote wallet [calldata add]

def removed : Wallet sha256 := run tree quote wallet [calldata add,calldata remove]

theorem accepts_and_nonces :
    (accepts wallet add=some true ∧ accepts added remove=some true ∧
      accepts removed add=some true) ∧
    (nonceAt wallet key=some 1 ∧ nonceAt added key=some 2 ∧ nonceAt removed key=some 3) ∧
    AccountInfo.computeKey sha256 "mallory"=key := by
  decide +kernel

theorem authenticatedAt_of_accepts {wallet : Wallet sha256} {action : WalletAction}
    (h : action=add ∨ action=remove) (hs : accepts wallet action=some true) :
    AuthenticatedAt tree quote wallet key (calldata action) := by
  have named : action.account?=some "mallory" ∧ action.isAuthenticated=true := by
    rcases h with rfl | rfl
    · exact ⟨rfl,rfl⟩
    · exact ⟨rfl,rfl⟩
  have accepted := acceptsAt_of_success (parse_calldata h) named.1 hs
  rw [accepts_and_nonces.2.2] at accepted
  exact ⟨action,accepted,named.2⟩

theorem hasRoom_of_nonce {wallet : Wallet sha256} {action : WalletAction} {stored : U128}
    (h : action=add ∨ action=remove) (hs : nonceAt wallet key=some stored)
    (hr : stored.toNat+1<2^128) : HasRoom tree quote wallet (calldata action) := by
  intro other found n haccepts _ hn
  obtain ⟨_,name,_,_,hp,ha,rfl,_⟩ := haccepts
  rw [parse_calldata h] at hp
  obtain ⟨rfl,_⟩ := Prod.mk.inj (Except.ok.inj hp)
  have named : action.account?=some "mallory" := by
    rcases h with rfl | rfl
    · rfl
    · rfl
  obtain rfl := Option.some.inj (named.symm.trans ha)
  rw [accepts_and_nonces.2.2,hs] at hn
  exact Option.some.inj hn ▸ hr

end ReplayedSession

open ReplayedSession in
/-- The request for a session key carries no nonce: it is accepted again after the key was
removed. -/
theorem not_acceptedOnce : ¬AcceptedOnce tree quote wallet
    [calldata add,calldata remove,calldata add] := by
  intro once
  obtain ⟨⟨first,_,second⟩,⟨nonce,nonceAdded,nonceRemoved⟩,_⟩ := accepts_and_nonces
  refine once [] (calldata add) [calldata remove] [] key rfl
    (authenticatedAt_of_accepts (Or.inl rfl) first) ?_
    (authenticatedAt_of_accepts (Or.inl rfl) second)
  intro p q hs
  have hp : p∈[calldata add,calldata remove].inits := (List.mem_inits _ _).mpr ⟨q,hs.symm⟩
  simp only [List.inits,List.map_cons,List.map_nil,List.mem_cons,List.not_mem_nil,
    or_false] at hp
  obtain rfl|rfl|rfl := hp
  · exact Option.isSome_of_mem nonce
  · exact Option.isSome_of_mem nonceAdded
  · exact Option.isSome_of_mem nonceRemoved

open ReplayedSession in
/-- A session key is added to an account with the nonce 1, removed and added again. -/
theorem authenticated_actions_readd :
    (AuthenticatedAt tree quote wallet key (calldata add) ∧
      AuthenticatedAt tree quote added key (calldata remove) ∧
      AuthenticatedAt tree quote removed key (calldata add)) ∧
    AccountNonceGrows tree quote wallet [calldata add,calldata remove,calldata add] ∧
    AcceptedOnceUndone tree quote wallet [calldata add,calldata remove,calldata add] := by
  obtain ⟨⟨first,undone,second⟩,⟨nonce,nonceAdded,nonceRemoved⟩,_⟩ := accepts_and_nonces
  refine ⟨⟨authenticatedAt_of_accepts (Or.inl rfl) first,
    authenticatedAt_of_accepts (Or.inr rfl) undone,
    authenticatedAt_of_accepts (Or.inl rfl) second⟩,authenticated_actions ?_⟩
  intro before blob after hc
  rcases before with _ | ⟨c,_ | ⟨d,_ | ⟨e,before⟩⟩⟩
  · obtain ⟨rfl,_⟩ := List.cons.inj hc
    exact hasRoom_of_nonce (Or.inl rfl) nonce (by decide)
  · obtain ⟨rfl,rest⟩ := List.cons.inj hc
    obtain ⟨rfl,_⟩ := List.cons.inj rest
    exact hasRoom_of_nonce (Or.inr rfl) nonceAdded (by decide)
  · obtain ⟨rfl,rest⟩ := List.cons.inj hc
    obtain ⟨rfl,last⟩ := List.cons.inj rest
    obtain ⟨rfl,_⟩ := List.cons.inj last
    exact hasRoom_of_nonce (Or.inl rfl) nonceRemoved (by decide)
  · simp at hc

end TruthSeeker.WalletClient.Wallet
