import TruthSeeker.Wallet.Runs

namespace TruthSeeker.Wallet

open Sdk

/-- The first session key of an account with this public key. -/
def AccountInfo.sessionKey (a : AccountInfo) (publicKey : String) : Option SessionKey :=
  a.sessionKeys.find? (fun k => k.publicKey=publicKey)

theorem find?_updateFirst_self {f : SessionKey → SessionKey} {publicKey : String}
    (hf : ∀ k,(f k).publicKey=k.publicKey) (keys : List SessionKey) :
    (updateFirst (fun k => k.publicKey=publicKey) f keys).find?
        (fun k => k.publicKey=publicKey)=
      (keys.find? (fun k => k.publicKey=publicKey)).map f := by
  induction keys with
  | nil => rfl
  | cons k keys ih =>
    by_cases hk : k.publicKey=publicKey
    · simp [updateFirst,hk,hf]
    · simp [updateFirst,hk,ih]

theorem find?_updateFirst_of_ne {f : SessionKey → SessionKey} {publicKey other : String}
    (hf : ∀ k,(f k).publicKey=k.publicKey) (hne : other≠publicKey) (keys : List SessionKey) :
    (updateFirst (fun k => k.publicKey=other) f keys).find?
        (fun k => k.publicKey=publicKey)=
      keys.find? (fun k => k.publicKey=publicKey) := by
  induction keys with
  | nil => rfl
  | cons k keys ih =>
    by_cases hk : k.publicKey=other
    · have hp : k.publicKey≠publicKey := hk ▸ hne
      simp [updateFirst,hk,hf,hne]
    · by_cases hp : k.publicKey=publicKey
      · have hq : publicKey≠other := fun h => hne h.symm
        simp [updateFirst,hp,hq]
      · simp [updateFirst,hk,hp,ih]

example : (updateFirst (fun k : SessionKey => k.publicKey="02") (fun k => { k with nonce := 7 })
    [⟨"01",9,1,none,none⟩,⟨"02",9,1,none,none⟩]).map SessionKey.nonce=[1,7] := by decide +kernel

/-- A key that is left after a removal was found before it. -/
theorem find?_of_filter {publicKey old : String} {keys : List SessionKey} {l : SessionKey}
    (h : (keys.filter (fun k => k.publicKey≠old)).find? (fun k => k.publicKey=publicKey)=
      some l) : keys.find? (fun k => k.publicKey=publicKey)=some l := by
  have hp : l.publicKey=publicKey := by simpa using List.find?_some h
  have hm : l.publicKey≠old := by simpa using (List.mem_filter.mp (List.mem_of_find?_eq_some h)).2
  induction keys with
  | nil => simp at h
  | cons k keys ih =>
    by_cases hk : k.publicKey=publicKey
    · have hne : publicKey≠old := hp ▸ hm
      obtain rfl : k=l := by simpa [hk,hne] using h
      simp [hk]
    · by_cases ho : k.publicKey=old
      · simp only [ho,ne_eq,not_true,decide_false,Bool.false_eq_true,not_false_eq_true,
          List.filter_cons_of_neg] at h
        simp only [hk,decide_false,Bool.false_eq_true,not_false_eq_true,
          List.find?_cons_of_neg]
        exact ih h
      · simp only [ho,ne_eq,not_false_eq_true,decide_true,List.filter_cons_of_pos,hk,
          decide_false,Bool.false_eq_true,List.find?_cons_of_neg] at h ⊢
        exact ih h

/-- A key that is there before and after an action was used by it or is unchanged. -/
theorem AccountInfo.sessionKey_after {a : AccountInfo} {calldata : Calldata}
    {action : WalletAction} {publicKey : String} {k l : SessionKey}
    (hk : a.sessionKey publicKey=some k)
    (hl : (a.after calldata action).sessionKey publicKey=some l) :
    l=k ∨ ∃ name nonce,action=.useSessionKey name nonce ∧
      signer calldata=publicKey ∧ l={ k with nonce := nonce } := by
  unfold sessionKey at hk hl
  cases action with
  | registerIdentity account nonce salt authMethod inviteCode =>
    left
    rw [show (a.after calldata _).sessionKeys=a.sessionKeys from rfl,hk] at hl
    exact (Option.some.inj hl).symm
  | verifyIdentity account nonce =>
    left
    rw [show (a.after calldata _).sessionKeys=a.sessionKeys from rfl,hk] at hl
    exact (Option.some.inj hl).symm
  | addSessionKey account newKey expirationDate whitelist laneId =>
    left
    simp only [after,List.find?_append,hk,Option.some_or] at hl
    exact (Option.some.inj hl).symm
  | removeSessionKey account old =>
    left
    rw [find?_of_filter hl] at hk
    exact Option.some.inj hk
  | useSessionKey account nonce =>
    simp only [after] at hl
    by_cases hs : signer calldata=publicKey
    · rw [hs,find?_updateFirst_self (f := fun k => { k with nonce := nonce }) (fun _ => rfl),hk] at hl
      exact Or.inr ⟨account,nonce,rfl,hs,(Option.some.inj hl).symm⟩
    · rw [find?_updateFirst_of_ne (f := fun k => { k with nonce := nonce }) (fun _ => rfl) hs,hk]
        at hl
      exact Or.inl (Option.some.inj hl).symm
  | updateInviteCodePublicKey newKey smtRoot =>
    left
    rw [show (a.after calldata _)=a from rfl,hk] at hl
    exact (Option.some.inj hl).symm

end TruthSeeker.Wallet

namespace TruthSeeker.WalletClient.Wallet

open TruthSeeker.Wallet Bytes Sdk SparseMerkle

section Sessions
variable {Proof : Type} (S : Scheme H256 H256 H256 Proof) {sha256 : Bytes → H256}
  (quote : String → String)

/-- The session key that the account under a key has. -/
def sessionKeyAt (wallet : Wallet sha256) (key : H256) (publicKey : String) :
    Option SessionKey :=
  (wallet.smt.values[key]?).bind (fun a => a.sessionKey publicKey)

/-- A session key of the account is used with this nonce. -/
def UsesKey (wallet : Wallet sha256) (key : H256) (publicKey : String) (calldata : Calldata)
    (nonce : U128) : Prop :=
  (∃ name,AcceptsAt S quote wallet key calldata (.useSessionKey name nonce)) ∧
    AccountInfo.signer calldata=publicKey

/-- The nonces that are accepted for a session key increase as long as it stays registered. -/
def NoncesIncrease (wallet : Wallet sha256) (calldata : List Calldata) : Prop :=
  ∀ before first middle second after key publicKey m n,
    calldata=before++first::(middle++second::after) →
    UsesKey S quote (run S quote wallet before) key publicKey first m →
    UsesKey S quote (run S quote wallet (before++first::middle)) key publicKey second n →
    (∀ p q,middle=p++q →
      (sessionKeyAt (run S quote wallet (before++first::p)) key publicKey).isSome) →
    m < n

/-- An accepted use of a session key comes with a nonce above the stored one. -/
def FreshNonce (wallet : Wallet sha256) (calldata : Calldata) : Prop :=
  ∀ key publicKey nonce k,UsesKey S quote wallet key publicKey calldata nonce →
    sessionKeyAt wallet key publicKey=some k → k.nonce < nonce

variable {S quote} {wallet : Wallet sha256} {calldata : Calldata} {key : H256}
  {publicKey : String}

theorem sessionKeyAt_eq_some {k : SessionKey} :
    sessionKeyAt wallet key publicKey=some k ↔
      ∃ a,wallet.smt.values[key]?=some a ∧ a.sessionKey publicKey=some k := by
  simp [sessionKeyAt,Option.bind_eq_some_iff]

/-- A stored nonce changes only to that of an accepted use. -/
theorem sessionKeyAt_next {k l : SessionKey} (hk : sessionKeyAt wallet key publicKey=some k)
    (hl : sessionKeyAt (next S quote wallet calldata) key publicKey=some l) :
    l.nonce=k.nonce ∨ UsesKey S quote wallet key publicKey calldata l.nonce := by
  obtain ⟨a,ha,hak⟩ := sessionKeyAt_eq_some.mp hk
  obtain ⟨b,hb,hbl⟩ := sessionKeyAt_eq_some.mp hl
  obtain ⟨action,name,haccepts,_,_,rfl⟩|⟨_,name,rfl⟩ := next_cases ha hb
  · obtain rfl|⟨other,nonce,rfl,hs,rfl⟩ :=
      AccountInfo.sessionKey_after (a := { a with identity := name }) hak hbl
    · exact Or.inl rfl
    · exact Or.inr ⟨⟨other,haccepts⟩,hs⟩
  · left
    rw [show AccountInfo.sessionKey { a with identity := name } publicKey=
      a.sessionKey publicKey from rfl,hak] at hbl
    rw [Option.some.inj hbl]

/-- A use stores its nonce. -/
theorem UsesKey.stored {nonce : U128} {l : SessionKey}
    (h : UsesKey S quote wallet key publicKey calldata nonce)
    (hl : sessionKeyAt (next S quote wallet calldata) key publicKey=some l) :
    l.nonce=nonce := by
  obtain ⟨⟨other,haccepts⟩,rfl⟩ := h
  obtain ⟨name,_,_,⟨_,_,_,txCtx,k,_,hk,_⟩,hu⟩ := haccepts.written
  obtain ⟨b,hb,hbl⟩ := sessionKeyAt_eq_some.mp hl
  obtain rfl := eq_of_update hu hb
  unfold AccountInfo.sessionKey at hbl
  simp only [AccountInfo.after] at hbl
  rw [find?_updateFirst_self (f := fun k => { k with nonce := nonce }) (fun _ => rfl),hk] at hbl
  obtain rfl := Option.some.inj hbl
  rfl

/-- In a run whose accepted uses all come with fresh nonces, the nonces accepted for a
session key increase as long as it stays registered. -/
theorem noncesIncrease {calldata : List Calldata}
    (fresh : ∀ before blob after,calldata=before++blob::after →
      FreshNonce S quote (run S quote wallet before) blob) :
    NoncesIncrease S quote wallet calldata := by
  intro before first middle second after key publicKey m n hc hfirst hsecond registered
  have hsplit : ∀ p c q,middle=p++c::q →
      FreshNonce S quote (run S quote wallet (before++first::p)) c := by
    intro p c q hm
    refine fresh (before++first::p) c (q++second::after) ?_
    rw [hc,hm]
    simp
  -- the invariant of the steps after the first use: the stored nonce is at least its own
  have stored : ∃ k,sessionKeyAt (middle.foldl (next S quote)
      (run S quote wallet (before++[first]))) key publicKey=some k ∧ m ≤ k.nonce := by
    refine @Trace.foldl_of_prefixes _ _ (next S quote)
      (fun w => ∃ k,sessionKeyAt w key publicKey=some k ∧ m ≤ k.nonce) _ middle ?_ ?_
    · obtain ⟨l,hl⟩ := Option.isSome_iff_exists.mp (registered [] middle rfl)
      refine ⟨l,hl,?_⟩
      have hrun : run S quote wallet (before++[first])=
          next S quote (run S quote wallet before) first := by simp [run]
      rw [hrun] at hl
      rw [hfirst.stored hl]
      bv_omega
    · intro p c q hm kept
      obtain ⟨k,hk,hle⟩ := kept
      have hreg := registered (p++[c]) q (by simp [hm])
      obtain ⟨l,hl⟩ := Option.isSome_iff_exists.mp hreg
      have hfresh := hsplit p c q hm
      have hrun : run S quote wallet (before++first::p)=
          p.foldl (next S quote) (run S quote wallet (before++[first])) := by
        simp [run]
      have hrun' : run S quote wallet (before++first::(p++[c]))=
          next S quote (p.foldl (next S quote) (run S quote wallet (before++[first]))) c := by
        simp [run]
      rw [hrun] at hfresh
      rw [hrun'] at hl
      refine ⟨l,hl,?_⟩
      rcases sessionKeyAt_next hk hl with he | huse
      · rw [he]
        exact hle
      · have hlt := hfresh key publicKey l.nonce k huse hk
        bv_omega
  obtain ⟨k,hk,hle⟩ := stored
  have hrun : run S quote wallet (before++first::middle)=
      middle.foldl (next S quote) (run S quote wallet (before++[first])) := by
    simp [run]
  have hlast := fresh (before++first::middle) second after (by simp [hc])
  rw [hrun] at hlast hsecond
  have hlt := hlast key publicKey n k hsecond hk
  bv_omega

end Sessions

namespace SessionRun

def publicKey : ByteVec 33 := ByteVec.ofNat 33 0x020707070707070707070707070707070707070707070707070707070707070707

def key : H256 :=
  ByteVec.ofNat 32 0xc0a497761b175379ed63397cc980546559faa84ca9cbeede773117c31508b6ac

/-- The account of `mallory` with a session key and its nonce. -/
def account (nonce : U128) : AccountInfo :=
  ⟨"mallory",.password "0a0b",[⟨hex publicKey.toList,2000,nonce,none,none⟩],1⟩

/-- SHA-256 of the two nonces that are signed. -/
def signedHash (nonce : U128) : H256 :=
  if nonce=1 then
    ByteVec.ofNat 32 0x6b86b273ff34fce19d6b804eff5a3f5747ada4eaa22f1d49c01e52ddb7875b4b
  else ByteVec.ofNat 32 0xd4735e3a265e16eee03f59718b9b5d03019c07d8b6c51f90da3a666eec13ab35

/-- A use of the session key with a signature of the nonce. -/
def calldata (nonce : U128) : Calldata where
  txHash := ""
  identity := "mallory@wallet"
  blobs :=
    [(0,⟨"wallet",(Borsh.ser (WalletAction.useSessionKey "mallory" nonce)).getD []⟩),
      (1,⟨"secp256k1",(Borsh.ser (Secp256k1Blob.mk "mallory@wallet" (signedHash nonce)
        publicKey (ByteVec.zero 64))).getD []⟩)]
  txBlobCount := 2
  index := 0
  txCtx := some ⟨[],"",5,1000,0⟩
  privateInput := []

/-- The leaves of the account with the nonces of the run, and the roots of their trees. -/
def leaves : List (AccountInfo × H256 × H256) :=
  [(account 0,
      ByteVec.ofNat 32 0x2112fb943e7411e714f358574b56fa07965a823de49451164b8de2a7e48b926d,
      ByteVec.ofNat 32 0x2c1c8489b11c2372e3ca8c27bc821e9d8ced01133f6eb14103cc299a18356066),
    (account 1,
      ByteVec.ofNat 32 0x722b591c95b549a136dd3ce93a9117a74245b4678a53dfacf07c643d04065354,
      ByteVec.ofNat 32 0x073bb55465f592750781151ec221c4c03fbde2418da8d33e70d19c2b64fc2cdd),
    (account 2,
      ByteVec.ofNat 32 0x33adfac0ddb51ae48767fdf7b4c33478b5778515bfa505ac92378a45358a1c28,
      ByteVec.ofNat 32 0x09932d7313439c3b1510ce79bee085f12a6ba8dbda55303a38de136c63e77c7d)]

/-- The digests of the state commitments of the run. -/
def commitments : List H256 :=
  [ByteVec.ofNat 32 0xb62a9f76485e901b36264577fd595e6c38cce3b70f93e9bb8f049f40844f6a96,
    ByteVec.ofNat 32 0xa724d80d41675a419d3871d4e7169b265b3a8a69d5a0ba84ae26b2553bbf5d71,
    ByteVec.ofNat 32 0xa199d631c45d80eb9d8a9f4d89c9aac1a9d50dd28583bdc2574236ee77682d98]

/-- SHA-256 at the byte strings of the run. -/
def sha256 : Bytes → H256 := ByteVec.lookup
  ((utf8 "mallory",key)::(utf8 "1",signedHash 1)::(utf8 "2",signedHash 2)::
    leaves.map (fun p => ((Borsh.ser p.1).getD [],p.2.1))++
    leaves.zipWith (fun p c => (p.2.2.toList++defaultInviteCodePublicKey.toList,c)) commitments)

def tree : Scheme H256 H256 H256 Unit :=
  oneKey key (fun l => ByteVec.lookup (leaves.map (fun p => (p.2.1.toList,p.2.2))) l.toList)

def wallet : Wallet sha256 :=
  ⟨defaultInviteCodePublicKey,(Store.empty.update key (account 0)).getD Store.empty,∅⟩

def quote (s : String) : String := "\""++s++"\""

/-- The wallet after the first use. -/
def used : Wallet sha256 := run tree quote wallet [calldata 1]

/-- Whether the wallet accepts a use with the nonce. -/
def accepts (wallet : Wallet sha256) (nonce : U128) : Option Bool :=
  (wallet.handle tree quote (calldata nonce)).toOption.map fun handled => handled.1.success

def storedNonce (wallet : Wallet sha256) : Option U128 :=
  (sessionKeyAt wallet key (hex publicKey.toList)).map SessionKey.nonce

theorem uses_and_nonces :
    (accepts wallet 1=some true ∧ accepts used 1=some true ∧ accepts used 2=some true) ∧
    (storedNonce wallet=some 0 ∧ storedNonce used=some 1) ∧
    AccountInfo.computeKey sha256 "mallory"=key := by
  decide +kernel

theorem parse_calldata {nonce : U128} (hn : nonce=1 ∨ nonce=2) :
    AccountInfo.signer (calldata nonce)=hex publicKey.toList ∧
    parseRawCalldata WalletAction (calldata nonce)=
      .ok (.useSessionKey "mallory" nonce,ExecutionContext.new "mallory@wallet" "wallet") := by
  rcases hn with rfl | rfl
  · decide +kernel
  · decide +kernel

theorem usesKey_of_accepts {wallet : Wallet sha256} {nonce : U128} (hn : nonce=1 ∨ nonce=2)
    (h : accepts wallet nonce=some true) :
    UsesKey tree quote wallet key (hex publicKey.toList) (calldata nonce) nonce := by
  have computed := uses_and_nonces.2.2
  obtain ⟨signer,parsed⟩ := parse_calldata hn
  have accepted := acceptsAt_of_success parsed rfl h
  rw [computed] at accepted
  exact ⟨⟨"mallory",accepted⟩,signer⟩

theorem freshNonce_of_stored {wallet : Wallet sha256} {nonce stored : U128}
    (hn : nonce=1 ∨ nonce=2) (hs : storedNonce wallet=some stored) (hlt : stored < nonce) :
    FreshNonce tree quote wallet (calldata nonce) := by
  have computed := uses_and_nonces.2.2
  obtain ⟨signer,parsed⟩ := parse_calldata hn
  intro other publicKey n k huse hk
  obtain ⟨⟨_,_,name,_,_,hp,ha,rfl,_⟩,rfl⟩ := huse
  rw [parsed] at hp
  obtain ⟨same,_⟩ := Prod.mk.inj (Except.ok.inj hp)
  obtain ⟨rfl,rfl⟩ := WalletAction.useSessionKey.inj same
  obtain rfl := Option.some.inj ha
  rw [computed,signer] at hk
  rw [storedNonce,hk] at hs
  rwa [Option.some.inj hs]

end SessionRun

open SessionRun in
/-- The nonce of a use is stored, but it is not compared: the signature is accepted again. -/
theorem not_noncesIncrease : ¬NoncesIncrease tree quote wallet [calldata 1,calldata 1] := by
  intro increase
  obtain ⟨⟨first,second,_⟩,⟨_,stored⟩,_⟩ := uses_and_nonces
  have h : (1 : U128)<1 := by
    refine increase [] (calldata 1) [] (calldata 1) [] _ _ 1 1 rfl
      (usesKey_of_accepts (Or.inl rfl) first) (usesKey_of_accepts (Or.inl rfl) second) ?_
    intro p q hm
    obtain ⟨rfl,rfl⟩ := List.nil_eq_append_iff.mp hm
    obtain ⟨k,hk,_⟩ := Option.map_eq_some_iff.mp stored
    exact Option.isSome_iff_exists.mpr ⟨k,hk⟩
  exact absurd h (by decide)

open SessionRun in
/-- Two accepted uses of a session key, each with a nonce above the stored one. -/
theorem noncesIncrease_uses :
    UsesKey tree quote wallet key (hex publicKey.toList) (calldata 1) 1 ∧
    UsesKey tree quote used key (hex publicKey.toList) (calldata 2) 2 ∧
    NoncesIncrease tree quote wallet [calldata 1,calldata 2] := by
  obtain ⟨⟨first,_,second⟩,⟨stored,storedUsed⟩,_⟩ := uses_and_nonces
  refine ⟨usesKey_of_accepts (Or.inl rfl) first,usesKey_of_accepts (Or.inr rfl) second,
    noncesIncrease ?_⟩
  intro before blob after hc
  rcases before with _ | ⟨c,_ | ⟨d,before⟩⟩
  · obtain ⟨rfl,_⟩ := List.cons.inj hc
    exact freshNonce_of_stored (Or.inl rfl) stored (by decide)
  · obtain ⟨rfl,rest⟩ := List.cons.inj hc
    obtain ⟨rfl,_⟩ := List.cons.inj rest
    exact freshNonce_of_stored (Or.inr rfl) storedUsed (by decide)
  · simp at hc

end TruthSeeker.WalletClient.Wallet
