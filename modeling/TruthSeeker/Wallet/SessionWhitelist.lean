import Mathlib.Data.Fintype.EquivFin
import TruthSeeker.Wallet.Identity

namespace TruthSeeker

namespace Calldata

/-- Each pair of the calldata is the blob of the transaction at that index. -/
structure IsDrawnFrom (calldata : Calldata) (tx : List Blob) : Prop where
  blob : ∀ p∈calldata.blobs,tx[p.1.toNat]?=some p.2
  count : calldata.txBlobCount.toNat=tx.length

/-- Every index of the transaction other than that of the executed blob is listed. -/
def ListsAll (calldata : Calldata) : Prop :=
  ∀ i<calldata.txBlobCount.toNat,i≠calldata.index.toNat → ∃ p∈calldata.blobs,p.1.toNat=i

/-- As many distinct indices as the transaction has blobs are all its indices. -/
theorem IsDrawnFrom.listsAll_of_nodup {calldata : Calldata} {tx : List Blob}
    (h : calldata.IsDrawnFrom tx) (hl : calldata.blobs.length=calldata.txBlobCount.toNat)
    (hn : (calldata.blobs.map Prod.fst).Nodup) : calldata.ListsAll := by
  let indices := (calldata.blobs.map Prod.fst).map UInt64.toNat
  have hnodup : indices.Nodup := hn.map (fun a b he => UInt64.toNat_inj.mp he)
  have hsub : indices.toFinset⊆Finset.range calldata.txBlobCount.toNat := by
    intro i hi
    obtain ⟨index,hindex,rfl⟩ := List.mem_map.mp (List.mem_toFinset.mp hi)
    obtain ⟨p,hp,rfl⟩ := List.mem_map.mp hindex
    obtain ⟨hlt,_⟩ := List.getElem?_eq_some_iff.mp (h.blob p hp)
    rw [Finset.mem_range,h.count]
    exact hlt
  have heq : indices.toFinset=Finset.range calldata.txBlobCount.toNat := by
    apply Finset.eq_of_subset_of_card_le hsub
    rw [List.toFinset_card_of_nodup hnodup,Finset.card_range]
    simp [indices,hl]
  intro i hi _
  have hm : i∈indices.toFinset := heq ▸ Finset.mem_range.mpr hi
  obtain ⟨index,hindex,rfl⟩ := List.mem_map.mp (List.mem_toFinset.mp hm)
  obtain ⟨p,hp,rfl⟩ := List.mem_map.mp hindex
  exact ⟨p,hp,rfl⟩

/-- A blob whose index is not listed may be any blob. -/
theorem IsDrawnFrom.set {calldata : Calldata} {tx : List Blob} (h : calldata.IsDrawnFrom tx)
    {i : Nat} (hi : ∀ p∈calldata.blobs,p.1.toNat≠i) (blob : Blob) :
    calldata.IsDrawnFrom (tx.set i blob) where
  blob p hp := by
    rw [List.getElem?_set_ne (Ne.symm (hi p hp))]
    exact h.blob p hp
  count := by
    rw [List.length_set]
    exact h.count

end Calldata

namespace Wallet

open Bytes Sdk

/-- What a session key with a whitelist promises of the transaction that it signs. -/
structure SessionKey.Restricts (key : SessionKey) (calldata : Calldata) (txCtx : TxContext)
    (tx : List Blob) : Prop where
  whitelisted : ∀ i blob,tx[i]?=some blob → i≠calldata.index.toNat →
    blob.contractName≠"secp256k1" → ∀ whitelist∈key.whitelist,blob.contractName∈whitelist
  unexpired : txCtx.timestamp<key.expirationDate
  lane : ∀ laneId∈key.laneId,laneId=txCtx.laneId

namespace SessionKey

variable {key : SessionKey} {calldata : Calldata} {txCtx : TxContext} {tx : List Blob}

/-- The loop over the blobs accepts each listed blob. -/
theorem Usable.mem_whitelist (h : key.Usable calldata txCtx) {p : BlobIndex × Blob}
    (hp : p∈calldata.blobs) (hi : p.1≠calldata.index) (hs : p.2.contractName≠"secp256k1")
    {whitelist : List ContractName} (hw : key.whitelist=some whitelist) :
    p.2.contractName∈whitelist := by
  have hnone := Option.map_eq_none_iff.mp h.1
  have hp := List.find?_eq_none.mp hnone p hp
  by_contra hm
  apply hp
  simp only [decide_eq_true_eq]
  exact ⟨hi,hs,whitelist,hw,hm⟩

/-- All indices are covered, so the listed blobs are those of the transaction. -/
theorem Usable.restricts (h : key.Usable calldata txCtx) (hd : calldata.IsDrawnFrom tx)
    (hall : calldata.ListsAll) : key.Restricts calldata txCtx tx where
  whitelisted i blob hb hi hs whitelist hw := by
    obtain ⟨hlt,_⟩ := List.getElem?_eq_some_iff.mp hb
    obtain ⟨p,hp,rfl⟩ := hall i (by rw [hd.count]; exact hlt) hi
    obtain rfl : blob=p.2 := Option.some.inj (hb.symm.trans (hd.blob p hp))
    have hne : p.1≠calldata.index := fun he => hi (congrArg UInt64.toNat he)
    exact h.mem_whitelist hp hne hs hw
  unexpired := h.2.2
  lane laneId hl := by
    rcases h.2.1 with hn | hs
    · rw [hn] at hl
      cases hl
    · exact Option.some.inj (hl.symm.trans hs)

/-- Some transaction with the listed blobs calls a contract that is not whitelisted. -/
theorem exists_not_restricts {whitelist : List ContractName}
    (hw : key.whitelist=some whitelist) (hd : calldata.IsDrawnFrom tx) {i : Nat}
    (hi : i<calldata.txBlobCount.toNat) (hne : i≠calldata.index.toNat)
    (hmissing : ∀ p∈calldata.blobs,p.1.toNat≠i) :
    ∃ other,calldata.IsDrawnFrom other ∧ ¬key.Restricts calldata txCtx other := by
  obtain ⟨name,hname⟩ := Infinite.exists_notMem_finset ("secp256k1"::whitelist).toFinset
  simp only [List.mem_toFinset,List.mem_cons,not_or] at hname
  refine ⟨tx.set i ⟨name,[]⟩,hd.set hmissing ⟨name,[]⟩,?_⟩
  intro restricts
  have hget : (tx.set i ⟨name,[]⟩)[i]?=some ⟨name,[]⟩ :=
    List.getElem?_set_self (by rw [← hd.count]; exact hi)
  exact hname.2 (restricts.whitelisted i _ hget hne hname.1 whitelist hw)

end SessionKey

namespace AccountInfo

/-- A session key restricts every transaction that the calldata can be drawn from exactly
when all indices are listed: the number of pairs does not say that they differ. -/
theorem restricts_iff_listsAll {sha256 : Bytes → H256} {inviteKey : InviteCodePubKey}
    {self account' : AccountInfo} {name output : String} {nonce : U128} {calldata : Calldata}
    {key : SessionKey} {whitelist : List ContractName} {txCtx : TxContext}
    (h : self.applyAction sha256 inviteKey (.useSessionKey name nonce) calldata=
      .ok (output,account'))
    (hk : self.sessionKeys.find? (fun k => k.publicKey=signer calldata)=some key)
    (hw : key.whitelist=some whitelist) (hc : calldata.txCtx=some txCtx)
    (hd : ∃ tx,calldata.IsDrawnFrom tx) :
    (∀ tx,calldata.IsDrawnFrom tx → key.Restricts calldata txCtx tx) ↔ calldata.ListsAll := by
  obtain ⟨⟨_,_,_,ctx,k,hctx,hkey,usable⟩,_,_⟩ := applyAction_eq_ok.mp h
  obtain rfl : txCtx=ctx := Option.some.inj (hc.symm.trans hctx)
  obtain rfl : key=k := Option.some.inj (hk.symm.trans hkey)
  constructor
  · intro restricts i hi hne
    by_contra hmissing
    obtain ⟨tx,htx⟩ := hd
    obtain ⟨other,hother,hbad⟩ : ∃ other,calldata.IsDrawnFrom other ∧
        ¬key.Restricts calldata txCtx other :=
      SessionKey.exists_not_restricts hw htx hi hne fun p hp he => hmissing ⟨p,hp,he⟩
    exact hbad (restricts other hother)
  · intro hall tx htx
    exact usable.restricts htx hall

end AccountInfo

namespace RestrictedSession

open WalletZkView.SessionKeyOfAnotherUser (publicKey sha256)

def key : SessionKey := ⟨hex publicKey.toList,2000,0,some ["hyllar"],none⟩

def account : AccountInfo := ⟨"mallory",.password "0a0b",[key],1⟩

def walletBlob : Blob :=
  ⟨"wallet",(Borsh.ser (WalletAction.useSessionKey "mallory" 1)).getD []⟩

def signature : Blob := ⟨"secp256k1",(Borsh.ser (Secp256k1Blob.mk "mallory@wallet"
  (sha256 (utf8 "1")) publicKey (ByteVec.zero 64))).getD []⟩

def txCtx : TxContext := ⟨[],"",5,1000,0⟩

/-- The calldata of a transaction of three blobs, with the third pair. -/
def calldata (third : BlobIndex × Blob) : Calldata where
  txHash := ""
  identity := "mallory@wallet"
  blobs := [(0,walletBlob),(1,signature),third]
  txBlobCount := 3
  index := 0
  txCtx := some txCtx
  privateInput := []

theorem accepted {third : BlobIndex × Blob}
    (h : third=(1,signature) ∨ third=(2,⟨"hyllar",[]⟩)) :
    account.applyAction sha256 defaultInviteCodePublicKey (.useSessionKey "mallory" 1)
      (calldata third)=.ok ("Session key is valid",
        account.after (calldata third) (.useSessionKey "mallory" 1)) ∧
    account.sessionKeys.find? (fun k => k.publicKey=AccountInfo.signer (calldata third))=
      some key := by
  obtain rfl|rfl := h
  · decide +kernel
  · decide +kernel

theorem isDrawnFrom {third : BlobIndex × Blob} {last : Blob}
    (h : [walletBlob,signature,last][third.1.toNat]?=some third.2) :
    (calldata third).IsDrawnFrom [walletBlob,signature,last] where
  blob p hp := by
    simp only [calldata,List.mem_cons,List.not_mem_nil,or_false] at hp
    obtain rfl|rfl|rfl := hp
    · rfl
    · rfl
    · exact h
  count := rfl

end RestrictedSession

open RestrictedSession in
/-- The signature is listed twice in place of the call of a contract that the key may not
use. -/
theorem not_restricts_repeated :
    account.applyAction WalletZkView.SessionKeyOfAnotherUser.sha256 defaultInviteCodePublicKey
        (.useSessionKey "mallory" 1) (calldata (1,signature))=.ok ("Session key is valid",
          account.after (calldata (1,signature)) (.useSessionKey "mallory" 1)) ∧
      account.sessionKeys.find? (fun k => k.publicKey=
        AccountInfo.signer (calldata (1,signature)))=some key ∧
      (calldata (1,signature)).IsDrawnFrom [walletBlob,signature,⟨"amm",[]⟩] ∧
      ¬key.Restricts (calldata (1,signature)) txCtx [walletBlob,signature,⟨"amm",[]⟩] := by
  obtain ⟨haccepted,hkey⟩ := accepted (Or.inl rfl)
  refine ⟨haccepted,hkey,isDrawnFrom rfl,?_⟩
  intro restricts
  have hm := restricts.whitelisted 2 ⟨"amm",[]⟩ rfl (by decide) (by decide) ["hyllar"] rfl
  exact absurd hm (by decide)

open RestrictedSession in
/-- All three blobs are listed. -/
theorem restricts_iff_listsAll_three :
    (∀ tx,(calldata (2,⟨"hyllar",[]⟩)).IsDrawnFrom tx →
      key.Restricts (calldata (2,⟨"hyllar",[]⟩)) txCtx tx) ↔
      (calldata (2,⟨"hyllar",[]⟩)).ListsAll := by
  obtain ⟨haccepted,hkey⟩ := accepted (Or.inr rfl)
  exact AccountInfo.restricts_iff_listsAll haccepted hkey rfl rfl
    ⟨[walletBlob,signature,⟨"hyllar",[]⟩],isDrawnFrom rfl⟩

end Wallet

end TruthSeeker
