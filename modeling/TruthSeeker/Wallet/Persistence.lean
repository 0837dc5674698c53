import TruthSeeker.Framework.SavedTrees
import TruthSeeker.SmtToken.Executor
import TruthSeeker.SmtToken.Soundness
import TruthSeeker.Wallet.Builders
import TruthSeeker.Wallet.AccountNonce

namespace TruthSeeker

open Borsh SparseMerkle

variable {sha256 : Bytes → H256}

/-- What has a leaf other than that of an empty place can be written, and what was read has a
leaf. -/
structure Savable {Value : Type} [Borsh Value] (leafOf : Value → Outcome H256) : Prop where
  written : ∀ value l,leafOf value=.ok l → l≠ByteVec.zero 32 → ∃ bs,ser value=some bs
  read : ∀ value bs rest,de bs=some (value,rest) → ∃ l,leafOf value=.ok l

theorem Savable.written_of_stored {Value : Type} [Borsh Value] {leafOf : Value → Outcome H256}
    (savable : Savable leafOf) {value : Value} {l : H256} (hl : (leafOf value).toOption=some l)
    (nonzero : l≠ByteVec.zero 32) : ∃ bs,ser value=some bs := by
  cases hx : leafOf value with
  | error fault =>
    rw [hx] at hl
    cases hl
  | ok leaf =>
    rw [hx] at hl
    obtain rfl := Option.some.inj hl
    exact savable.written value leaf hx nonzero

namespace SmtToken

instance : WritableBorsh Account := writable_layout Account.layout fun _ => rfl

theorem Account.savable (sha256 : Bytes → H256) : Savable (Account.toH256 sha256) := by
  constructor
  · intro account l hl nonzero
    have funded : account.balance≠0 := by
      intro none
      rw [toH256_empty none] at hl
      exact nonzero (Except.ok.inj hl).symm
    obtain ⟨bs,hs,_⟩ := (toH256_funded funded).mp hl
    exact ⟨bs,hs⟩
  · intro account bs rest read
    by_cases empty : account.balance=0
    · exact ⟨_,toH256_empty empty⟩
    · obtain ⟨written,hw⟩ := WritableBorsh.exists_ser read
      exact ⟨_,(toH256_funded empty).mpr ⟨written,hw,rfl⟩⟩

namespace AccountSMT

/-- The values of the tree, in whatever order the store lists them. -/
def serialize (accounts : List Account) : Option Bytes := serializeValues accounts

def deserialize (sha256 : Bytes → H256) (bs : Bytes) : Outcome (AccountSMT sha256) :=
  deserializeTree "Failed to deserialize account" AccountSMT.update AccountSMT.empty bs

theorem map_tree_update (T : AccountSMT sha256) (account : Account) :
    (T.update account).map AccountSMT.tree=T.tree.put (Account.getKey sha256) account := by
  rw [Store.put]
  cases hp : T.tree.update (account.getKey sha256) account with
  | some tree =>
    have written : T.update account=some ⟨tree,keyed_update hp⟩ := update_eq_some.mpr hp
    rw [written]
    rfl
  | none =>
    rw [Option.map_eq_none_iff,Option.eq_none_iff_forall_ne_some]
    intro fresh hu
    rw [update_eq_some.mp hu] at hp
    cases hp

theorem deserialize_eq_ok {T : AccountSMT sha256} {bs : Bytes} : deserialize sha256 bs=.ok T ↔
    deserializeTree "Failed to deserialize account" (Store.put (Account.getKey sha256))
      Store.empty bs=.ok T.tree := by
  have image : (deserialize sha256 bs).map AccountSMT.tree=
      deserializeTree "Failed to deserialize account" (Store.put (Account.getKey sha256))
        Store.empty bs := deserializeTree_map map_tree_update bs
  rw [← image,deserialize]
  constructor
  · intro h
    rw [h]
    rfl
  · intro h
    cases hd : deserializeTree "Failed to deserialize account" AccountSMT.update
        (empty : AccountSMT sha256) bs with
    | error fault =>
      rw [hd] at h
      cases h
    | ok read =>
      rw [hd] at h
      exact congrArg Except.ok (ext (Except.ok.inj h))

/-- The tree of the token, saved in any order of its accounts, is read again exactly if their
number fits into 32 bits, and no bytes make the reader panic. -/
theorem deserialize_serialize_iff (T : AccountSMT sha256) {accounts : List Account}
    (ho : accounts.Perm (T.tree.values.toList.map Prod.snd)) :
    (∃ bs,serialize accounts=some bs ∧
      (deserialize sha256 bs=.ok T ↔ T.tree.values.size<2^32)) ∧
    ∀ bs,Outcome.Quiet (deserialize sha256 bs) := by
  constructor
  · simp only [deserialize_eq_ok]
    apply Store.deserializeTree_serializeValues_iff T.keyed ho
    intro key account found
    obtain ⟨leaf,hl,nonzero⟩ := T.tree.stored key account found
    exact (Account.savable sha256).written_of_stored hl nonzero
  · intro bs
    apply quiet_deserializeTree
    intro T _ _ account read
    exact exists_update.mpr ((Account.savable sha256).read _ _ _ read)

end AccountSMT

open OneAccount in
theorem deserialize_serialize_alice :
    (∃ bs,AccountSMT.serialize [alice]=some bs ∧
      (AccountSMT.deserialize OneAccount.sha256 bs=.ok accounts ↔
        accounts.tree.values.size<2^32)) ∧
    ∀ bs,Outcome.Quiet (AccountSMT.deserialize OneAccount.sha256 bs) :=
  accounts.deserialize_serialize_iff (List.Perm.refl _)

end SmtToken

namespace WalletClient

open TruthSeeker.Wallet Sdk

instance : WritableBorsh SessionKey := writable_layout SessionKey.layout fun _ => rfl
instance : WritableBorsh AccountInfo := writable_layout AccountInfo.layout fun _ => rfl

theorem AccountInfo.savable (sha256 : Bytes → H256) : Savable (AccountInfo.toH256 sha256) := by
  constructor
  · intro account l hl nonzero
    have initialised : account.authMethod≠.uninitialized := by
      intro none
      rw [AccountInfo.toH256_uninitialized none] at hl
      exact nonzero (Except.ok.inj hl).symm
    obtain ⟨bs,hs,_⟩ := (AccountInfo.toH256_initialized initialised).mp hl
    exact ⟨bs,hs⟩
  · intro account bs rest read
    by_cases uninitialised : account.authMethod=.uninitialized
    · exact ⟨_,AccountInfo.toH256_uninitialized uninitialised⟩
    · obtain ⟨written,hw⟩ := WritableBorsh.exists_ser read
      exact ⟨_,(AccountInfo.toH256_initialized uninitialised).mpr ⟨written,hw,rfl⟩⟩

namespace AccountSMT

def keyOf (sha256 : Bytes → H256) (account : AccountInfo) : H256 :=
  AccountInfo.computeKey sha256 account.identity

def serialize (accounts : List AccountInfo) : Option Bytes := serializeValues accounts

def deserialize (sha256 : Bytes → H256) (bs : Bytes) : Outcome (AccountSMT sha256) :=
  deserializeTree "Failed to deserialize account" (Store.put (keyOf sha256)) Store.empty bs

end AccountSMT

namespace Wallet

section Saved
variable {Proof : Type} {S : Scheme H256 H256 H256 Proof} {quote : String → String}
  {wallet : Wallet sha256}

/-- Every account is under the digest of its identity. -/
def Keyed (wallet : Wallet sha256) : Prop := wallet.smt.Keyed (AccountSMT.keyOf sha256)

theorem keyed_update {smt : AccountSMT sha256} {account : AccountInfo} {acc : String}
    (h : wallet.Keyed) (named : account.identity=acc)
    (hu : wallet.smt.update (AccountInfo.computeKey sha256 acc) account=some smt) :
    smt.Keyed (AccountSMT.keyOf sha256) := by
  subst named
  exact Store.Keyed.put h hu

/-- Whatever a blob does, accounts stay under the digests of their identities. -/
theorem keyed_next (h : wallet.Keyed) (calldata : Calldata) :
    (next S quote wallet calldata).Keyed := by
  cases hh : wallet.handle S quote calldata with
  | error fault =>
    simp only [next,hh]
    exact h
  | ok handled =>
    obtain ⟨output,fresh⟩ := handled
    rw [next_of_ok hh]
    have hhandled := handle_eq_ok.mp hh
    cases hp : parseRawCalldata WalletAction calldata with
    | error e =>
      simp only [actualHandle,hp,bind,Except.bind] at hhandled
      cases hhandled
    | ok parsed =>
      obtain ⟨action,ctx⟩ := parsed
      cases hn : action.account? with
      | none =>
        cases action with
        | updateInviteCodePublicKey newKey smtRoot =>
          obtain ⟨_,hf⟩ := (actualHandle_update hp).mp hhandled
          rw [(Prod.mk.inj hf).2]
          exact h
        | _ => cases hn
      | some name =>
        obtain ⟨_,⟨_,hu,_⟩|⟨_,hu,_⟩⟩ := handled_cases hp hn hhandled
        · exact keyed_update h (by rw [AccountInfo.after_identity,accountInfo_identity]) hu
        · exact keyed_update h (accountInfo_identity wallet name) hu

theorem keyed_run (h : wallet.Keyed) (calldata : List Calldata) :
    (run S quote wallet calldata).Keyed := by
  induction calldata generalizing wallet with
  | nil => exact h
  | cons blob calldata ih => exact ih (keyed_next h blob)

/-- The tree of a wallet after any blobs, saved in any order of its accounts, is read again
exactly if their number fits into 32 bits, and no bytes make the reader panic. -/
theorem deserialize_run_iff (h : wallet.Keyed) (calldata : List Calldata)
    {accounts : List AccountInfo}
    (ho : accounts.Perm ((run S quote wallet calldata).smt.values.toList.map Prod.snd)) :
    (∃ bs,AccountSMT.serialize accounts=some bs ∧
      (AccountSMT.deserialize sha256 bs=.ok (run S quote wallet calldata).smt ↔
        (run S quote wallet calldata).smt.values.size<2^32)) ∧
    ∀ bs,Outcome.Quiet (AccountSMT.deserialize sha256 bs) := by
  constructor
  · apply Store.deserializeTree_serializeValues_iff (keyed_run h calldata) ho
    intro key account found
    obtain ⟨leaf,hl,nonzero⟩ := (run S quote wallet calldata).smt.stored key account found
    exact (AccountInfo.savable sha256).written_of_stored hl nonzero
  · intro bs
    apply quiet_deserializeTree
    intro T _ _ account read
    obtain ⟨leaf,hl⟩ := (AccountInfo.savable sha256).read _ _ _ read
    exact (Store.exists_update _ _ _).mpr ⟨leaf,by rw [hl]; rfl⟩

end Saved

open FirstBlobs in
/-- The wallet after its first registration. -/
theorem deserialize_run_registered :
    (∃ bs,AccountSMT.serialize [WalletZkView.Registration.registered []]=some bs ∧
      (AccountSMT.deserialize WalletZkView.Registration.sha256 bs=
          .ok (run WalletZkView.Registration.tree quote wallet
            [WalletZkView.Registration.calldata]).smt ↔
        (run WalletZkView.Registration.tree quote wallet
          [WalletZkView.Registration.calldata]).smt.values.size<2^32)) ∧
    ∀ bs,Outcome.Quiet (AccountSMT.deserialize WalletZkView.Registration.sha256 bs) :=
  deserialize_run_iff (by simp [Keyed,Store.Keyed,wallet,Store.empty])
    [WalletZkView.Registration.calldata] (by decide +kernel)

end Wallet

end WalletClient

end TruthSeeker
