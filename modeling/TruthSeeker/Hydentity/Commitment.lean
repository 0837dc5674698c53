import TruthSeeker.Hydentity.Authentication
import TruthSeeker.Hyllar.Conservation
import TruthSeeker.Staking.Commitment

namespace TruthSeeker.Hydentity

open Sdk Bytes

variable {sha256 : Bytes → H256} {toJson : AccountInfo → String} {S : Set Bytes}

theorem head_splitOn {separator : Char} {chars head : List Char} {rest : List (List Char)}
    (h : chars.splitOn separator=head::rest) : separator∉head := by
  induction chars generalizing head rest with
  | nil =>
    obtain ⟨rfl,_⟩ := List.cons.inj h
    exact List.not_mem_nil
  | cons c chars ih =>
    rw [List.splitOn_cons_eq_if_modifyHead] at h
    split_ifs at h with here
    · obtain ⟨rfl,_⟩ := List.cons.inj h
      exact List.not_mem_nil
    · cases split : chars.splitOn separator with
      | nil => exact absurd split (List.splitOn_ne_nil _ _)
      | cons first others =>
        rw [split,List.modifyHead_cons] at h
        obtain ⟨rfl,_⟩ := List.cons.inj h
        have apart : separator≠c := by
          rintro rfl
          simp at here
        rw [List.mem_cons,not_or]
        exact ⟨apart,ih split⟩

/-- The name of a registration ends at its first colon. -/
theorem colon_not_mem_account {registration : String} :
    ':'∉(HydentityAction.registerIdentity registration).account.toList := by
  rw [HydentityAction.account,pieces]
  cases split : registration.toList.splitOn ':' with
  | nil => simp
  | cons head rest => simpa using head_splitOn split

/-- Names without a colon are read back from the text that is hashed for them. -/
theorem name_of_credential {name other password password' : String} (hn : ':'∉name.toList)
    (ho : ':'∉other.toList) (h : credential name password=credential other password') :
    name=other := by
  have texts := congrArg String.toList (utf8_injective h)
  simp only [String.toList_append,List.append_assoc] at texts
  have before {n p : List Char} (fresh : ':'∉n) : (n++(":".toList++p)).takeWhile (·≠ ':')=n := by
    rw [List.takeWhile_append_of_pos]
    · simp
    · intro c hc
      have apart : c≠ ':' := fun same => fresh (same ▸ hc)
      simpa using apart
  have cut := congrArg (List.takeWhile (·≠ ':')) texts
  rw [before hn,before ho] at cut
  exact String.toList_inj.mp cut

/-- An account as registrations leave it: the hash ties it to its name. -/
structure Formed (sha256 : Bytes → H256) (S : Set Bytes) (entry : String × AccountInfo) :
    Prop where
  name : ':'∉entry.1.toList
  hash : ∃ password,credential entry.1 password∈S ∧ entry.2.hash=hashed sha256 entry.1 password

def entryBytes (entry : String × AccountInfo) : Bytes :=
  utf8 entry.1++utf8 entry.2.hash++(ofNatLE 4 entry.2.nonce.toNat).reverse

theorem length_hash {entry : String × AccountInfo} (h : Formed sha256 S entry) :
    (utf8 entry.2.hash).length=64 := by
  obtain ⟨password,_,hash⟩ := h.hash
  rw [hash,hashed,(utf8_hex _).1,ByteVec.length_toList]

/-- The last entry is read from the end: its nonce, its hash, and from the hash its name. -/
theorem last_entry {x y : String × AccountInfo} {before before' : Bytes}
    (hi : Set.InjOn sha256 S) (hx : Formed sha256 S x) (hy : Formed sha256 S y)
    (h : before++entryBytes x=before'++entryBytes y) : x=y ∧ before=before' := by
  unfold entryBytes at h
  simp only [← List.append_assoc] at h
  obtain ⟨rest,nonces⟩ := List.append_inj' h (by simp)
  obtain ⟨rest,hashes⟩ := List.append_inj' rest (by rw [length_hash hx,length_hash hy])
  have hash := utf8_injective hashes
  obtain ⟨password,inX,hashX⟩ := hx.hash
  obtain ⟨password',inY,hashY⟩ := hy.hash
  have digests := ByteVec.toList_injective (hex_injective (hashX.symm.trans (hash.trans hashY)))
  have name := name_of_credential hx.name hy.name (hi inX inY digests)
  have nonce : x.2.nonce=y.2.nonce := u32Bytes_injective (List.reverse_injective nonces)
  obtain ⟨nameX,infoX⟩ := x
  obtain ⟨nameY,infoY⟩ := y
  obtain ⟨_,_⟩ := infoX
  obtain ⟨_,_⟩ := infoY
  dsimp only at name hash nonce
  subst name hash nonce
  exact ⟨rfl,List.append_cancel_right rest⟩

theorem entries_injective (hi : Set.InjOn sha256 S) {xs ys : List (String × AccountInfo)}
    (hx : ∀ x ∈ xs,Formed sha256 S x) (hy : ∀ y ∈ ys,Formed sha256 S y)
    (h : xs.flatMap entryBytes=ys.flatMap entryBytes) : xs=ys := by
  have written {entry : String × AccountInfo} {before : Bytes} (formed : Formed sha256 S entry) :
      before++entryBytes entry≠[] := by
    intro empty
    have lengths := congrArg List.length empty
    simp only [entryBytes,List.length_append,length_hash formed,List.length_nil] at lengths
    omega
  induction xs using List.reverseRecOn generalizing ys with
  | nil =>
    obtain rfl|⟨init,y,rfl⟩ := ys.eq_nil_or_concat
    · rfl
    · rw [List.concat_eq_append,List.flatMap_append,List.flatMap_singleton] at h
      exact absurd h.symm (written (hy y (by simp)))
  | append_singleton xs x ih =>
    rw [List.flatMap_append,List.flatMap_singleton] at h
    obtain rfl|⟨init,y,rfl⟩ := ys.eq_nil_or_concat
    · exact absurd h (written (hx x (by simp)))
    · rw [List.concat_eq_append] at hy h ⊢
      rw [List.flatMap_append,List.flatMap_singleton] at h
      obtain ⟨rfl,rest⟩ := last_entry hi (hx x (by simp)) (hy y (by simp)) h
      rw [ih (fun a ha => hx a (by simp [ha])) (fun a ha => hy a (by simp [ha])) rest]

/-- The accounts of a run are formed. -/
theorem formed_run {calldatas : List Calldata} (hs : ∀ bs ∈ calldatas.flatMap credentials,bs∈S) :
    ∀ entry ∈ (run sha256 toJson calldatas).identities.toList,Formed sha256 S entry := by
  rintro ⟨account,info⟩ listed
  rw [Std.ExtTreeMap.mem_toList_iff_getElem?_eq_some] at listed
  obtain ⟨password,registered,hash⟩ :=
    (known_run sha256 toJson calldatas).registered account info listed
  refine ⟨?_,password,hs _ (mem_credentials registered),hash⟩
  obtain ⟨⟨action,_⟩,_,entered⟩ := List.mem_filterMap.mp registered
  cases action with
  | registerIdentity registration =>
    obtain ⟨rfl,_⟩ := Prod.mk.inj (Option.some.inj entered)
    exact colon_not_mem_account
  | verifyIdentity _ _ => cases entered
  | getIdentityInfo _ => cases entered

/-- Each entry ends with a hash of its name, so the commitment of a run can be read back. -/
theorem identities_of_commit {calldatas others : List Calldata}
    (hi : Set.InjOn sha256 ({bs | bs∈calldatas.flatMap credentials++others.flatMap credentials}∪
      {(run sha256 toJson calldatas).preimage,(run sha256 toJson others).preimage}))
    (h : (run sha256 toJson calldatas).commit sha256=(run sha256 toJson others).commit sha256) :
    (run sha256 toJson calldatas).identities=(run sha256 toJson others).identities := by
  have bytes := hi (Set.mem_union_right _ (by simp)) (Set.mem_union_right _ (by simp))
    (ByteVec.toList_injective h)
  refine Maps.toList_injective (entries_injective
    (hi.mono (Set.subset_union_left)) ?_ ?_ bytes)
  · exact formed_run fun bs hb => List.mem_append_left _ hb
  · exact formed_run fun bs hb => List.mem_append_right _ hb

/-- Equal commitments of reachable states: Hydentity's tell everything; those of Hyllar and of
Staking tell what they cover exactly if the entries and names have the same number and lengths,
which they do not write. -/
theorem commitments_bind (faucetId : String) (tokens tokens' accounts accounts' : List Calldata)
    (operations operations' : List Staking.Operation)
    (hi : Set.InjOn sha256 {bs | bs∈accounts.flatMap credentials++accounts'.flatMap credentials++
      [(Hyllar.run faucetId tokens).preimage,(Hyllar.run faucetId tokens').preimage,
        (run sha256 toJson accounts).preimage,(run sha256 toJson accounts').preimage,
        (Staking.run operations).preimage,(Staking.run operations').preimage]}) :
    ((Hyllar.run faucetId tokens).commit sha256=(Hyllar.run faucetId tokens').commit sha256 →
      (Hyllar.run faucetId tokens=Hyllar.run faucetId tokens' ↔
        (Hyllar.run faucetId tokens).frame=(Hyllar.run faucetId tokens').frame)) ∧
    ((run sha256 toJson accounts).commit sha256=(run sha256 toJson accounts').commit sha256 →
      (run sha256 toJson accounts).identities=(run sha256 toJson accounts').identities) ∧
    ((Staking.run operations).commit sha256=(Staking.run operations').commit sha256 →
      ((Staking.run operations).covered=(Staking.run operations').covered ↔
        (Staking.run operations).frame=(Staking.run operations').frame)) := by
  refine ⟨Hyllar.eq_iff_frame (hi.mono ?_),identities_of_commit (hi.mono ?_),
    Staking.covered_iff_frame (hi.mono ?_)⟩
  · rintro bs (rfl|rfl) <;> simp
  · rintro bs (listed|rfl|rfl)
    · exact List.mem_append_left _ listed
    · simp
    · simp
  · rintro bs (rfl|rfl) <;> simp

section Examples

def approval (identity spender : String) : Calldata where
  txHash := ""
  identity := identity
  blobs := [(0,⟨"hyllar",(Borsh.ser (StructuredBlobData.mk none none
    (HyllarAction.approve spender 5))).getD []⟩)]
  txBlobCount := 1
  index := 0
  txCtx := none
  privateInput := []

/-- The owner `faucet@hydentity` and the owner `faucet@hydentity2`. -/
def firstOwner : List Calldata := [approval "faucet@hydentity" "2@hydentity"]
def secondOwner : List Calldata := [approval "faucet@hydentity2" "@hydentity"]

/-- Two delegators, and one with the two names for a name. -/
def twoDelegators : List Staking.Operation :=
  [.delegateTo "bob@hydentity" [1],.delegateTo "al@hydentity" [1]]
def oneDelegator : List Staking.Operation := [.delegateTo "bob@hydentityal@hydentity" [1]]

/-- SHA-256 of what these states and the state of `bob` hash. -/
def stateDigests : List (Bytes × H256) :=
  [((Hyllar.run Hyllar.FAUCET_ID firstOwner).preimage,ByteVec.ofNat 32
      0xbdc520a2d5ed2bf00df083925b2439b4524b753d105eea8df895fc74edc312f5),
    ((Staking.run oneDelegator).preimage,ByteVec.ofNat 32
      0x49950c133ebf726f7e36d93f15d9f25d87b302b2de7603ec3e9f4233db124f94),
    ((run knownSha256 noJson enrolment).preimage,ByteVec.ofNat 32
      0xed95a3214e0098e66a9ed96dcb0252710f5310ea68084412886f0f5d1538a79c)]

def stateSha256 : Bytes → H256 := ByteVec.lookup (knownDigests++stateDigests)

theorem injOn_stateSha256 {bytes : List Bytes}
    (h : ∀ bs ∈ bytes,bs∈(knownDigests++stateDigests).map Prod.fst) :
    Set.InjOn stateSha256 {bs | bs∈bytes} :=
  (ByteVec.lookup_injOn (knownDigests++stateDigests) (by decide +kernel)).mono h

theorem commitments_bind_collisions :
    ¬(Hyllar.run Hyllar.FAUCET_ID firstOwner=Hyllar.run Hyllar.FAUCET_ID secondOwner) ∧
    ¬(Staking.run twoDelegators).covered=(Staking.run oneDelegator).covered := by
  have bind := @commitments_bind stateSha256 noJson Hyllar.FAUCET_ID
    firstOwner secondOwner enrolment enrolment twoDelegators oneDelegator
    (injOn_stateSha256 (by decide +kernel))
  constructor
  · rw [bind.1 (by decide +kernel)]
    decide +kernel
  · rw [bind.2.2 (by decide +kernel)]
    decide +kernel

/-- The bytes are the same, so no hash function tells these states apart. -/
theorem not_commitments_bind :
    (∀ sha256 : Bytes → H256,
      (Hyllar.run Hyllar.FAUCET_ID firstOwner).commit sha256=
        (Hyllar.run Hyllar.FAUCET_ID secondOwner).commit sha256 ∧
      (Staking.run twoDelegators).commit sha256=(Staking.run oneDelegator).commit sha256) ∧
    (Hyllar.run Hyllar.FAUCET_ID firstOwner).allowance "faucet@hydentity" "2@hydentity"≠
      (Hyllar.run Hyllar.FAUCET_ID secondOwner).allowance "faucet@hydentity" "2@hydentity" ∧
    (Staking.run twoDelegators).delegations[([1] : ValidatorPublicKey)]?≠
      (Staking.run oneDelegator).delegations[([1] : ValidatorPublicKey)]? := by
  have tokens : (Hyllar.run Hyllar.FAUCET_ID firstOwner).preimage=
      (Hyllar.run Hyllar.FAUCET_ID secondOwner).preimage := by decide +kernel
  have delegators : (Staking.run twoDelegators).preimage=(Staking.run oneDelegator).preimage := by
    decide +kernel
  refine ⟨fun sha256 => ⟨?_,?_⟩,by decide +kernel,by decide +kernel⟩
  · rw [Hyllar.commit,Hyllar.commit,tokens]
  · rw [Staking.commit,Staking.commit,delegators]

end Examples

end TruthSeeker.Hydentity
