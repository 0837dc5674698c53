import TruthSeeker.Model.Transaction

namespace TruthSeeker

open Bytes

/-- A digest in hexadecimal text tells the digest. -/
theorem digest_eq_of_utf8_hex {v w : H256} (h : utf8 (hex v.toList)=utf8 (hex w.toList)) : v=w :=
  ByteVec.ext (hex_injective (utf8_injective h))

@[simp] theorem length_utf8_hex (v : H256) : (utf8 (hex v.toList)).length=64 := by
  rw [(utf8_hex v.toList).1,v.length_toList]

/-! What the digests leave open: for each part, the lengths of its undelimited fields, the
fields that no digest reads, and the byte strings that are hashed. -/

namespace Blob

def preimage (self : Blob) : Bytes := utf8 self.contractName++self.data

def undigested (self : Blob) : Nat := (utf8 self.contractName).length

end Blob

namespace RegisterContractEffect

def undigested (self : RegisterContractEffect) : Nat × Nat × Nat × Nat :=
  ((utf8 self.verifier).length,self.programId.length,self.stateCommitment.length,
    (utf8 self.contractName).length)

end RegisterContractEffect

namespace OnchainEffect

/-- The kind of the effect is not digested. -/
def undigested : OnchainEffect → (Nat × Nat × Nat × Nat) ⊕ Nat
  | .registerContract effect => .inl effect.undigested
  | .deleteContract contractName => .inr (utf8 contractName).length

def digested : OnchainEffect → List Bytes
  | .registerContract effect => [effect.preimage]
  | .deleteContract _ => []

end OnchainEffect

structure HyleOutput.Undigested where
  initialState : Nat
  nextState : Nat
  identity : Nat
  blobs : List (Nat × Nat)
  onchainEffects : List ((Nat × Nat × Nat × Nat) ⊕ Nat)
  txBlobCount : UInt64
  txHash : TxHash
  stateReads : List (ContractName × StateCommitment)
  txCtx : Option TxContext
  deriving DecidableEq

structure BlobProofOutput.Undigested where
  blobTxHash : Nat
  originalProofHash : Nat
  hyleOutput : HyleOutput.Undigested
  deriving DecidableEq

/-- The kind of a transaction is not digested either. -/
inductive TransactionData.Undigested where
  | blob (identity : Nat) (blobs : List Nat)
  | proof
  | verifiedProof (contractName proofHash : Nat) (proofSize : UInt64)
      (provenBlobs : List BlobProofOutput.Undigested) (isRecursive : Bool)
  deriving DecidableEq

section
variable (sha3 : Bytes → H256)

namespace HyleOutput

def blobUndigested (entry : BlobIndex × Blob) : Nat × Nat :=
  (entry.2.undigested,entry.2.data.length)

def undigested (self : HyleOutput) : Undigested where
  initialState := self.initialState.length
  nextState := self.nextState.length
  identity := (utf8 self.identity).length
  blobs := self.blobs.map blobUndigested
  onchainEffects := self.onchainEffects.map OnchainEffect.undigested
  txBlobCount := self.txBlobCount
  txHash := self.txHash
  stateReads := self.stateReads
  txCtx := self.txCtx

def digested (self : HyleOutput) : List Bytes :=
  self.preimage sha3::self.onchainEffects.flatMap OnchainEffect.digested

end HyleOutput

namespace BlobProofOutput

def undigested (self : BlobProofOutput) : Undigested where
  blobTxHash := (utf8 self.blobTxHash).length
  originalProofHash := (utf8 self.originalProofHash).length
  hyleOutput := self.hyleOutput.undigested

def digested (self : BlobProofOutput) : List Bytes :=
  self.preimage sha3::self.hyleOutput.digested sha3

end BlobProofOutput

namespace TransactionData

def undigested : TransactionData → Undigested
  | .blob tx => .blob (utf8 tx.identity).length (tx.blobs.map Blob.undigested)
  | .proof _ => .proof
  | .verifiedProof tx =>
      .verifiedProof (utf8 tx.contractName).length (utf8 tx.proofHash).length tx.proofSize
        (tx.provenBlobs.map BlobProofOutput.undigested) tx.isRecursive

def digested : TransactionData → List Bytes
  | .blob tx => Transaction.preimage sha3 (.blob tx)::tx.blobs.map Blob.preimage
  | .proof tx => [Transaction.preimage sha3 (.proof tx),tx.proof]
  | .verifiedProof tx =>
      Transaction.preimage sha3 (.verifiedProof tx)::
        tx.provenBlobs.flatMap (BlobProofOutput.digested sha3)

/-- Without the proof that is kept on the local lane. -/
def strip : TransactionData → TransactionData
  | .verifiedProof tx => .verifiedProof { tx with proof := none }
  | data => data

end TransactionData

namespace Transaction

def strip (self : Transaction) : Transaction := ⟨self.version,self.transactionData.strip⟩

def undigested (self : Transaction) : UInt32 × TransactionData.Undigested :=
  (self.version,self.transactionData.undigested)

end Transaction

namespace DataProposal

/-- A missing parent reads like an empty one, which matters only if there are transactions. -/
def undigested (self : DataProposal) :
    Option Bool × List (UInt32 × TransactionData.Undigested) :=
  (if self.txs=[] then none else some self.parentDataProposalHash.isSome,
    self.txs.map Transaction.undigested)

def digested (self : DataProposal) : List Bytes :=
  self.preimage sha3::self.txs.flatMap fun tx => tx.transactionData.digested sha3

/-- The same transactions up to stripped proofs, after the same parent. -/
def SameContent (self other : DataProposal) : Prop :=
  self.txs.map Transaction.strip=other.txs.map Transaction.strip ∧
    (self.txs≠[] → self.parentDataProposalHash=other.parentDataProposalHash)

end DataProposal

end

section Injective
variable {sha3 : Bytes → H256} {S : Set Bytes} (hi : Set.InjOn sha3 S)

include hi

theorem Blob.eq_of_hashed {a b : Blob} (ha : a.preimage∈S) (hb : b.preimage∈S)
    (hu : a.undigested=b.undigested) (h : utf8 (a.hashed sha3)=utf8 (b.hashed sha3)) : a=b := by
  have preimages : a.preimage=b.preimage := hi ha hb (digest_eq_of_utf8_hex h)
  obtain ⟨name,data⟩ := List.append_inj preimages hu
  cases a
  cases b
  congr
  exact utf8_injective name

omit hi in
theorem RegisterContractEffect.timeoutBytes_injective {v w : Option TimeoutWindow}
    (h : timeoutBytes v=timeoutBytes w) : v=w := by
  have length := congrArg List.length h
  rcases v with _|_|v <;> rcases w with _|_|w <;> simp [timeoutBytes] at h length ⊢
  exact u64Bytes_injective h

theorem RegisterContractEffect.eq_of_hashed {a b : RegisterContractEffect} (ha : a.preimage∈S)
    (hb : b.preimage∈S) (hu : a.undigested=b.undigested)
    (h : utf8 (a.hashed sha3)=utf8 (b.hashed sha3)) : a=b := by
  have preimages : a.preimage=b.preimage := hi ha hb (digest_eq_of_utf8_hex h)
  obtain ⟨lv,lp,ls,lc⟩ : _ ∧ _ ∧ _ ∧ _ := by simpa [undigested] using hu
  simp only [preimage,List.append_assoc] at preimages
  obtain ⟨verifier,rest⟩ := List.append_inj preimages lv
  obtain ⟨programId,rest⟩ := List.append_inj rest lp
  obtain ⟨stateCommitment,rest⟩ := List.append_inj rest ls
  obtain ⟨contractName,timeout⟩ := List.append_inj rest lc
  cases a
  cases b
  congr
  · exact utf8_injective verifier
  · exact utf8_injective contractName
  · exact timeoutBytes_injective timeout

theorem OnchainEffect.eq_of_effectBytes {a b : OnchainEffect} (ha : ∀ x ∈ a.digested,x∈S)
    (hb : ∀ x ∈ b.digested,x∈S) (hu : a.undigested=b.undigested)
    (h : HyleOutput.effectBytes sha3 a=HyleOutput.effectBytes sha3 b) : a=b := by
  cases a with
  | registerContract a =>
    cases b with
    | registerContract b =>
      have pa := ha _ List.mem_cons_self
      have pb := hb _ List.mem_cons_self
      rw [RegisterContractEffect.eq_of_hashed hi pa pb (Sum.inl.inj hu) h]
    | deleteContract b => cases hu
  | deleteContract a =>
    cases b with
    | registerContract b => cases hu
    | deleteContract b => rw [utf8_injective h]

omit hi in
theorem OnchainEffect.length_effectBytes {a b : OnchainEffect}
    (hu : a.undigested=b.undigested) :
    (HyleOutput.effectBytes sha3 a).length=(HyleOutput.effectBytes sha3 b).length := by
  cases a <;> cases b <;>
    simp_all [undigested,HyleOutput.effectBytes,RegisterContractEffect.hashed]

omit hi in
theorem HyleOutput.blob_eq_of_blobBytes {a b : BlobIndex × Blob}
    (hu : blobUndigested a=blobUndigested b) (h : blobBytes a=blobBytes b) : a=b := by
  obtain ⟨ln,_⟩ := Prod.mk.inj hu
  simp only [blobBytes,List.append_assoc] at h
  obtain ⟨index,rest⟩ := List.append_inj h (by simp)
  obtain ⟨name,data⟩ := List.append_inj rest ln
  obtain ⟨ia,⟨na,da⟩⟩ := a
  obtain ⟨ib,⟨nb,db⟩⟩ := b
  obtain rfl : ia=ib := u64Bytes_injective index
  obtain rfl : na=nb := utf8_injective name
  obtain rfl : da=db := data
  rfl

omit hi in
theorem HyleOutput.length_blobBytes {a b : BlobIndex × Blob}
    (hu : blobUndigested a=blobUndigested b) : (blobBytes a).length=(blobBytes b).length := by
  obtain ⟨ln,ld⟩ := Prod.mk.inj hu
  unfold Blob.undigested at ln
  simp [blobBytes,ln,ld]

theorem HyleOutput.eq_of_hashed {a b : HyleOutput} (ha : ∀ x ∈ a.digested sha3,x∈S)
    (hb : ∀ x ∈ b.digested sha3,x∈S) (hu : a.undigested=b.undigested)
    (h : a.hashed sha3=b.hashed sha3) : a=b := by
  have preimages : a.preimage sha3=b.preimage sha3 :=
    hi (ha _ List.mem_cons_self) (hb _ List.mem_cons_self) h
  obtain ⟨li,ln,lid,lb,le,count,hash,reads,ctx⟩ := Undigested.mk.inj hu
  simp only [preimage,List.append_assoc] at preimages
  obtain ⟨version,rest⟩ := List.append_inj preimages (by simp)
  obtain ⟨initialState,rest⟩ := List.append_inj rest li
  obtain ⟨nextState,rest⟩ := List.append_inj rest ln
  obtain ⟨identity,rest⟩ := List.append_inj rest lid
  obtain ⟨index,rest⟩ := List.append_inj rest (by simp)
  obtain ⟨blobs,rest⟩ := flatMap_append_inj id
    (fun _ _ _ _ => length_blobBytes) (fun _ _ _ _ => blob_eq_of_blobBytes) lb rest
  obtain ⟨success,rest⟩ := List.append_inj rest (by simp)
  obtain ⟨_,rest⟩ := List.append_inj rest (by simp)
  obtain ⟨effects,outputs⟩ := flatMap_append_inj id
    (fun _ _ _ _ => OnchainEffect.length_effectBytes)
    (fun x hx y hy => OnchainEffect.eq_of_effectBytes hi
      (fun z hz => ha z (List.mem_cons_of_mem _ (List.mem_flatMap.mpr ⟨x,hx,hz⟩)))
      (fun z hz => hb z (List.mem_cons_of_mem _ (List.mem_flatMap.mpr ⟨y,hy,hz⟩)))) le rest
  rw [List.map_id,List.map_id] at blobs effects
  have succeeded : a.success=b.success := by
    cases hs : a.success <;> cases ht : b.success <;> simp [hs,ht] at success ⊢
  have sameVersion := u32Bytes_injective version
  have sameIndex := u64Bytes_injective index
  have sameIdentity := utf8_injective identity
  cases a
  cases b
  simp_all

theorem BlobProofOutput.eq_of_hashed {a b : BlobProofOutput} (ha : ∀ x ∈ a.digested sha3,x∈S)
    (hb : ∀ x ∈ b.digested sha3,x∈S) (hu : a.undigested=b.undigested)
    (h : a.hashed sha3=b.hashed sha3) : a=b := by
  have preimages : a.preimage sha3=b.preimage sha3 :=
    hi (ha _ List.mem_cons_self) (hb _ List.mem_cons_self) h
  obtain ⟨lt,lp,lo⟩ := Undigested.mk.inj hu
  simp only [preimage,List.append_assoc] at preimages
  obtain ⟨blobTxHash,rest⟩ := List.append_inj preimages lt
  obtain ⟨proofHash,rest⟩ := List.append_inj rest lp
  obtain ⟨programId,output⟩ := List.append_inj' rest (by simp [ByteVec.length_toList])
  have sameOutput : a.hyleOutput=b.hyleOutput :=
    HyleOutput.eq_of_hashed hi (fun x hx => ha x (List.mem_cons_of_mem _ hx))
      (fun x hx => hb x (List.mem_cons_of_mem _ hx)) lo (ByteVec.ext output)
  have sameTx := utf8_injective blobTxHash
  have sameProof := utf8_injective proofHash
  cases a
  cases b
  simp_all

theorem TransactionData.strip_eq_of_preimage {a b : TransactionData}
    (ha : ∀ x ∈ a.digested sha3,x∈S) (hb : ∀ x ∈ b.digested sha3,x∈S)
    (hu : a.undigested=b.undigested)
    (h : Transaction.preimage sha3 a=Transaction.preimage sha3 b) : a.strip=b.strip := by
  cases a with
  | blob a =>
    cases b with
    | proof b => cases hu
    | verifiedProof b => cases hu
    | blob b =>
      obtain ⟨li,lb⟩ := Undigested.blob.inj hu
      obtain ⟨identity,blobs⟩ := List.append_inj h li
      have sameBlobs : a.blobs.map id=b.blobs.map id :=
        (flatMap_append_inj id (r := []) (t := []) (fun _ _ _ _ _ => by simp [Blob.hashed])
          (fun x hx y hy hu he => Blob.eq_of_hashed hi
            (ha _ (List.mem_cons_of_mem _ (List.mem_map_of_mem hx)))
            (hb _ (List.mem_cons_of_mem _ (List.mem_map_of_mem hy))) hu he) lb
          (by simpa using blobs)).1
      have sameIdentity := utf8_injective identity
      rw [List.map_id,List.map_id] at sameBlobs
      cases a
      cases b
      simp_all
  | proof a =>
    cases b with
    | blob b => cases hu
    | verifiedProof b => cases hu
    | proof b =>
      obtain ⟨name,proof⟩ := List.append_inj' h (by simp [Transaction.proofHashed])
      have pa : a.proof∈S := ha _ (by simp [digested])
      have pb : b.proof∈S := hb _ (by simp [digested])
      have sameProof := hi pa pb (digest_eq_of_utf8_hex proof)
      have sameName := utf8_injective name
      cases a
      cases b
      simp_all
  | verifiedProof a =>
    cases b with
    | blob b => cases hu
    | proof b => cases hu
    | verifiedProof b =>
      obtain ⟨lc,lp,size,entries,recursive⟩ := Undigested.verifiedProof.inj hu
      simp only [Transaction.preimage,List.append_assoc] at h
      obtain ⟨name,rest⟩ := List.append_inj h lc
      obtain ⟨proofHash,rest⟩ := List.append_inj rest lp
      obtain ⟨_,rest⟩ := List.append_inj rest (by simp)
      have sameEntries : a.provenBlobs.map id=b.provenBlobs.map id :=
        (flatMap_append_inj id (r := []) (t := [])
          (fun _ _ _ _ _ => by simp [ByteVec.length_toList])
          (fun x hx y hy hu he => BlobProofOutput.eq_of_hashed hi
            (fun z hz => ha z (List.mem_cons_of_mem _ (List.mem_flatMap.mpr ⟨x,hx,hz⟩)))
            (fun z hz => hb z (List.mem_cons_of_mem _ (List.mem_flatMap.mpr ⟨y,hy,hz⟩))) hu
            (ByteVec.ext he)) entries (by simpa using rest)).1
      have sameName := utf8_injective name
      have sameHash := utf8_injective proofHash
      rw [List.map_id,List.map_id] at sameEntries
      cases a
      cases b
      simp_all [strip]

theorem Transaction.strip_eq_of_hashed {a b : Transaction}
    (ha : ∀ x ∈ a.transactionData.digested sha3,x∈S)
    (hb : ∀ x ∈ b.transactionData.digested sha3,x∈S) (hu : a.undigested=b.undigested)
    (h : utf8 (a.hashed sha3)=utf8 (b.hashed sha3)) : a.strip=b.strip := by
  obtain ⟨version,data⟩ := Prod.mk.inj hu
  have pa : preimage sha3 a.transactionData∈S :=
    ha _ (by cases a.transactionData <;> simp [TransactionData.digested])
  have pb : preimage sha3 b.transactionData∈S :=
    hb _ (by cases b.transactionData <;> simp [TransactionData.digested])
  have preimages := hi pa pb (digest_eq_of_utf8_hex h)
  rw [strip,strip,version,TransactionData.strip_eq_of_preimage hi ha hb data preimages]

omit hi in
@[simp] theorem Transaction.undigested_strip (tx : Transaction) :
    tx.strip.undigested=tx.undigested := by
  obtain ⟨version,data⟩ := tx
  cases data <;> rfl

theorem DataProposal.sameContent_of_undigested {p q : DataProposal}
    (hp : ∀ x ∈ p.digested sha3,x∈S) (hq : ∀ x ∈ q.digested sha3,x∈S)
    (hu : p.undigested=q.undigested) (h : p.hashed sha3=q.hashed sha3) : p.SameContent q := by
  obtain ⟨parents,txs⟩ := Prod.mk.inj hu
  have preimages : p.preimage sha3=q.preimage sha3 :=
    hi (hp _ List.mem_cons_self) (hq _ List.mem_cons_self)
      (digest_eq_of_utf8_hex (congrArg utf8 h))
  have lengths : ∀ xs ys : List Transaction,xs.map Transaction.undigested=
      ys.map Transaction.undigested →
      (xs.flatMap fun tx => utf8 (tx.hashed sha3)).length=
        (ys.flatMap fun tx => utf8 (tx.hashed sha3)).length := by
    intro xs
    induction xs with
    | nil =>
      intro ys hm
      rw [List.map_eq_nil_iff.mp hm.symm]
    | cons x xs ih =>
      intro ys hm
      cases ys with
      | nil => simp at hm
      | cons y ys =>
        have tail := ih ys (List.cons.inj hm).2
        simp only [List.flatMap_cons,List.length_append,tail]
        simp [Transaction.hashed]
  obtain ⟨parent,rest⟩ := List.append_inj' preimages (lengths p.txs q.txs txs)
  constructor
  · exact (flatMap_append_inj Transaction.strip (r := []) (t := [])
      (fun _ _ _ _ _ => by simp [Transaction.hashed])
      (fun x hx y hy => Transaction.strip_eq_of_hashed hi
        (fun z hz => hp z (List.mem_cons_of_mem _ (List.mem_flatMap.mpr ⟨x,hx,hz⟩)))
        (fun z hz => hq z (List.mem_cons_of_mem _ (List.mem_flatMap.mpr ⟨y,hy,hz⟩)))) txs
      (by simpa using rest)).1
  · intro hn
    have hm : q.txs≠[] := by
      intro he
      rw [he,List.map_nil,List.map_eq_nil_iff] at txs
      exact hn txs
    rw [if_neg hn,if_neg hm] at parents
    have same := utf8_injective parent
    cases hp : p.parentDataProposalHash <;> cases hq : q.parentDataProposalHash <;>
      simp_all

omit hi in
theorem DataProposal.undigested_of_sameContent {p q : DataProposal} (h : p.SameContent q) :
    p.undigested=q.undigested := by
  obtain ⟨txs,parent⟩ := h
  have views := congrArg (List.map Transaction.undigested) txs
  simp only [List.map_map,Function.comp_def,Transaction.undigested_strip] at views
  have empty : p.txs=[] ↔ q.txs=[] := by
    rw [← List.map_eq_nil_iff (f := Transaction.strip),txs,List.map_eq_nil_iff]
  unfold undigested
  rw [views]
  by_cases hn : p.txs=[]
  · rw [if_pos hn,if_pos (empty.mp hn)]
  · rw [if_neg hn,if_neg fun he => hn (empty.mpr he),parent hn]

/-- Equal digests leave open exactly what they do not read: given these data, they determine
the content. -/
theorem DataProposal.sameContent_iff {p q : DataProposal}
    (hp : ∀ x ∈ p.digested sha3,x∈S) (hq : ∀ x ∈ q.digested sha3,x∈S)
    (h : p.hashed sha3=q.hashed sha3) : p.SameContent q ↔ p.undigested=q.undigested :=
  ⟨undigested_of_sameContent,fun hu => sameContent_of_undigested hi hp hq hu h⟩

end Injective

end TruthSeeker
