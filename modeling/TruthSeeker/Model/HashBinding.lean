import TruthSeeker.Model.Digest

namespace TruthSeeker

open Bytes

namespace BlobTransaction

/-- The lengths that the digest of a transaction does not tell. -/
def undigested (self : BlobTransaction) : Nat × List Nat :=
  ((utf8 self.identity).length,self.blobs.map Blob.undigested)

/-- The byte strings that are hashed for the transaction and its blobs. -/
def digested (sha3 : Bytes → H256) (self : BlobTransaction) : List Bytes :=
  (TransactionData.blob self).digested sha3

/-- The digest of the first blob is moved to the end of the identity. -/
def absorbed (sha3 : Bytes → H256) (self : BlobTransaction) : BlobTransaction :=
  match self.blobs with
  | [] => self
  | blob::blobs => ⟨self.identity++blob.hashed sha3,blobs⟩

end BlobTransaction

section Binding
variable {sha3 : Bytes → H256} {S : Set Bytes}

theorem Blob.eq_iff_of_hashed (hi : Set.InjOn sha3 S) {a b : Blob} (ha : a.preimage∈S)
    (hb : b.preimage∈S) (h : a.hashed sha3=b.hashed sha3) :
    a=b ↔ a.undigested=b.undigested := by
  constructor
  · intro same
    rw [same]
  · intro hu
    exact Blob.eq_of_hashed hi ha hb hu (congrArg utf8 h)

theorem BlobTransaction.eq_iff_of_hashed (hi : Set.InjOn sha3 S) {s t : BlobTransaction}
    (hs : ∀ bytes ∈ s.digested sha3,bytes∈S) (ht : ∀ bytes ∈ t.digested sha3,bytes∈S)
    (h : s.hashed sha3=t.hashed sha3) : s=t ↔ s.undigested=t.undigested := by
  constructor
  · intro same
    rw [same]
  · intro hu
    obtain ⟨identity,blobs⟩ := Prod.mk.inj hu
    have frames : (TransactionData.blob s).undigested=(TransactionData.blob t).undigested := by
      rw [TransactionData.undigested,TransactionData.undigested,identity,blobs]
    have preimages : Transaction.preimage sha3 (.blob s)=Transaction.preimage sha3 (.blob t) :=
      hi (hs _ List.mem_cons_self) (ht _ List.mem_cons_self)
        (digest_eq_of_utf8_hex (congrArg utf8 h))
    exact TransactionData.blob.inj
      (TransactionData.strip_eq_of_preimage hi hs ht frames preimages)

/-- No digest is read where the identity ends and the digests of the blobs begin. -/
theorem BlobTransaction.hashed_absorbed (sha3 : Bytes → H256) (self : BlobTransaction) :
    (self.absorbed sha3).hashed sha3=self.hashed sha3 := by
  obtain ⟨identity,blobs⟩ := self
  cases blobs with
  | nil => rfl
  | cons blob blobs =>
    have same : Transaction.preimage sha3 (.blob ⟨identity++blob.hashed sha3,blobs⟩)=
        Transaction.preimage sha3 (.blob ⟨identity,blob::blobs⟩) := by
      simp only [Transaction.preimage,utf8_append,List.flatMap_cons,List.append_assoc]
    show hex (sha3 (Transaction.preimage sha3 (.blob ⟨_,blobs⟩))).toList=_
    rw [same]
    rfl

theorem BlobTransaction.blobs_absorbed_ne (sha3 : Bytes → H256) {self : BlobTransaction}
    (h : self.blobs≠[]) : (self.absorbed sha3).blobs≠self.blobs := by
  obtain ⟨identity,blobs⟩ := self
  cases blobs with
  | nil => exact absurd rfl h
  | cons blob blobs =>
    intro same
    have shorter := congrArg List.length same
    simp [absorbed] at shorter

/-- Equal digests leave open exactly the lengths of the names and of the identity, and no
transaction with a blob is the only one with its digest. -/
theorem hashBinding_iff (hi : Set.InjOn sha3 S) :
    (∀ a b : Blob,a.preimage∈S → b.preimage∈S → a.hashed sha3=b.hashed sha3 →
      (a.contractName=b.contractName ∧ a.data=b.data ↔ a.undigested=b.undigested)) ∧
    (∀ s t : BlobTransaction,(∀ bytes ∈ s.digested sha3,bytes∈S) →
      (∀ bytes ∈ t.digested sha3,bytes∈S) → s.hashed sha3=t.hashed sha3 →
      (s.identity=t.identity ∧ s.blobs=t.blobs ↔ s.undigested=t.undigested)) ∧
    ∀ s : BlobTransaction,s.blobs≠[] →
      ∃ t : BlobTransaction,t.blobs≠s.blobs ∧ t.hashed sha3=s.hashed sha3 := by
  refine ⟨?_,?_,?_⟩
  · intro a b ha hb h
    rw [← Blob.eq_iff_of_hashed hi ha hb h,Blob.mk.injEq]
  · intro s t hs ht h
    rw [← BlobTransaction.eq_iff_of_hashed hi hs ht h,BlobTransaction.mk.injEq]
  · intro s hs
    exact ⟨s.absorbed sha3,BlobTransaction.blobs_absorbed_ne sha3 hs,
      BlobTransaction.hashed_absorbed sha3 s⟩

namespace SplitNames

/-- The name of one blob and the data after it read like those of the other. -/
def longName : Blob := ⟨"ab",[99]⟩

def shortName : Blob := ⟨"a",[98,99]⟩

/-- The blob after the one that proves the identity. -/
def carrying (blob : Blob) : BlobTransaction := ⟨"alice@x",[⟨"x",[]⟩,blob]⟩

def digests : List (Bytes × H256) := [(longName.preimage,.ofNat 32 1),([120],.ofNat 32 2)]

end SplitNames

open SplitNames

theorem hashBinding_iff_split_names :
    longName.contractName=shortName.contractName ∧ longName.data=shortName.data ↔
      longName.undigested=shortName.undigested :=
  (hashBinding_iff (ByteVec.lookup_injOn digests (by decide +kernel))).1 longName shortName
    (by decide +kernel) (by decide +kernel) (by decide +kernel)

/-- Whatever the hash function, blobs with different names and transactions with different
blobs have one digest. -/
theorem not_hashBinding_split_names :
    (longName.contractName≠shortName.contractName ∧
      ∀ sha3 : Bytes → H256,longName.hashed sha3=shortName.hashed sha3) ∧
    (carrying longName).blobs≠(carrying shortName).blobs ∧
      ∀ sha3 : Bytes → H256,(carrying longName).hashed sha3=(carrying shortName).hashed sha3 := by
  have same (sha3 : Bytes → H256) : longName.hashed sha3=shortName.hashed sha3 := by
    have preimages : longName.preimage=shortName.preimage := by decide +kernel
    unfold Blob.hashed
    unfold Blob.preimage at preimages
    rw [preimages]
  refine ⟨⟨by decide +kernel,same⟩,by decide +kernel,?_⟩
  intro sha3
  unfold BlobTransaction.hashed Transaction.preimage carrying
  simp only [List.flatMap_cons,same]

end Binding

end TruthSeeker
