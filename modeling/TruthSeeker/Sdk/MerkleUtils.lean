import TruthSeeker.Framework.Borsh
import TruthSeeker.Model.Contract

namespace TruthSeeker.Sdk

open Bytes Borsh

/-- A node of the path of a Merkle proof, or a run of zero subtrees over one. -/
inductive MergeValue where
  | value (h : H256)
  | mergeWithZero (baseNode zeroBits : H256) (zeroCount : UInt8)
  deriving DecidableEq

instance : Borsh MergeValue where
  ser | .value h => tagged 0 h
      | .mergeWithZero baseNode zeroBits zeroCount => tagged 1 (baseNode,zeroBits,zeroCount)
  de | 0::bs => payload .value bs
     | 1::bs => payload (fun (p : H256 × H256 × UInt8) => .mergeWithZero p.1 p.2.1 p.2.2) bs
     | _ => none

instance : LawfulBorsh MergeValue where
  de_ser := by
    intro m bs h rest
    cases m with
    | value h' =>
      obtain ⟨body,rfl,hb⟩ := tagged_eq_some h
      exact payload_ser MergeValue.value hb rest
    | mergeWithZero baseNode zeroBits zeroCount =>
      obtain ⟨body,rfl,hb⟩ := tagged_eq_some h
      exact payload_ser _ hb rest

instance : ExactBorsh MergeValue where
  ser_de := by
    intro bs rest m h
    simp only [de] at h
    split at h
    · obtain ⟨⟨v,tail⟩,read,he⟩ := Option.map_eq_some_iff.mp h
      obtain ⟨rfl,rfl⟩ := Prod.mk.inj he
      obtain ⟨xs,hx,rfl⟩ := ExactBorsh.ser_de read
      exact ⟨0::xs,by simp [ser,tagged] at hx ⊢; exact hx,rfl⟩
    · obtain ⟨⟨p,tail⟩,read,he⟩ := Option.map_eq_some_iff.mp h
      obtain ⟨rfl,rfl⟩ := Prod.mk.inj he
      obtain ⟨xs,hx,rfl⟩ := ExactBorsh.ser_de read
      exact ⟨1::xs,by
        show tagged 1 (p.1,p.2.1,p.2.2)=_
        rw [tagged,hx]
        rfl,rfl⟩
    · cases h

/-- A proof of the sparse Merkle tree. -/
structure BorshableMerkleProof where
  leavesBitmap : List H256
  merklePath : List MergeValue
  deriving DecidableEq

namespace BorshableMerkleProof

def fields (self : BorshableMerkleProof) : List H256 × List MergeValue :=
  (self.leavesBitmap,self.merklePath)

/-- The items under their number, of which only the low 32 bits are written. -/
def counted {α : Type} [Borsh α] (items : List α) : Option Bytes :=
  (serItems items).map (ofNatLE 4 (items.length%2^32)++·)

end BorshableMerkleProof

open BorshableMerkleProof

instance : Borsh BorshableMerkleProof where
  ser self := (counted self.leavesBitmap).bind fun leaves =>
    (counted self.merklePath).map (leaves++·)
  de bs := (de (α := List H256 × List MergeValue) bs).map fun p => (⟨p.1.1,p.1.2⟩,p.2)

namespace BorshableMerkleProof

variable {self : BorshableMerkleProof} {bs : Bytes}

theorem counted_of_fits {α : Type} [Borsh α] {items : List α} (h : items.length<2^32) :
    counted items=ser items := by
  show _=if items.length<2^32 then (serItems items).map (ofNatLE 4 items.length++·) else none
  rw [counted,if_pos h,Nat.mod_eq_of_lt h]

theorem ser_of_fits (hl : self.leavesBitmap.length<2^32) (hp : self.merklePath.length<2^32) :
    ser self=ser self.fields := by
  show (counted self.leavesBitmap).bind _=_
  rw [counted_of_fits hl,counted_of_fits hp]
  rfl

theorem exists_ser (self : BorshableMerkleProof) : ∃ bs,ser self=some bs := by
  obtain ⟨leaves,hl⟩ : ∃ xs,serItems self.leavesBitmap=some xs :=
    exists_serItems.mpr fun h _ => ⟨h.toList,rfl⟩
  obtain ⟨path,hp⟩ : ∃ xs,serItems self.merklePath=some xs := by
    refine exists_serItems.mpr fun m _ => ?_
    cases m with
    | value h => exact ⟨_,rfl⟩
    | mergeWithZero baseNode zeroBits zeroCount => exact ⟨_,rfl⟩
  refine ⟨ofNatLE 4 (self.leavesBitmap.length%2^32)++leaves++
    (ofNatLE 4 (self.merklePath.length%2^32)++path),?_⟩
  show (counted self.leavesBitmap).bind _=_
  rw [counted,counted,hl,hp]
  rfl

/-- A proof that is read has been written, with numbers that fit. -/
theorem ser_of_fromSlice (h : fromSlice BorshableMerkleProof bs=some self) :
    self.leavesBitmap.length<2^32 ∧ self.merklePath.length<2^32 ∧ ser self=some bs := by
  obtain ⟨⟨read,rest⟩,hd,he⟩ := Option.map_eq_some_iff.mp (fromSlice_eq_some.mp h)
  obtain ⟨rfl,rfl⟩ := Prod.mk.inj he
  obtain ⟨xs,hx,rfl⟩ := ExactBorsh.ser_de hd
  obtain ⟨_,_,hl,hp,_⟩ := ser_prod_eq_some hx
  have leaves := (ser_list_eq_some hl).1
  have path := (ser_list_eq_some hp).1
  refine ⟨leaves,path,?_⟩
  rw [ser_of_fits leaves path,List.append_nil]
  exact hx

/-- Every proof is written to bytes. They are read as that proof exactly if the numbers of its
leaves and of its nodes fit into 32 bits, and no other bytes are read as it. -/
theorem fromSlice_ser_iff (self : BorshableMerkleProof) : ∃ bs,ser self=some bs ∧
    (fromSlice BorshableMerkleProof bs=some self ↔
      self.leavesBitmap.length<2^32 ∧ self.merklePath.length<2^32) ∧
    ∀ other,fromSlice BorshableMerkleProof other=some self → other=bs := by
  obtain ⟨bs,hs⟩ := self.exists_ser
  refine ⟨bs,hs,⟨?_,?_⟩,?_⟩
  · intro h
    exact ⟨(ser_of_fromSlice h).1,(ser_of_fromSlice h).2.1⟩
  · intro fits
    rw [ser_of_fits fits.1 fits.2] at hs
    have read := LawfulBorsh.de_ser hs []
    rw [List.append_nil] at read
    refine fromSlice_eq_some.mpr ?_
    show (de (α := List H256 × List MergeValue) bs).map _=_
    rw [read]
    rfl
  · intro other h
    have written := (ser_of_fromSlice h).2.2
    rw [hs] at written
    exact (Option.some.inj written).symm

end BorshableMerkleProof

end TruthSeeker.Sdk
