import Std.Data.ExtTreeMap
import TruthSeeker.Framework.Bytes

namespace TruthSeeker

open Bytes

/-- A binary format. Writing fails on a collection too long for its 32-bit length;
reading returns the value with the rest of the input. -/
class Borsh (α : Type) where
  ser : α → Option Bytes
  de : Bytes → Option (α × Bytes)

class LawfulBorsh (α : Type) [Borsh α] : Prop where
  de_ser : ∀ {a : α} {bs : Bytes},Borsh.ser a=some bs →
    ∀ rest,Borsh.de (bs++rest)=some (a,rest)

namespace Borsh

/-- `borsh::from_slice`: the input must be consumed to its end. -/
def fromSlice (α : Type) [Borsh α] (bs : Bytes) : Option α :=
  match de (α := α) bs with
  | some (a,[]) => some a
  | _ => none

theorem fromSlice_ser {α : Type} [Borsh α] [LawfulBorsh α] {a : α} {bs : Bytes}
    (h : ser a=some bs) : fromSlice α bs=some a := by
  have hd := LawfulBorsh.de_ser h []
  rw [List.append_nil] at hd
  simp [fromSlice,hd]

theorem fromSlice_eq_some {α : Type} [Borsh α] {bs : Bytes} {a : α} :
    fromSlice α bs=some a ↔ de bs=some (a,[]) := by
  unfold fromSlice
  split
  · rename_i h
    simp [h]
  · rename_i h
    constructor
    · intro hn
      cases hn
    · intro hd
      exact absurd hd (h a)

/-- No encoding is a proper prefix of another one. -/
theorem ser_append_inj {α : Type} [Borsh α] [LawfulBorsh α] {a b : α}
    {xs ys r t : Bytes} (ha : ser a=some xs) (hb : ser b=some ys)
    (h : xs++r=ys++t) : a=b ∧ r=t := by
  have hl := LawfulBorsh.de_ser ha r
  have hr := LawfulBorsh.de_ser hb t
  rw [h,hr] at hl
  simpa [eq_comm] using hl

theorem ser_injective {α : Type} [Borsh α] [LawfulBorsh α] {a b : α} {bs : Bytes}
    (ha : ser a=some bs) (hb : ser b=some bs) : a=b :=
  (ser_append_inj (r := []) (t := []) ha hb rfl).1

/-- A record written as the tuple of its fields. -/
structure Layout (α β : Type) where
  fields : α → β
  make : β → α
  make_fields : ∀ a,make (fields a)=a

@[reducible] def Layout.borsh {α β : Type} [Borsh β] (l : Layout α β) : Borsh α where
  ser a := ser (l.fields a)
  de bs := (de (α := β) bs).map (fun p => (l.make p.1,p.2))

theorem Layout.lawful {α β : Type} [Borsh β] [LawfulBorsh β] (l : Layout α β) :
    @LawfulBorsh α l.borsh := by
  let _ : Borsh α := l.borsh
  constructor
  intro a bs hs rest
  have hd := LawfulBorsh.de_ser (α := β) (a := l.fields a) hs rest
  change (de (α := β) (bs++rest)).map _=_
  rw [hd,Option.map_some,l.make_fields]

/-- One variant of an enumeration: its tag byte, then its payload. -/
def tagged {α : Type} [Borsh α] (tag : UInt8) (a : α) : Option Bytes :=
  (ser a).map (tag::·)

def payload {α β : Type} [Borsh β] (make : β → α) (bs : Bytes) : Option (α × Bytes) :=
  (de (α := β) bs).map (fun p => (make p.1,p.2))

theorem tagged_eq_some {α : Type} [Borsh α] {tag : UInt8} {a : α} {bs : Bytes}
    (h : tagged tag a=some bs) : ∃ body,bs=tag::body ∧ ser a=some body := by
  unfold tagged at h
  obtain ⟨body,hb,rfl⟩ := Option.map_eq_some_iff.mp h
  exact ⟨body,rfl,hb⟩

theorem payload_ser {α β : Type} [Borsh β] [LawfulBorsh β] (make : β → α) {b : β}
    {bs : Bytes} (h : ser b=some bs) (rest : Bytes) :
    payload make (bs++rest)=some (make b,rest) := by
  simp [payload,LawfulBorsh.de_ser h rest]

end Borsh

open Borsh

instance : Borsh Unit where
  ser _ := some []
  de bs := some ((),bs)

instance : LawfulBorsh Unit where
  de_ser := by
    intro a bs h rest
    obtain rfl : [] = bs := by simpa [ser] using h
    rfl

instance : Borsh UInt8 where
  ser b := some [b]
  de | [] => none
     | b::bs => some (b,bs)

instance : LawfulBorsh UInt8 where
  de_ser := by
    intro a bs h rest
    obtain rfl : [a] = bs := by simpa [ser] using h
    rfl

instance : Borsh Bool where
  ser b := some [if b then 1 else 0]
  de | 0::bs => some (false,bs)
     | 1::bs => some (true,bs)
     | _ => none

instance : LawfulBorsh Bool where
  de_ser := by
    intro a bs h rest
    obtain rfl : [if a then 1 else 0] = bs := by simpa [ser] using h
    cases a <;> rfl

/-- A number below `256^k` in `k` little-endian bytes. -/
@[reducible] def word (k : Nat) {α : Type} (toNat : α → Nat) (ofNat : Nat → α) : Borsh α where
  ser a := some (ofNatLE k (toNat a))
  de bs := (splitExact k bs).map (fun p => (ofNat (toNatLE p.1),p.2))

theorem word_lawful (k : Nat) {α : Type} (toNat : α → Nat) (ofNat : Nat → α)
    (hb : ∀ a,toNat a<256^k) (hi : ∀ a,ofNat (toNat a)=a) :
    @LawfulBorsh α (word k toNat ofNat) := by
  let _ : Borsh α := word k toNat ofNat
  constructor
  intro a bs h rest
  obtain rfl : ofNatLE k (toNat a)=bs := by simpa [ser] using h
  change (splitExact k _).map _=_
  rw [splitExact_append k _ rest (length_ofNatLE k _),Option.map_some,
    toNatLE_ofNatLE k _ (hb a),hi]

instance : Borsh UInt16 := word 2 UInt16.toNat UInt16.ofNat
instance : Borsh UInt32 := word 4 UInt32.toNat UInt32.ofNat
instance : Borsh UInt64 := word 8 UInt64.toNat UInt64.ofNat
instance : Borsh U128 := word 16 BitVec.toNat (BitVec.ofNat 128)

instance : LawfulBorsh UInt16 :=
  word_lawful 2 _ _ (fun a => a.toNat_lt) (fun _ => UInt16.ofNat_toNat)
instance : LawfulBorsh UInt32 :=
  word_lawful 4 _ _ (fun a => a.toNat_lt) (fun _ => UInt32.ofNat_toNat)
instance : LawfulBorsh UInt64 :=
  word_lawful 8 _ _ (fun a => a.toNat_lt) (fun _ => UInt64.ofNat_toNat)
instance : LawfulBorsh U128 :=
  word_lawful 16 _ _ (fun a => a.isLt) (fun a => by simp)

instance {n : Nat} : Borsh (ByteVec n) where
  ser v := some v.toList
  de bs := if h : n≤bs.length then some (⟨bs.take n,by simp [h]⟩,bs.drop n) else none

instance {n : Nat} : LawfulBorsh (ByteVec n) where
  de_ser := by
    intro v bs h rest
    obtain rfl : v.toList=bs := by simpa [ser] using h
    have hl := v.length_toList
    have ht : (v.toList++rest).take n=v.toList := List.take_left' hl
    have hd : (v.toList++rest).drop n=rest := List.drop_left' hl
    simp [de,hl,ht,hd]

section Prod
variable {α β : Type} [Borsh α] [Borsh β]

instance : Borsh (α × β) where
  ser p := (ser p.1).bind (fun xs => (ser p.2).map (xs++·))
  de bs := (de (α := α) bs).bind (fun p => (de (α := β) p.2).map (fun q => ((p.1,q.1),q.2)))

theorem ser_prod {a : α} {b : β} {xs ys : Bytes} (ha : ser a=some xs) (hb : ser b=some ys) :
    ser (a,b)=some (xs++ys) := by
  simp [ser,ha,hb]

theorem de_prod_eq_some {bs rest : Bytes} {p : α × β} (h : de bs=some (p,rest)) :
    ∃ tail,de bs=some (p.1,tail) ∧ de tail=some (p.2,rest) := by
  obtain ⟨⟨a,tail⟩,ha,ht⟩ := Option.bind_eq_some_iff.mp h
  obtain ⟨⟨b,_⟩,hb,he⟩ := Option.map_eq_some_iff.mp ht
  obtain ⟨rfl,rfl⟩ := Prod.mk.inj he
  exact ⟨tail,ha,hb⟩

theorem ser_prod_eq_some {p : α × β} {bs : Bytes} (h : ser p=some bs) :
    ∃ xs ys,ser p.1=some xs ∧ ser p.2=some ys ∧ bs=xs++ys := by
  obtain ⟨xs,hx,ht⟩ := Option.bind_eq_some_iff.mp h
  obtain ⟨ys,hy,rfl⟩ := Option.map_eq_some_iff.mp ht
  exact ⟨xs,ys,hx,hy,rfl⟩

instance [LawfulBorsh α] [LawfulBorsh β] : LawfulBorsh (α × β) where
  de_ser := by
    intro p bs h rest
    obtain ⟨xs,ys,hx,hy,rfl⟩ := ser_prod_eq_some h
    change (de (α := α) _).bind _=_
    rw [List.append_assoc,LawfulBorsh.de_ser hx,Option.bind_some,LawfulBorsh.de_ser hy]
    rfl

theorem exists_ser_prod {p : α × β} :
    (∃ bs,ser p=some bs) ↔ (∃ xs,ser p.1=some xs) ∧ ∃ ys,ser p.2=some ys := by
  constructor
  · intro ⟨bs,h⟩
    obtain ⟨xs,ys,hx,hy,_⟩ := ser_prod_eq_some h
    exact ⟨⟨xs,hx⟩,⟨ys,hy⟩⟩
  · intro ⟨⟨xs,hx⟩,⟨ys,hy⟩⟩
    exact ⟨xs++ys,ser_prod hx hy⟩

end Prod

section Option
variable {α : Type} [Borsh α]

instance : Borsh (Option α) where
  ser | none => some [0]
      | some a => tagged 1 a
  de | 0::bs => some (none,bs)
     | 1::bs => payload some bs
     | _ => none

instance [LawfulBorsh α] : LawfulBorsh (Option α) where
  de_ser := by
    intro o bs h rest
    cases o with
    | none =>
      obtain rfl : [0]=bs := by simpa [ser] using h
      rfl
    | some a =>
      obtain ⟨body,rfl,hb⟩ := tagged_eq_some h
      exact payload_ser some hb rest

end Option

section List
variable {α : Type} [Borsh α]

def serItems : List α → Option Bytes
  | [] => some []
  | a::as => (ser a).bind (fun xs => (serItems as).map (xs++·))

def deItems : Nat → Bytes → Option (List α × Bytes)
  | 0,bs => some ([],bs)
  | n+1,bs => (de (α := α) bs).bind
      (fun p => (deItems n p.2).map (fun q => (p.1::q.1,q.2)))

/-- A `Vec`: the number of items in 32 bits, then the items. -/
instance : Borsh (List α) where
  ser as := if as.length<2^32 then (serItems as).map (ofNatLE 4 as.length++·) else none
  de bs := (splitExact 4 bs).bind (fun p => deItems (toNatLE p.1) p.2)

theorem deItems_serItems [LawfulBorsh α] (as : List α) (bs rest : Bytes)
    (h : serItems as=some bs) : deItems as.length (bs++rest)=some (as,rest) := by
  induction as generalizing bs with
  | nil =>
    obtain rfl : []=bs := by simpa [serItems] using h
    rfl
  | cons a as ih =>
    obtain ⟨xs,hx,ht⟩ := Option.bind_eq_some_iff.mp h
    obtain ⟨ys,hy,rfl⟩ := Option.map_eq_some_iff.mp ht
    rw [List.length_cons,deItems,List.append_assoc,LawfulBorsh.de_ser hx,
      Option.bind_some,ih ys hy]
    rfl

theorem length_of_deItems {n : Nat} {bs rest : Bytes} {as : List α}
    (h : deItems n bs=some (as,rest)) : as.length=n := by
  induction n generalizing bs as with
  | zero =>
    obtain ⟨rfl,_⟩ : []=as ∧ bs=rest := by simpa [deItems] using h
    rfl
  | succ n ih =>
    obtain ⟨⟨a,left⟩,_,ht⟩ := Option.bind_eq_some_iff.mp h
    obtain ⟨⟨tail,_⟩,hq,he⟩ := Option.map_eq_some_iff.mp ht
    obtain ⟨rfl,rfl⟩ := Prod.mk.inj he
    rw [List.length_cons,ih hq]

theorem ser_list_eq_some {as : List α} {bs : Bytes} (h : ser as=some bs) :
    as.length<2^32 ∧ ∃ body,serItems as=some body ∧ bs=ofNatLE 4 as.length++body := by
  change (if as.length<2^32 then (serItems as).map (ofNatLE 4 as.length++·) else none)=_ at h
  split_ifs at h with hl
  obtain ⟨body,hb,rfl⟩ := Option.map_eq_some_iff.mp h
  exact ⟨hl,body,hb,rfl⟩

instance [LawfulBorsh α] : LawfulBorsh (List α) where
  de_ser := by
    intro as bs h rest
    obtain ⟨hl,body,hb,rfl⟩ := ser_list_eq_some h
    change (splitExact 4 _).bind _=_
    rw [List.append_assoc,splitExact_append 4 _ _ (length_ofNatLE 4 _),Option.bind_some,
      toNatLE_ofNatLE 4 _ (by omega)]
    exact deItems_serItems as body rest hb

theorem exists_serItems {as : List α} :
    (∃ bs,serItems as=some bs) ↔ ∀ a∈as,∃ bs,ser a=some bs := by
  induction as with
  | nil => simp [serItems]
  | cons a as ih =>
    rw [List.forall_mem_cons,← ih]
    cases ha : ser a with
    | none => simp [serItems,ha]
    | some xs => simp [serItems,ha]

/-- A list can be written when its length fits and all its items can. -/
theorem exists_ser_list {as : List α} :
    (∃ bs,ser as=some bs) ↔ as.length<2^32 ∧ ∀ a∈as,∃ bs,ser a=some bs := by
  rw [← exists_serItems]
  constructor
  · intro ⟨bs,h⟩
    obtain ⟨hl,body,hb,_⟩ := ser_list_eq_some h
    exact ⟨hl,body,hb⟩
  · intro ⟨hl,body,hb⟩
    refine ⟨ofNatLE 4 as.length++body,?_⟩
    show (if as.length<2^32 then (serItems as).map _ else none)=_
    rw [if_pos hl,hb]
    rfl

end List

/-- A `String` is the `Vec<u8>` of its UTF-8 bytes. -/
instance : Borsh String where
  ser s := ser (utf8 s)
  de bs := (de (α := List UInt8) bs).bind
    (fun p => (String.fromUTF8? ⟨p.1.toArray⟩).map (fun s => (s,p.2)))

theorem serItems_bytes (bs : Bytes) : serItems bs=some bs := by
  induction bs with
  | nil => rfl
  | cons b bs ih => simp [serItems,ih,ser]

theorem ser_string_eq_some {s : String} {bs : Bytes} (h : ser s=some bs) :
    (utf8 s).length<2^32 ∧ bs=ofNatLE 4 (utf8 s).length++utf8 s := by
  obtain ⟨hl,body,hb,rfl⟩ := ser_list_eq_some h
  rw [serItems_bytes] at hb
  obtain rfl : utf8 s=body := Option.some.inj hb
  exact ⟨hl,rfl⟩

theorem ser_string {s : String} (h : (utf8 s).length<2^32) :
    ser s=some (ofNatLE 4 (utf8 s).length++utf8 s) := by
  change (if (utf8 s).length<2^32 then (serItems (utf8 s)).map _ else none)=_
  rw [if_pos h,serItems_bytes,Option.map_some]

theorem toNatLE_of_splitExact {k : Nat} {bs header rest : Bytes}
    (h : splitExact k bs=some (header,rest)) : toNatLE header<256^k := by
  have hk : header.length=k := by
    unfold splitExact at h
    split_ifs at h with hl
    obtain ⟨rfl,_⟩ := Prod.mk.inj (Option.some.inj h)
    simpa using hl
  have bound := toNatLE_lt header
  rwa [hk] at bound

/-- A string that was read is short enough to be written. -/
theorem length_of_de_string {s : String} {bs rest : Bytes} (h : de bs=some (s,rest)) :
    (utf8 s).length<2^32 := by
  obtain ⟨⟨read,tail⟩,hl,hs⟩ := Option.bind_eq_some_iff.mp h
  obtain ⟨t,ht,he⟩ := Option.map_eq_some_iff.mp hs
  obtain ⟨rfl,_⟩ := Prod.mk.inj he
  obtain ⟨⟨header,body⟩,hh,hb⟩ := Option.bind_eq_some_iff.mp hl
  have hn := length_of_deItems hb
  have hbound := toNatLE_of_splitExact hh
  have hu : utf8 t=read := by
    unfold String.fromUTF8? at ht
    split_ifs at ht with hv
    obtain rfl := Option.some.inj ht
    simp [utf8,String.fromUTF8]
  rw [hu,hn]
  omega

theorem exists_ser_string {s : String} :
    (∃ bs,ser s=some bs) ↔ (utf8 s).length<2^32 :=
  ⟨fun ⟨_,h⟩ => (ser_string_eq_some h).1,fun h => ⟨_,ser_string h⟩⟩

theorem fromUTF8_utf8 (s : String) : String.fromUTF8? ⟨(utf8 s).toArray⟩=some s := by
  have hb : (⟨(utf8 s).toArray⟩ : ByteArray)=s.toUTF8 := by simp [utf8]
  rw [hb]
  simp [String.fromUTF8?,String.fromUTF8,s.isValidUTF8]

instance : LawfulBorsh String where
  de_ser := by
    intro s bs h rest
    have hd := LawfulBorsh.de_ser (α := List UInt8) h rest
    change (de (α := List UInt8) _).bind _=_
    rw [hd,Option.bind_some,fromUTF8_utf8]
    rfl

section Map
variable {κ ν : Type} [Ord κ] [Std.TransOrd κ] [Std.LawfulEqOrd κ]

theorem ofList_toList (m : Std.ExtTreeMap κ ν) : Std.ExtTreeMap.ofList m.toList=m := by
  classical
  apply Std.ExtTreeMap.ext_getElem?
  intro k
  cases h : m[k]? with
  | none =>
    apply Std.ExtTreeMap.getElem?_ofList_of_contains_eq_false
    apply Bool.eq_false_iff.mpr
    intro hc
    obtain ⟨p,hp,rfl⟩ := List.mem_map.mp (List.contains_iff_mem.mp hc)
    have hs := Std.ExtTreeMap.mem_toList_iff_getElem?_eq_some.mp hp
    rw [h] at hs
    cases hs
  | some v =>
    exact Std.ExtTreeMap.getElem?_ofList_of_mem (Std.ReflOrd.compare_self)
      Std.ExtTreeMap.distinct_keys_toList (Std.ExtTreeMap.mem_toList_iff_getElem?_eq_some.mpr h)

variable [Borsh κ] [Borsh ν]

/-- A `BTreeMap` is the `Vec` of its entries in key order. Reading inserts the
entries one after the other, so a repeated key keeps its last value. -/
instance : Borsh (Std.ExtTreeMap κ ν) where
  ser m := ser m.toList
  de bs := (de (α := List (κ × ν)) bs).map (fun p => (Std.ExtTreeMap.ofList p.1,p.2))

instance [LawfulBorsh κ] [LawfulBorsh ν] : LawfulBorsh (Std.ExtTreeMap κ ν) where
  de_ser := by
    intro m bs h rest
    have hd := LawfulBorsh.de_ser (α := List (κ × ν)) h rest
    change (de (α := List (κ × ν)) _).map _=_
    rw [hd,Option.map_some,ofList_toList]

end Map

/-- What was read can be written. -/
class WritableBorsh (α : Type) [Borsh α] : Prop where
  exists_ser : ∀ {bs rest : Bytes} {a : α},de bs=some (a,rest) → ∃ xs,ser a=some xs

section Writable
variable {α β : Type} [Borsh α] [Borsh β]

instance : WritableBorsh U128 where
  exists_ser _ := ⟨_,rfl⟩

instance {n : Nat} : WritableBorsh (ByteVec n) where
  exists_ser _ := ⟨_,rfl⟩

instance : WritableBorsh UInt8 where
  exists_ser _ := ⟨_,rfl⟩

instance : WritableBorsh String where
  exists_ser h := ⟨_,ser_string (length_of_de_string h)⟩

instance [WritableBorsh α] [WritableBorsh β] : WritableBorsh (α × β) where
  exists_ser h := by
    obtain ⟨tail,ha,hb⟩ := de_prod_eq_some h
    exact exists_ser_prod.mpr ⟨WritableBorsh.exists_ser ha,WritableBorsh.exists_ser hb⟩

theorem exists_ser_some {a : α} : (∃ bs,ser (some a)=some bs) ↔ ∃ bs,ser a=some bs := by
  constructor
  · intro ⟨bs,h⟩
    obtain ⟨body,_,hb⟩ := tagged_eq_some (a := a) h
    exact ⟨body,hb⟩
  · intro ⟨bs,h⟩
    exact ⟨1::bs,by simp [ser,tagged,h]⟩

instance [WritableBorsh α] : WritableBorsh (Option α) where
  exists_ser := by
    intro bs rest o h
    simp only [de] at h
    split at h
    · obtain ⟨rfl,_⟩ := Prod.mk.inj (Option.some.inj h)
      exact ⟨_,rfl⟩
    · obtain ⟨⟨a,left⟩,ha,he⟩ := Option.map_eq_some_iff.mp h
      obtain ⟨rfl,_⟩ := Prod.mk.inj he
      exact exists_ser_some.mpr (WritableBorsh.exists_ser ha)
    · cases h

theorem exists_ser_of_deItems [WritableBorsh α] {n : Nat} {bs rest : Bytes} {as : List α}
    (h : deItems n bs=some (as,rest)) : ∀ a ∈ as,∃ xs,ser a=some xs := by
  induction n generalizing bs as with
  | zero =>
    obtain ⟨rfl,_⟩ : []=as ∧ bs=rest := by simpa [deItems] using h
    simp
  | succ n ih =>
    obtain ⟨⟨a,left⟩,ha,ht⟩ := Option.bind_eq_some_iff.mp h
    obtain ⟨⟨tail,_⟩,hq,he⟩ := Option.map_eq_some_iff.mp ht
    obtain ⟨rfl,rfl⟩ := Prod.mk.inj he
    rw [List.forall_mem_cons]
    exact ⟨WritableBorsh.exists_ser ha,ih hq⟩

instance [WritableBorsh α] : WritableBorsh (List α) where
  exists_ser := by
    intro bs rest as h
    obtain ⟨⟨header,body⟩,hh,hb⟩ := Option.bind_eq_some_iff.mp h
    have bound := toNatLE_of_splitExact hh
    rw [exists_ser_list,length_of_deItems hb]
    exact ⟨bound,exists_ser_of_deItems hb⟩

section Map
variable {κ ν : Type} [Ord κ] [Std.TransOrd κ] [Std.LawfulEqOrd κ]

/-- The entries of a map come from the list that it was read from. -/
theorem mem_of_mem_insertMany {entries : List (κ × ν)} {m : Std.ExtTreeMap κ ν} {p : κ × ν}
    (h : (m.insertMany entries)[p.1]?=some p.2) : p ∈ entries ∨ m[p.1]?=some p.2 := by
  induction entries generalizing m with
  | nil =>
    rw [Std.ExtTreeMap.insertMany_nil] at h
    exact Or.inr h
  | cons entry entries ih =>
    rw [Std.ExtTreeMap.insertMany_cons] at h
    obtain listed|found := ih h
    · exact Or.inl (List.mem_cons_of_mem _ listed)
    · rw [Std.ExtTreeMap.getElem?_insert] at found
      split_ifs at found with same
      · left
        have entry : entry=p :=
          Prod.ext (Std.LawfulEqOrd.compare_eq_iff_eq.mp same) (Option.some.inj found)
        rw [entry]
        exact List.mem_cons_self
      · exact Or.inr found

instance [Borsh κ] [Borsh ν] [WritableBorsh κ] [WritableBorsh ν] :
    WritableBorsh (Std.ExtTreeMap κ ν) where
  exists_ser := by
    intro bs rest m h
    obtain ⟨⟨entries,tail⟩,read,he⟩ := Option.map_eq_some_iff.mp h
    obtain ⟨rfl,rfl⟩ := Prod.mk.inj he
    obtain ⟨fits,writes⟩ := exists_ser_list.mp (WritableBorsh.exists_ser read)
    refine exists_ser_list.mpr ⟨?_,?_⟩
    · rw [Std.ExtTreeMap.length_toList]
      exact Std.ExtTreeMap.size_ofList_le.trans_lt fits
    · intro p hp
      have found := Std.ExtTreeMap.mem_toList_iff_getElem?_eq_some.mp hp
      rw [Std.ExtTreeMap.ofList_eq_insertMany_empty] at found
      obtain listed|none := mem_of_mem_insertMany found
      · exact writes p listed
      · simp at none

end Map

/-- A record that was read can be written if it keeps all its fields. -/
theorem Borsh.writable_layout {α β : Type} [Borsh β] [WritableBorsh β] (l : Layout α β)
    (hm : ∀ b,l.fields (l.make b)=b) : @WritableBorsh α l.borsh := by
  let _ : Borsh α := l.borsh
  constructor
  intro bs rest a h
  obtain ⟨⟨b,tail⟩,read,he⟩ := Option.map_eq_some_iff.mp h
  obtain ⟨rfl,_⟩ := Prod.mk.inj he
  change ∃ xs,ser (l.fields (l.make b))=some xs
  rw [hm]
  exact WritableBorsh.exists_ser read

end Writable

/-- What is read is exactly what would be written. -/
class ExactBorsh (α : Type) [Borsh α] : Prop where
  ser_de : ∀ {bs rest : Bytes} {a : α},de bs=some (a,rest) → ∃ xs,ser a=some xs ∧ bs=xs++rest

section Exact
variable {α β : Type} [Borsh α] [Borsh β]

theorem ofNatLE_toNatLE (bs : Bytes) : ofNatLE bs.length (toNatLE bs)=bs := by
  induction bs with
  | nil => rfl
  | cons b bs ih =>
    have hb : b.toNat<256 := b.toNat_lt
    rw [List.length_cons,toNatLE,ofNatLE]
    have high : (b.toNat+256*toNatLE bs)/256=toNatLE bs := by omega
    rw [high,ih]
    congr 1
    apply UInt8.toNat_inj.mp
    simp

theorem splitExact_eq_some {k : Nat} {bs header rest : Bytes}
    (h : splitExact k bs=some (header,rest)) : header.length=k ∧ bs=header++rest := by
  unfold splitExact at h
  split_ifs at h with hl
  obtain ⟨rfl,rfl⟩ := Prod.mk.inj (Option.some.inj h)
  exact ⟨by simpa using hl,(List.take_append_drop k bs).symm⟩

instance : ExactBorsh UInt8 where
  ser_de := by
    intro bs rest a h
    cases bs with
    | nil => simp [de] at h
    | cons b bs =>
      obtain ⟨rfl,rfl⟩ : b=a ∧ bs=rest := by simpa [de] using h
      exact ⟨[b],rfl,rfl⟩

instance {n : Nat} : ExactBorsh (ByteVec n) where
  ser_de := by
    intro bs rest v h
    simp only [de] at h
    split_ifs at h with hn
    obtain ⟨rfl,rfl⟩ := Prod.mk.inj (Option.some.inj h)
    exact ⟨bs.take n,rfl,(List.take_append_drop n bs).symm⟩

instance [ExactBorsh α] [ExactBorsh β] : ExactBorsh (α × β) where
  ser_de h := by
    obtain ⟨tail,ha,hb⟩ := de_prod_eq_some h
    obtain ⟨xs,hx,rfl⟩ := ExactBorsh.ser_de ha
    obtain ⟨ys,hy,rfl⟩ := ExactBorsh.ser_de hb
    exact ⟨xs++ys,ser_prod hx hy,(List.append_assoc _ _ _).symm⟩

theorem serItems_of_deItems [ExactBorsh α] {n : Nat} {bs rest : Bytes} {as : List α}
    (h : deItems n bs=some (as,rest)) : ∃ xs,serItems as=some xs ∧ bs=xs++rest := by
  induction n generalizing bs as with
  | zero =>
    obtain ⟨rfl,rfl⟩ : []=as ∧ bs=rest := by simpa [deItems] using h
    exact ⟨[],rfl,rfl⟩
  | succ n ih =>
    obtain ⟨⟨a,left⟩,ha,ht⟩ := Option.bind_eq_some_iff.mp h
    obtain ⟨⟨tail,_⟩,hq,he⟩ := Option.map_eq_some_iff.mp ht
    obtain ⟨rfl,rfl⟩ := Prod.mk.inj he
    obtain ⟨xs,hx,rfl⟩ := ExactBorsh.ser_de ha
    obtain ⟨ys,hy,rfl⟩ := ih hq
    exact ⟨xs++ys,by simp [serItems,hx,hy],(List.append_assoc _ _ _).symm⟩

instance [ExactBorsh α] : ExactBorsh (List α) where
  ser_de := by
    intro bs rest as h
    obtain ⟨⟨header,body⟩,hh,hb⟩ := Option.bind_eq_some_iff.mp h
    have bound : as.length<2^32 := by
      rw [length_of_deItems hb]
      exact toNatLE_of_splitExact hh
    obtain ⟨xs,hx,rfl⟩ := serItems_of_deItems hb
    obtain ⟨hk,rfl⟩ := splitExact_eq_some hh
    refine ⟨ofNatLE 4 as.length++xs,?_,?_⟩
    · show (if as.length<2^32 then (serItems as).map _ else none)=_
      rw [if_pos bound,hx]
      rfl
    · rw [length_of_deItems hb,← hk,ofNatLE_toNatLE,List.append_assoc]

end Exact

end TruthSeeker
