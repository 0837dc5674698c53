import Mathlib.Data.List.Basic
import Mathlib.Data.List.Nodup
import Mathlib.Data.Set.Function
import Mathlib.Tactic.Ring
import Mathlib.Tactic.Linarith

namespace TruthSeeker

abbrev Bytes := List UInt8

abbrev U128 := BitVec 128

instance instLawfulBEqBytes : LawfulBEq Bytes := inferInstance

namespace Bytes

/-- The `k` low bytes of a number, the least significant one first. -/
def ofNatLE : Nat → Nat → Bytes
  | 0,_ => []
  | k+1,n => UInt8.ofNat n :: ofNatLE k (n/256)

def toNatLE : Bytes → Nat
  | [] => 0
  | b::bs => b.toNat+256*toNatLE bs

@[simp] theorem length_ofNatLE (k n : Nat) : (ofNatLE k n).length=k := by
  induction k generalizing n with
  | zero => rfl
  | succ k ih => simp [ofNatLE,ih]

theorem toNatLE_ofNatLE (k n : Nat) (hn : n<256^k) : toNatLE (ofNatLE k n)=n := by
  induction k generalizing n with
  | zero =>
    have h : n=0 := by simpa using hn
    simp [h,ofNatLE,toNatLE]
  | succ k ih =>
    have hq : n/256<256^k := by
      rw [pow_succ] at hn
      exact Nat.div_lt_of_lt_mul (by linarith)
    have hb : (UInt8.ofNat n).toNat=n%256 := by simp
    rw [ofNatLE,toNatLE,ih _ hq,hb]
    omega

theorem getElem?_ofNatLE (k n i : Nat) (hi : i<k) :
    (ofNatLE k n)[i]?=some (UInt8.ofNat (n/256^i)) := by
  induction k generalizing n i with
  | zero => omega
  | succ k ih =>
    cases i with
    | zero => simp [ofNatLE]
    | succ i =>
      have hs := ih (n/256) i (by omega)
      rw [ofNatLE,List.getElem?_cons_succ,hs,Nat.div_div_eq_div_mul,Nat.pow_succ']

theorem toNatLE_lt (bs : Bytes) : toNatLE bs<256^bs.length := by
  induction bs with
  | nil => simp [toNatLE]
  | cons b bs ih =>
    have hb : b.toNat<256 := b.toNat_lt
    rw [toNatLE,List.length_cons,pow_succ]
    omega

theorem ofNatLE_injective (k m n : Nat) (hm : m<256^k) (hn : n<256^k)
    (h : ofNatLE k m=ofNatLE k n) : m=n := by
  rw [← toNatLE_ofNatLE k m hm,← toNatLE_ofNatLE k n hn,h]

def u64Bytes (n : UInt64) : Bytes := ofNatLE 8 n.toNat

def u32Bytes (n : UInt32) : Bytes := ofNatLE 4 n.toNat

/-- Reads exactly `k` bytes and returns the rest of the input. -/
def splitExact (k : Nat) (bs : Bytes) : Option (Bytes × Bytes) :=
  if k≤bs.length then some (bs.take k,bs.drop k) else none

theorem splitExact_append (k : Nat) (bs rest : Bytes) (hk : bs.length=k) :
    splitExact k (bs++rest)=some (bs,rest) := by
  subst hk
  simp [splitExact]

def hexDigit (n : Nat) : Char :=
  if n<10 then Char.ofNat (48+n) else Char.ofNat (87+n)

def hexDigits : Bytes → List Char
  | [] => []
  | b::bs => hexDigit (b.toNat/16) :: hexDigit (b.toNat%16) :: hexDigits bs

/-- Lower-case hexadecimal text, as `hex::encode` writes it. -/
def hex (bs : Bytes) : String := String.ofList (hexDigits bs)

theorem hexDigit_injective : ∀ m<16,∀ n<16,hexDigit m=hexDigit n → m=n := by
  decide

theorem hexDigits_injective (xs ys : Bytes) (h : hexDigits xs=hexDigits ys) : xs=ys := by
  induction xs generalizing ys with
  | nil => cases ys <;> simp_all [hexDigits]
  | cons x xs ih =>
    cases ys with
    | nil => simp [hexDigits] at h
    | cons y ys =>
      simp only [hexDigits,List.cons.injEq] at h
      obtain ⟨high,low,tail⟩ := h
      have hx : x.toNat<256 := x.toNat_lt
      have hy : y.toNat<256 := y.toNat_lt
      have hh := hexDigit_injective _ (by omega) _ (by omega) high
      have hl := hexDigit_injective _ (by omega) _ (by omega) low
      have heads : x=y := UInt8.toNat_inj.mp (by omega)
      rw [heads,ih ys tail]

theorem hex_injective {xs ys : Bytes} (h : hex xs=hex ys) : xs=ys :=
  hexDigits_injective xs ys (String.ofList_injective h)

def unhexDigit (c : Char) : Option Nat :=
  if '0' ≤ c ∧ c ≤ '9' then some (c.toNat-48)
  else if 'a' ≤ c ∧ c ≤ 'f' then some (c.toNat-87)
  else if 'A' ≤ c ∧ c ≤ 'F' then some (c.toNat-55)
  else none

def unhexDigits : List Char → Option Bytes
  | [] => some []
  | [_] => none
  | high::low::cs => do
      let h ← unhexDigit high
      let l ← unhexDigit low
      let bs ← unhexDigits cs
      return UInt8.ofNat (16*h+l)::bs

/-- `hex::decode`, which takes digits of both cases. -/
def unhex (s : String) : Option Bytes := unhexDigits s.toList

theorem u64Bytes_injective {m n : UInt64} (h : u64Bytes m=u64Bytes n) : m=n :=
  UInt64.toNat_inj.mp (ofNatLE_injective 8 _ _ m.toNat_lt n.toNat_lt h)

theorem u32Bytes_injective {m n : UInt32} (h : u32Bytes m=u32Bytes n) : m=n :=
  UInt32.toNat_inj.mp (ofNatLE_injective 4 _ _ m.toNat_lt n.toNat_lt h)

@[simp] theorem length_u64Bytes (n : UInt64) : (u64Bytes n).length=8 := length_ofNatLE 8 _

@[simp] theorem length_u32Bytes (n : UInt32) : (u32Bytes n).length=4 := length_ofNatLE 4 _

/-- A concatenation determines its pieces once it is known how long each of them is. The
frames tell the lengths, and `view` is what a piece and its frame determine. -/
theorem flatMap_append_inj {α φ γ : Type} {piece : α → Bytes} {frame : α → φ} (view : α → γ)
    {xs ys : List α} {r t : Bytes}
    (hl : ∀ x ∈ xs,∀ y ∈ ys,frame x=frame y → (piece x).length=(piece y).length)
    (hv : ∀ x ∈ xs,∀ y ∈ ys,frame x=frame y → piece x=piece y → view x=view y)
    (hf : xs.map frame=ys.map frame) (h : xs.flatMap piece++r=ys.flatMap piece++t) :
    xs.map view=ys.map view ∧ r=t := by
  induction xs generalizing ys with
  | nil =>
    obtain rfl : ys=[] := List.map_eq_nil_iff.mp hf.symm
    simpa using h
  | cons x xs ih =>
    cases ys with
    | nil => simp at hf
    | cons y ys =>
      obtain ⟨head,tail⟩ := List.cons.inj hf
      simp only [List.flatMap_cons,List.append_assoc] at h
      have split := List.append_inj h (hl x (by simp) y (by simp) head)
      have first := hv x (by simp) y (by simp) head split.1
      have rest := ih (fun a ha b hb => hl a (by simp [ha]) b (by simp [hb]))
        (fun a ha b hb => hv a (by simp [ha]) b (by simp [hb])) tail split.2
      rw [List.map_cons,List.map_cons,first,rest.1]
      exact ⟨rfl,rest.2⟩

end Bytes

/-- The UTF-8 bytes of a string, `str::as_bytes`. -/
def utf8 (s : String) : Bytes := s.toUTF8.data.toList

theorem utf8_injective {s t : String} (h : utf8 s=utf8 t) : s=t := by
  have hd : s.toUTF8.data=t.toUTF8.data := Array.toList_inj.mp h
  have hb : s.toUTF8=t.toUTF8 := ByteArray.ext hd
  exact String.toByteArray_inj.mp hb

theorem utf8_append (s t : String) : utf8 (s++t)=utf8 s++utf8 t := by
  simp [utf8]

theorem utf8_ofList (cs : List Char) :
    utf8 (String.ofList cs)=cs.flatMap String.utf8EncodeChar := by
  simp [utf8,List.utf8Encode]

theorem utf8EncodeChar_hexDigit : ∀ n<16,
    (String.utf8EncodeChar (Bytes.hexDigit n)).length=1 ∧
    ∀ b ∈ String.utf8EncodeChar (Bytes.hexDigit n),b≠0 := by
  decide +kernel

/-- Hexadecimal text has two bytes for each byte, none of them zero. -/
theorem utf8_hex (bs : Bytes) :
    (utf8 (Bytes.hex bs)).length=2*bs.length ∧ ∀ b ∈ utf8 (Bytes.hex bs),b≠0 := by
  rw [Bytes.hex,utf8_ofList]
  induction bs with
  | nil => simp [Bytes.hexDigits]
  | cons b bs ih =>
    have hb : b.toNat<256 := b.toNat_lt
    obtain ⟨lh,zh⟩ := utf8EncodeChar_hexDigit (b.toNat/16) (by omega)
    obtain ⟨ll,zl⟩ := utf8EncodeChar_hexDigit (b.toNat%16) (by omega)
    simp only [Bytes.hexDigits,List.flatMap_cons,List.length_append,List.length_cons,
      List.mem_append]
    constructor
    · omega
    · intro c hc
      obtain hc|hc|hc := hc
      · exact zh c hc
      · exact zl c hc
      · exact ih.2 c hc

/-- A byte array whose length is part of its type, `[u8; n]`. -/
@[ext] structure ByteVec (n : Nat) where
  toList : Bytes
  length_toList : toList.length=n
  deriving DecidableEq

namespace ByteVec

def zero (n : Nat) : ByteVec n := ⟨List.replicate n 0,List.length_replicate⟩

/-- The big-endian bytes of a number. -/
def ofNat (n k : Nat) : ByteVec n := ⟨(Bytes.ofNatLE n k).reverse,by simp⟩

/-- A function given by its values at the listed byte strings, zero elsewhere. -/
def lookup {n : Nat} (table : List (Bytes × ByteVec n)) (bs : Bytes) : ByteVec n :=
  ((table.find? (fun p => p.1=bs)).map Prod.snd).getD (zero n)

theorem lookup_injOn {n : Nat} (table : List (Bytes × ByteVec n))
    (hd : (table.map Prod.snd).Nodup) :
    Set.InjOn (lookup table) {bs | bs∈table.map Prod.fst} := by
  have found : ∀ bs,bs∈table.map Prod.fst → (bs,lookup table bs)∈table := by
    intro bs hb
    cases hf : table.find? (fun p => p.1=bs) with
    | none =>
      obtain ⟨p,hp,rfl⟩ := List.mem_map.mp hb
      have hn := List.find?_eq_none.mp hf p hp
      simp at hn
    | some p =>
      have hp : p.1=bs := by simpa using List.find?_some hf
      have hl : (bs,lookup table bs)=p := by rw [lookup,hf]; exact Prod.ext hp.symm rfl
      rw [hl]
      exact List.mem_of_find?_eq_some hf
  intro x hx y hy h
  have pairs := List.inj_on_of_nodup_map hd (found x hx) (found y hy) h
  exact congrArg Prod.fst pairs

instance {n : Nat} : Ord (ByteVec n) := ⟨fun v w => compare v.toList w.toList⟩

instance {n : Nat} : Std.TransOrd (ByteVec n) where
  eq_swap := fun {v w} => Std.OrientedOrd.eq_swap (a := v.toList) (b := w.toList)
  isLE_trans := fun {u v w} => Std.TransOrd.isLE_trans
    (a := u.toList) (b := v.toList) (c := w.toList)

instance {n : Nat} : Std.LawfulEqOrd (ByteVec n) where
  compare_self := fun {v} => Std.ReflOrd.compare_self (a := v.toList)
  eq_of_compare := fun {_ _} h => ByteVec.ext (Std.LawfulEqOrd.eq_of_compare h)

theorem toList_injective {n : Nat} {v w : ByteVec n} (h : v.toList=w.toList) : v=w :=
  ByteVec.ext h

theorem append_inj {n : Nat} {v w : ByteVec n} {xs ys : Bytes}
    (h : v.toList++xs=w.toList++ys) : v=w ∧ xs=ys := by
  have hl : v.toList.length=w.toList.length := by rw [v.length_toList,w.length_toList]
  have hs := List.append_inj h hl
  exact ⟨ByteVec.ext hs.1,hs.2⟩

end ByteVec

end TruthSeeker
