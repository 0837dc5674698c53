import TruthSeeker.Framework.Bytes

namespace TruthSeeker.Steganography

/-- The binary digits of a byte, the most significant one first. -/
def bitsOfByte (byte : UInt8) : List Bool :=
  [byte.toNat.testBit 7,byte.toNat.testBit 6,byte.toNat.testBit 5,byte.toNat.testBit 4,
    byte.toNat.testBit 3,byte.toNat.testBit 2,byte.toNat.testBit 1,byte.toNat.testBit 0]

def textToBinary (text : String) : List Bool := (utf8 text).flatMap bitsOfByte

def byteOfBits (bits : List Bool) : Nat := bits.foldl (fun n bit => 2*n+bit.toNat) 0

/-- The numbers of the groups of eight binary digits. -/
def bytesOfBits : List Bool → List Nat
  | a::b::c::d::e::f::g::h::rest => byteOfBits [a,b,c,d,e,f,g,h]::bytesOfBits rest
  | [] => []
  | rest => [byteOfBits rest]

/-- Whether a byte is a printable ASCII character. -/
def Printable (byte : Nat) : Prop := 32≤byte ∧ byte≤126

instance (byte : Nat) : Decidable (Printable byte) := inferInstanceAs (Decidable (_ ∧ _))

def binaryToText (binary : List Bool) : String :=
  if binary.length<8 then "" else
    let padded := binary++List.replicate ((binary.length/8+1)*8-binary.length) false
    String.ofList (((bytesOfBits padded).filter fun byte => Printable byte).map Char.ofNat)

section Bytes

theorem length_bitsOfByte (byte : UInt8) : (bitsOfByte byte).length=8 := rfl

theorem length_textToBinary (text : String) :
    (textToBinary text).length=8*(utf8 text).length := by
  unfold textToBinary
  induction utf8 text with
  | nil => rfl
  | cons byte bytes ih =>
    rw [List.flatMap_cons,List.length_append,ih,length_bitsOfByte,List.length_cons]
    omega

theorem byteOfBits_bitsOfByte (byte : UInt8) : byteOfBits (bitsOfByte byte)=byte.toNat := by
  have all : ∀ n : Fin 256,byteOfBits (bitsOfByte (UInt8.ofNat n))=n := by decide +kernel
  have h := all ⟨byte.toNat,byte.toNat_lt⟩
  simpa using h

theorem bytesOfBits_append {n : Nat} {bits : List Bool} (h : bits.length=8*n) (rest : List Bool) :
    bytesOfBits (bits++rest)=bytesOfBits bits++bytesOfBits rest := by
  induction n generalizing bits with
  | zero =>
    obtain rfl := List.eq_nil_of_length_eq_zero h
    rfl
  | succ n ih =>
    match bits with
    | a::b::c::d::e::f::g::i::tail =>
      have shorter : tail.length=8*n := by
        simp only [List.length_cons] at h
        omega
      exact congrArg (byteOfBits [a,b,c,d,e,f,g,i]::·) (ih shorter)
    | [] | [_] | [_,_] | [_,_,_] | [_,_,_,_] | [_,_,_,_,_] | [_,_,_,_,_,_]
    | [_,_,_,_,_,_,_] => simp at h <;> omega

theorem bytesOfBits_flatMap (bytes : Bytes) :
    bytesOfBits (bytes.flatMap bitsOfByte)=bytes.map UInt8.toNat := by
  induction bytes with
  | nil => rfl
  | cons byte bytes ih =>
    have first : bytesOfBits (bitsOfByte byte++bytes.flatMap bitsOfByte)=
        byteOfBits (bitsOfByte byte)::bytesOfBits (bytes.flatMap bitsOfByte) := rfl
    rw [List.flatMap_cons,first,ih,byteOfBits_bitsOfByte]
    rfl

theorem tail_bytesOfBits (bits : List Bool) :
    (bytesOfBits bits).tail=bytesOfBits (bits.drop 8) := by
  match bits with
  | _::_::_::_::_::_::_::_::_ => rfl
  | [] | [_] | [_,_] | [_,_,_] | [_,_,_,_] | [_,_,_,_,_] | [_,_,_,_,_,_]
  | [_,_,_,_,_,_,_] => rfl

/-- The bytes after the first ones are those of the later bits. -/
theorem drop_bytesOfBits (n : Nat) (bits : List Bool) :
    (bytesOfBits bits).drop n=bytesOfBits (bits.drop (8*n)) := by
  induction n generalizing bits with
  | zero => rfl
  | succ n ih =>
    have rest := ih (bits.drop 8)
    rw [← tail_bytesOfBits,List.drop_tail,List.drop_drop] at rest
    rw [rest]
    congr 2
    omega

theorem length_bytesOfBits {n : Nat} {bits : List Bool} (h : bits.length=8*n) :
    (bytesOfBits bits).length=n := by
  induction n generalizing bits with
  | zero =>
    obtain rfl := List.eq_nil_of_length_eq_zero h
    rfl
  | succ n ih =>
    have rest : (bytesOfBits (bits.drop 8)).length=n := by
      apply ih
      simp [h]
      omega
    rw [← tail_bytesOfBits,List.length_tail] at rest
    match bits with
    | _::_::_::_::_::_::_::_::_ =>
      simp only [bytesOfBits,List.length_cons] at rest ⊢
      omega
    | [] | [_] | [_,_] | [_,_,_] | [_,_,_,_] | [_,_,_,_,_] | [_,_,_,_,_,_]
    | [_,_,_,_,_,_,_] => simp at h <;> omega

end Bytes

section Ascii

theorem utf8EncodeChar_of_printable {c : Char} (h : Printable c.toNat) :
    (String.utf8EncodeChar c).map UInt8.toNat=[c.toNat] := by
  have small : c.val.toNat≤127 := by
    have bound := h.2
    unfold Char.toNat at bound
    omega
  unfold String.utf8EncodeChar
  rw [if_pos small]
  show [(UInt8.ofNat c.toNat).toNat]=[c.toNat]
  rw [UInt8.toNat_ofNat']
  congr 1
  have bound := h.2
  omega

/-- The bytes of a printable text are its characters. -/
theorem toNat_utf8 {text : String} (h : ∀ c ∈ text.toList,Printable c.toNat) :
    (utf8 text).map UInt8.toNat=text.toList.map Char.toNat := by
  have eq : utf8 text=text.toList.flatMap String.utf8EncodeChar := by
    have encoded := utf8_ofList text.toList
    rwa [String.ofList_toList] at encoded
  rw [eq]
  generalize text.toList=cs at h
  induction cs with
  | nil => rfl
  | cons c cs ih =>
    have rest := ih fun d hd => h d (List.mem_cons_of_mem _ hd)
    have first := utf8EncodeChar_of_printable (h c List.mem_cons_self)
    rw [List.flatMap_cons,List.map_append,rest,first]
    rfl

theorem length_utf8 {text : String} (h : ∀ c ∈ text.toList,Printable c.toNat) :
    (utf8 text).length=text.length := by
  have lengths := congrArg List.length (toNat_utf8 h)
  rwa [List.length_map,List.length_map,String.length_toList] at lengths

/-- Printable characters are decoded from their numbers. -/
theorem map_ofNat_toNat {cs : List Char} (h : ∀ c ∈ cs,Printable c.toNat) :
    ((cs.map Char.toNat).filter fun byte => Printable byte).map Char.ofNat=cs := by
  have kept : (cs.map Char.toNat).filter (fun byte => Printable byte)=cs.map Char.toNat := by
    rw [List.filter_eq_self]
    intro byte hbyte
    obtain ⟨c,hc,rfl⟩ := List.mem_map.mp hbyte
    exact decide_eq_true (h c hc)
  rw [kept,List.map_map]
  exact (List.map_congr_left fun c _ => Char.ofNat_toNat c).trans (List.map_id _)

/-- Whole bytes are decoded to their printable characters. -/
theorem binaryToText_eq {n : Nat} {bits : List Bool} (h : bits.length=8*(n+1)) :
    binaryToText bits=String.ofList
      (((bytesOfBits bits).filter fun byte => Printable byte).map Char.ofNat) := by
  have long : ¬bits.length<8 := by omega
  have pad : (bits.length/8+1)*8-bits.length=8 := by omega
  unfold binaryToText
  rw [if_neg long,pad]
  dsimp only
  rw [bytesOfBits_append h]
  simp [bytesOfBits,byteOfBits,Printable]

end Ascii

end TruthSeeker.Steganography
