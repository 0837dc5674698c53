import TruthSeeker.Framework.Bytes

namespace TruthSeeker.Base64

def alphabet : List Char :=
  "ABCDEFGHIJKLMNOPQRSTUVWXYZabcdefghijklmnopqrstuvwxyz0123456789+/".toList

def digit (n : Nat) : Char := alphabet.getD n '='

def value (c : Char) : Option Nat := alphabet.findIdx? fun d => d=c

/-- Four characters for three bytes, and padding at the end. -/
def encode : Bytes → List Char
  | a::b::c::rest =>
      digit (a.toNat/4)::digit (a.toNat%4*16+b.toNat/16)::digit (b.toNat%16*4+c.toNat/64)::
        digit (c.toNat%64)::encode rest
  | [a,b] => [digit (a.toNat/4),digit (a.toNat%4*16+b.toNat/16),digit (b.toNat%16*4), '=']
  | [a] => [digit (a.toNat/4),digit (a.toNat%4*16), '=', '=']
  | [] => []

/-- What the characters from a place within a quad on add to the bytes. Characters that are not
in the alphabet are skipped, and a quad that is complete with its padding ends the text. -/
def decodeFrom (pos left pads : Nat) : List Char → Option Bytes
  | [] => if pos=0 then some [] else none
  | c::cs =>
      if c= '=' then
        if 2≤pos then
          if 4≤pos+(pads+1) then some [] else decodeFrom pos left (pads+1) cs
        else decodeFrom pos left pads cs
      else
        match value c with
        | none => decodeFrom pos left pads cs
        | some v =>
            match pos with
            | 0 => decodeFrom 1 v 0 cs
            | 1 => (decodeFrom 2 (v%16) 0 cs).map (UInt8.ofNat (left*4+v/16)::·)
            | 2 => (decodeFrom 3 (v%4) 0 cs).map (UInt8.ofNat (left*16+v/4)::·)
            | _ => (decodeFrom 0 0 0 cs).map (UInt8.ofNat (left*64+v)::·)

def decode (text : List Char) : Option Bytes := decodeFrom 0 0 0 text

section Digits

theorem value_digit {n : Nat} (h : n<64) : value (digit n)=some n ∧ digit n≠ '=' := by
  have all : ∀ n : Fin 64,value (digit n)=some n.val ∧ digit n≠ '=' := by decide +kernel
  exact all ⟨n,h⟩

variable {n left pads : Nat} {cs : List Char}

theorem decodeFrom_digit (h : n<64) (pos : Nat) : decodeFrom pos left pads (digit n::cs)=
    match pos with
    | 0 => decodeFrom 1 n 0 cs
    | 1 => (decodeFrom 2 (n%16) 0 cs).map (UInt8.ofNat (left*4+n/16)::·)
    | 2 => (decodeFrom 3 (n%4) 0 cs).map (UInt8.ofNat (left*16+n/4)::·)
    | _ => (decodeFrom 0 0 0 cs).map (UInt8.ofNat (left*64+n)::·) := by
  obtain ⟨found,apart⟩ := value_digit h
  rw [decodeFrom,if_neg apart,found]

theorem ofNat_of_eq {n : Nat} {b : UInt8} (h : n=b.toNat) : UInt8.ofNat n=b := by
  rw [h]
  exact UInt8.ofNat_toNat

end Digits

/-- Decoding takes encoding back. -/
theorem decode_encode (bs : Bytes) : decode (encode bs)=some bs := by
  unfold decode
  induction bs using encode.induct with
  | case1 a b c rest ih =>
    have ha := a.toNat_lt
    have hb := b.toNat_lt
    have hc := c.toNat_lt
    have first : UInt8.ofNat (a.toNat/4*4+(a.toNat%4*16+b.toNat/16)/16)=a :=
      ofNat_of_eq (by omega)
    have second : UInt8.ofNat
        ((a.toNat%4*16+b.toNat/16)%16*16+(b.toNat%16*4+c.toNat/64)/4)=b :=
      ofNat_of_eq (by omega)
    have third : UInt8.ofNat ((b.toNat%16*4+c.toNat/64)%4*64+c.toNat%64)=c :=
      ofNat_of_eq (by omega)
    rw [encode,decodeFrom_digit (by omega) 0]
    rw [decodeFrom_digit (by omega) 1]
    rw [decodeFrom_digit (by omega) 2]
    rw [decodeFrom_digit (by omega) 3]
    rw [ih,first,second,third]
    rfl
  | case2 a b =>
    have ha := a.toNat_lt
    have hb := b.toNat_lt
    have first : UInt8.ofNat (a.toNat/4*4+(a.toNat%4*16+b.toNat/16)/16)=a :=
      ofNat_of_eq (by omega)
    have second : UInt8.ofNat ((a.toNat%4*16+b.toNat/16)%16*16+b.toNat%16*4/4)=b :=
      ofNat_of_eq (by omega)
    rw [encode,decodeFrom_digit (by omega) 0]
    rw [decodeFrom_digit (by omega) 1]
    rw [decodeFrom_digit (by omega) 2]
    rw [first,second]
    rfl
  | case3 a =>
    have ha := a.toNat_lt
    have first : UInt8.ofNat (a.toNat/4*4+a.toNat%4*16/16)=a := ofNat_of_eq (by omega)
    rw [encode,decodeFrom_digit (by omega) 0]
    rw [decodeFrom_digit (by omega) 1]
    rw [first]
    rfl
  | case4 => rfl

/-- Three bytes for four characters are the most that a text gives. -/
theorem length_decodeFrom {pos left pads : Nat} {cs : List Char} {bs : Bytes} (hp : pos≤3)
    (h : decodeFrom pos left pads cs=some bs) :
    4*bs.length≤3*cs.length+(4-pos)%4 := by
  induction cs generalizing pos left pads bs with
  | nil =>
    unfold decodeFrom at h
    split at h
    · obtain rfl := Option.some.inj h
      simp
    · cases h
  | cons c cs ih =>
    rw [List.length_cons]
    unfold decodeFrom at h
    split_ifs at h with padding late full
    · obtain rfl := Option.some.inj h
      simp
    · have rest := ih hp h
      omega
    · have rest := ih hp h
      omega
    · cases hv : value c with
      | none =>
        rw [hv] at h
        have rest := ih hp h
        omega
      | some v =>
        rw [hv] at h
        obtain rfl|rfl|rfl|rfl : pos=0 ∨ pos=1 ∨ pos=2 ∨ pos=3 := by omega
        · have rest := ih (by omega) h
          omega
        · obtain ⟨tail,ht,rfl⟩ := Option.map_eq_some_iff.mp h
          have rest := ih (by omega) ht
          rw [List.length_cons]
          omega
        · obtain ⟨tail,ht,rfl⟩ := Option.map_eq_some_iff.mp h
          have rest := ih (by omega) ht
          rw [List.length_cons]
          omega
        · obtain ⟨tail,ht,rfl⟩ := Option.map_eq_some_iff.mp h
          have rest := ih (by omega) ht
          rw [List.length_cons]
          omega

theorem length_decode {text : List Char} {bs : Bytes} (h : decode text=some bs) :
    4*bs.length≤3*text.length := by
  have bound := length_decodeFrom (Nat.zero_le 3) h
  omega

theorem length_encode (bs : Bytes) : (encode bs).length=(bs.length+2)/3*4 := by
  induction bs using encode.induct with
  | case1 a b c rest ih =>
    simp only [encode,List.length_cons,ih]
    omega
  | case2 a b => simp [encode]
  | case3 a => simp [encode]
  | case4 => rfl

/-- The characters of an encoded text are digits or padding. -/
theorem mem_encode {bs : Bytes} {c : Char} (h : c∈encode bs) : c∈alphabet ∨ c= '=' := by
  have digits : ∀ n,digit n∈alphabet ∨ digit n= '=' := by
    intro n
    unfold digit
    rw [List.getD_eq_getElem?_getD]
    cases hf : alphabet[n]? with
    | none => exact Or.inr rfl
    | some d => exact Or.inl (List.mem_of_getElem? hf)
  induction bs using encode.induct with
  | case1 a b d rest ih =>
    simp only [encode,List.mem_cons] at h
    obtain rfl|rfl|rfl|rfl|tail := h
    · exact digits _
    · exact digits _
    · exact digits _
    · exact digits _
    · exact ih tail
  | case2 a b =>
    simp only [encode,List.mem_cons,List.not_mem_nil,or_false] at h
    obtain rfl|rfl|rfl|rfl := h
    · exact digits _
    · exact digits _
    · exact digits _
    · exact Or.inr rfl
  | case3 a =>
    simp only [encode,List.mem_cons,List.not_mem_nil,or_false] at h
    obtain rfl|rfl|rfl|rfl := h
    · exact digits _
    · exact digits _
    · exact Or.inr rfl
    · exact Or.inr rfl
  | case4 => cases h

end TruthSeeker.Base64
