import TruthSeeker.Steganography.BorderColors

namespace TruthSeeker.Steganography

section Shifted
variable {k : Nat}

theorem byteOfBits_append (bits rest : List Bool) :
    byteOfBits (bits++rest)=byteOfBits bits*2^rest.length+byteOfBits rest := by
  induction rest using List.reverseRecOn with
  | nil => simp [byteOfBits]
  | append_singleton rest bit ih =>
    have last : ∀ some : List Bool,byteOfBits (some++[bit])=2*byteOfBits some+bit.toNat := by
      intro some
      rw [byteOfBits,List.foldl_append]
      rfl
    rw [← List.append_assoc,last,last,ih,List.length_append,List.length_singleton,pow_succ]
    ring

theorem byteOfBits_lt (bits : List Bool) : byteOfBits bits<2^bits.length := by
  induction bits with
  | nil => decide
  | cons bit bits ih =>
    have split := byteOfBits_append [bit] bits
    have first : byteOfBits [bit]≤1 := by cases bit <;> decide
    rw [List.singleton_append] at split
    rw [split,List.length_cons,pow_succ]
    nlinarith [Nat.mul_le_mul_right (2^bits.length) first]

/-- The first digits are the quotient, and the others the rest. -/
theorem byteOfBits_split (k : Nat) (byte : UInt8) :
    byteOfBits ((bitsOfByte byte).take k)=byte.toNat/2^(8-k) ∧
      byteOfBits ((bitsOfByte byte).drop k)=byte.toNat%2^(8-k) := by
  have whole := byteOfBits_append ((bitsOfByte byte).take k) ((bitsOfByte byte).drop k)
  have less := byteOfBits_lt ((bitsOfByte byte).drop k)
  rw [List.take_append_drop,byteOfBits_bitsOfByte] at whole
  rw [List.length_drop,length_bitsOfByte] at whole less
  have positive : 0<2^(8-k) := Nat.two_pow_pos _
  rw [whole,Nat.mul_add_mod_self_right,Nat.mod_eq_of_lt less,Nat.add_comm,
    Nat.add_mul_div_right _ _ positive,Nat.div_eq_of_lt less,Nat.zero_add]
  exact ⟨rfl,rfl⟩

/-- The byte across two bytes, which leaves out the first digits of the one and has the first
digits of the other. -/
def straddle (k : Nat) (byte next : UInt8) : Nat :=
  byteOfBits ((bitsOfByte byte).drop k++(bitsOfByte next).take k)

theorem straddle_eq (h : k≤8) (byte next : UInt8) :
    straddle k byte next=byte.toNat%2^(8-k)*2^k+next.toNat/2^(8-k) := by
  have length : ((bitsOfByte next).take k).length=k := by
    rw [List.length_take,length_bitsOfByte]
    omega
  rw [straddle,byteOfBits_append,(byteOfBits_split k byte).2,(byteOfBits_split k next).1,
    length]

theorem bytesOfBits_byte {bits : List Bool} (h : bits.length=8) (rest : List Bool) :
    bytesOfBits (bits++rest)=byteOfBits bits::bytesOfBits rest := by
  match bits with
  | [_,_,_,_,_,_,_,_] => rfl

/-- The bytes from the middle of a byte on. -/
theorem bytesOfBits_drop (h : k≤8) (byte last : UInt8) (bytes : Bytes) :
    bytesOfBits ((bitsOfByte byte).drop k++(bytes.flatMap bitsOfByte++
        (bitsOfByte last).take k))=
      List.zipWith (straddle k) (byte::bytes) (bytes++[last]) := by
  have size : ∀ next : UInt8,((bitsOfByte byte).drop k++(bitsOfByte next).take k).length=8 := by
    intro next
    rw [List.length_append,List.length_drop,List.length_take,length_bitsOfByte,
      length_bitsOfByte]
    omega
  induction bytes generalizing byte with
  | nil =>
    have single := bytesOfBits_byte (size last) []
    rw [List.append_nil] at single
    exact single
  | cons next bytes ih =>
    have digits : bitsOfByte next=(bitsOfByte next).take k++(bitsOfByte next).drop k :=
      (List.take_append_drop k _).symm
    have rest := ih next fun other => by
      simp only [List.length_append,List.length_drop,List.length_take,length_bitsOfByte]
      omega
    rw [List.flatMap_cons]
    nth_rewrite 1 [digits]
    rw [List.append_assoc,List.append_assoc,← List.append_assoc,
      bytesOfBits_byte (size next),rest]
    rfl

/-- A rotation by whole bytes rotates the bytes. -/
theorem rotate_flatMap (n : Nat) (bytes : Bytes) :
    (bytes.flatMap bitsOfByte).rotate (8*n)=(bytes.rotate n).flatMap bitsOfByte := by
  induction n generalizing bytes with
  | zero => simp
  | succ n ih =>
    cases bytes with
    | nil => simp
    | cons byte bytes =>
      have turn : (bitsOfByte byte++bytes.flatMap bitsOfByte).rotate 8=
          (bytes++[byte]).flatMap bitsOfByte := by
        rw [List.flatMap_append,List.flatMap_singleton]
        exact List.rotate_append_length_eq (bitsOfByte byte) _
      rw [List.rotate_cons_succ,← ih,List.flatMap_cons,Nat.mul_succ,Nat.add_comm,
        ← List.rotate_rotate,turn]

/-- A rotation by a part of a byte gives the bytes across the bytes. -/
theorem bytesOfBits_rotate (h : k≤8) (bytes : Bytes) :
    bytesOfBits ((bytes.flatMap bitsOfByte).rotate k)=
      List.zipWith (straddle k) bytes (bytes.rotate 1) := by
  cases bytes with
  | nil => simp [bytesOfBits]
  | cons byte bytes =>
    have long : k≤(bitsOfByte byte++bytes.flatMap bitsOfByte).length := by
      rw [List.length_append,length_bitsOfByte]
      omega
    rw [List.flatMap_cons,List.rotate_eq_drop_append_take long,
      List.drop_append_of_le_length (by rw [length_bitsOfByte]; exact h),
      List.take_append_of_le_length (by rw [length_bitsOfByte]; exact h),List.append_assoc,
      bytesOfBits_drop h,List.rotate_cons_succ,List.rotate_zero]

end Shifted

section Characters
variable {text : String}

/-- The characters that the first `n` bytes of the bits are decoded to. -/
def leadingChars (n : Nat) (bits : List Bool) : List Char :=
  ((bytesOfBits (bits.take (8*n))).filter fun byte => Printable byte).map Char.ofNat

/-- They start the text that the bits are decoded to. -/
theorem leadingChars_prefix {n : Nat} {bits : List Bool} (h : 8*n≤bits.length) :
    leadingChars n bits<+:(binaryToText bits).toList := by
  have length : (bits.take (8*n)).length=8*n := by
    rw [List.length_take]
    omega
  unfold binaryToText
  split
  · next short =>
    obtain rfl : n=0 := by omega
    simp [leadingChars,bytesOfBits]
  · rw [String.toList_ofList]
    generalize List.replicate _ false=padding
    have split : bits++padding=bits.take (8*n)++(bits.drop (8*n)++padding) := by
      rw [← List.append_assoc,List.take_append_drop]
    rw [split,bytesOfBits_append length,List.filter_append,List.map_append]
    exact List.prefix_append _ _

/-- Whether one of the characters of a text has the number. -/
def HasChar (text : String) (n : Nat) : Prop := ∃ c ∈ text.toList,c.toNat=n

/-- The characters are a rotation of a text of as many only if all bytes are among the
characters of the text. -/
theorem hasChar_of_isRotated {values : List Nat}
    (h : ((values.filter fun byte => Printable byte).map Char.ofNat).IsRotated text.toList)
    (hl : values.length=text.length) : ∀ value ∈ values,HasChar text value := by
  have lengths := h.perm.length_eq
  rw [List.length_map,String.length_toList,← hl] at lengths
  have all := List.length_filter_eq_length_iff.mp lengths
  intro value hv
  have printable : Printable value := of_decide_eq_true (all value hv)
  refine ⟨Char.ofNat value,?_,toNat_ofNat_of_printable printable⟩
  rw [← h.perm.mem_iff]
  apply List.mem_map_of_mem
  exact List.mem_filter.mpr ⟨hv,decide_eq_true printable⟩

theorem hasChar_toNat (hp : ∀ c ∈ text.toList,Printable c.toNat) {n : Nat} :
    HasChar text n ↔ ∃ byte ∈ utf8 text,byte.toNat=n := by
  have listed : n∈(utf8 text).map UInt8.toNat ↔ n∈text.toList.map Char.toNat := by
    rw [toNat_utf8 hp]
  rw [List.mem_map,List.mem_map] at listed
  exact listed.symm

end Characters

section Alignment
variable {P : Nat → Prop}

/-- No printable characters are their own digits from the sixth one on. -/
theorem not_straddle_five (hp : ∀ x,P x → Printable x)
    (next : ∀ x,P x → ∃ y,P y ∧ P (x%8*32+y/8))
    (prev : ∀ y,P y → ∃ x,P x ∧ P (x%8*32+y/8)) (x : Nat) : ¬P x := by
  have low : ∀ x,P x → x%8<4 := by
    intro x hx
    obtain ⟨y,_,hv⟩ := next x hx
    have bound := (hp _ hv).2
    omega
  have upper : ∀ y,P y → 64≤y ∧ y<96 := by
    intro y hy
    obtain ⟨x,_,hv⟩ := prev y hy
    have digits := low _ hv
    have printable := hp y hy
    unfold Printable at printable
    omega
  have two : ∀ x,P x → x%8=2 := by
    intro x hx
    obtain ⟨y,hy,hv⟩ := next x hx
    have range := upper y hy
    have value := upper _ hv
    omega
  have ten : ∀ y,P y → y/8=10 := by
    intro y hy
    obtain ⟨x,_,hv⟩ := prev y hy
    have range := upper y hy
    have digits := two _ hv
    omega
  intro hx
  obtain ⟨y,hy,hv⟩ := next x hx
  have digits := two x hx
  have tail := ten y hy
  have value := ten _ hv
  omega

/-- The only printable character that is its own digits from the third one on is `U`. -/
theorem straddle_two (hp : ∀ x,P x → Printable x)
    (next : ∀ x,P x → ∃ y,P y ∧ P (x%64*4+y/64)) (x : Nat) (hx : P x) : x=85 := by
  have upper : ∀ x,P x → 64≤x ∧ x<96 := by
    intro x hx
    obtain ⟨y,_,hv⟩ := next x hx
    have bound := (hp _ hv).2
    have printable := hp x hx
    unfold Printable at printable
    omega
  have narrow : ∀ x,P x → 80≤x ∧ x<88 := by
    intro x hx
    obtain ⟨y,hy,hv⟩ := next x hx
    have range := upper x hx
    have last := upper y hy
    have value := upper _ hv
    omega
  have narrower : ∀ x,P x → x=84 ∨ x=85 := by
    intro x hx
    obtain ⟨y,hy,hv⟩ := next x hx
    have range := narrow x hx
    have last := narrow y hy
    have value := narrow _ hv
    omega
  obtain ⟨y,hy,hv⟩ := next x hx
  have range := narrower x hx
  have last := narrower y hy
  have value := narrower _ hv
  omega

end Alignment

section Rotations
variable {text : String}

/-- Each byte starts one of the bytes across the bytes, and ends another one. -/
theorem exists_mem_zipWith {α β : Type} (f : α → α → β) (bytes : List α) (n : Nat) {byte : α}
    (hb : byte∈bytes) :
    (∃ next ∈ bytes,f byte next∈List.zipWith f bytes (bytes.rotate n)) ∧
      ∃ prev ∈ bytes,f prev byte∈List.zipWith f bytes (bytes.rotate n) := by
  have length : (List.zipWith f bytes (bytes.rotate n)).length=bytes.length := by simp
  constructor
  · obtain ⟨j,hj,rfl⟩ := List.getElem_of_mem hb
    have inside : j<(bytes.rotate n).length := by rwa [List.length_rotate]
    refine ⟨(bytes.rotate n)[j],List.mem_rotate.mp (List.getElem_mem inside),?_⟩
    have value := List.getElem_mem (by omega : j<(List.zipWith f bytes (bytes.rotate n)).length)
    rwa [List.getElem_zipWith] at value
  · obtain ⟨j,hj,rfl⟩ := List.getElem_of_mem ((@List.mem_rotate _ bytes byte n).mpr hb)
    have inside : j<bytes.length := by rwa [List.length_rotate] at hj
    refine ⟨bytes[j],List.getElem_mem inside,?_⟩
    have value := List.getElem_mem (by omega : j<(List.zipWith f bytes (bytes.rotate n)).length)
    rwa [List.getElem_zipWith] at value

/-- The characters of the bits of a text from the digit `start` on. -/
def rotatedChars (text : String) (start : Nat) : List Char :=
  ((bytesOfBits ((textToBinary text).rotate start)).filter fun byte => Printable byte).map
    Char.ofNat

theorem rotatedChars_eq (k a : Nat) (h : k≤8) :
    rotatedChars text (8*a+k)=((List.zipWith (straddle k) ((utf8 text).rotate a)
      (((utf8 text).rotate a).rotate 1)).filter fun byte => Printable byte).map Char.ofNat := by
  rw [rotatedChars,← List.rotate_rotate,textToBinary,rotate_flatMap,bytesOfBits_rotate h]

/-- The digits from the first one of a byte on are those of a rotation. -/
theorem isRotated_rotatedChars (hp : ∀ c ∈ text.toList,Printable c.toNat) (a : Nat) :
    (rotatedChars text (8*a)).IsRotated text.toList := by
  have whole : rotatedChars text (8*a)=text.toList.rotate a := by
    rw [rotatedChars,textToBinary,rotate_flatMap,bytesOfBits_flatMap,List.map_rotate,
      toNat_utf8 hp,← List.map_rotate]
    exact map_ofNat_toNat fun c hc => hp c (List.mem_rotate.mp hc)
  rw [whole]
  exact List.IsRotated.forall _ _

/-- If the digits from inside a byte on are those of a rotation, the bytes across the bytes are
among the characters. -/
theorem hasChar_straddle (hp : ∀ c ∈ text.toList,Printable c.toNat) {k a : Nat} (h : k≤8)
    (hr : (rotatedChars text (8*a+k)).IsRotated text.toList) (x : Nat) (hx : HasChar text x) :
    (∃ y,HasChar text y ∧ HasChar text (x%2^(8-k)*2^k+y/2^(8-k))) ∧
      ∃ y,HasChar text y ∧ HasChar text (y%2^(8-k)*2^k+x/2^(8-k)) := by
  let bytes := (utf8 text).rotate a
  have char : ∀ byte ∈ bytes,HasChar text byte.toNat := by
    intro byte hb
    exact (hasChar_toNat hp).mpr ⟨byte,List.mem_rotate.mp hb,rfl⟩
  obtain ⟨byte,hb,rfl⟩ := (hasChar_toNat hp).mp hx
  have length : (List.zipWith (straddle k) bytes (bytes.rotate 1)).length=text.length := by
    simp [bytes,length_utf8 hp]
  rw [rotatedChars_eq k a h] at hr
  have values := hasChar_of_isRotated hr length
  obtain ⟨⟨next,hn,first⟩,prev,hv,second⟩ :=
    exists_mem_zipWith (straddle k) bytes 1 (List.mem_rotate.mpr hb)
  constructor
  · refine ⟨next.toNat,char next hn,?_⟩
    rw [← straddle_eq h]
    exact values _ first
  · refine ⟨prev.toNat,char prev hv,?_⟩
    rw [← straddle_eq h]
    exact values _ second

/-- A text of the letter `U` only stays the same under a rotation by two digits. -/
theorem rotatedChars_two (hp : ∀ c ∈ text.toList,Printable c.toNat)
    (hu : ∀ c ∈ text.toList,c= 'U') (a : Nat) : rotatedChars text (8*a+2)=text.toList := by
  have bytes : utf8 text=List.replicate text.length 85 := by
    rw [← length_utf8 hp]
    apply List.eq_replicate_of_mem
    intro byte hb
    obtain ⟨c,hc,same⟩ := (hasChar_toNat hp).mpr ⟨byte,hb,rfl⟩
    rw [hu c hc] at same
    exact UInt8.toNat_inj.mp same.symm
  have chars : text.toList=List.replicate text.length 'U' := by
    rw [← String.length_toList]
    exact List.eq_replicate_of_mem hu
  have across : straddle 2 85 85= 'U'.toNat := by decide
  rw [rotatedChars_eq 2 a (by decide),bytes,List.rotate_replicate,List.rotate_replicate,
    List.zipWith_replicate',across,← List.map_replicate,← chars]
  exact map_ofNat_toNat hp

/-- The digits that a frame starts with are those of a rotation if and only if a third of the
digits that were drawn before is a number of whole bytes, or the text has the same digits after
the first two of a byte. -/
theorem isRotated_rotatedChars_iff (hp : ∀ c ∈ text.toList,Printable c.toNat) (hn : text≠"")
    (i : Nat) : (rotatedChars text (i*(8*text.length)/3)).IsRotated text.toList ↔
      3∣text.length*i ∨ text.length*i%3=1 ∧ ∀ c ∈ text.toList,c= 'U' := by
  have printable : ∀ x,HasChar text x → Printable x := by
    intro x hx
    obtain ⟨c,hc,rfl⟩ := hx
    exact hp c hc
  have product : i*(8*text.length)=8*(text.length*i) := by ring
  rw [product]
  generalize text.length*i=m
  have thirds : m%3=0 ∨ m%3=1 ∨ m%3=2 := by omega
  obtain none|one|two := thirds
  · have start : 8*m/3=8*(m/3) := by omega
    rw [start]
    constructor
    · intro _
      exact Or.inl (Nat.dvd_of_mod_eq_zero none)
    · intro _
      exact isRotated_rotatedChars hp _
  · have start : 8*m/3=8*(m/3)+2 := by omega
    rw [start]
    constructor
    · intro hr
      refine Or.inr ⟨one,?_⟩
      intro c hc
      have code := straddle_two printable
        (fun x hx => (hasChar_straddle hp (by decide) hr x hx).1) c.toNat ⟨c,hc,rfl⟩
      rw [← Char.ofNat_toNat c,code]
    · intro h
      obtain divides|⟨_,hu⟩ := h
      · omega
      · rw [rotatedChars_two hp hu]
  · have start : 8*m/3=8*(m/3)+5 := by omega
    rw [start]
    constructor
    · intro hr
      have straddled := hasChar_straddle hp (by decide) hr
      obtain ⟨c,hc⟩ := List.exists_mem_of_ne_nil text.toList fun none =>
        hn (String.toList_inj.mp (by simpa using none))
      have absurd := not_straddle_five printable (fun x hx => (straddled x hx).1)
        (fun x hx => (straddled x hx).2) c.toNat
      exact (absurd ⟨c,hc,rfl⟩).elim
    · intro h
      obtain divides|⟨other,_⟩ := h
      · omega
      · omega

section Corner
variable {lib : Libraries} {frame next : Frame} {i borderWidth : Nat}

theorem frameData_rotated (hp : ∀ c ∈ text.toList,Printable c.toNat)
    (hl : 8*text.length≤(2*(frame.width+frame.height)-4*borderWidth)/2) :
    frameData frame (textToBinary text) i borderWidth=
        (textToBinary text).rotate (i*(8*text.length)/3) ∧
      (frameData frame (textToBinary text) i borderWidth).length=8*text.length := by
  have length : (textToBinary text).length=8*text.length := by
    rw [length_textToBinary,length_utf8 hp]
  have rotated := @frameData_eq_rotate frame (textToBinary text) i borderWidth
    (by rw [length]; exact hl)
  rw [rotated,List.length_rotate,length]
  exact ⟨rfl,rfl⟩

/-- A corner that shows the bits of a frame with room for all says the digits that it starts
with. -/
theorem leadingChars_eq (hp : ∀ c ∈ text.toList,Printable c.toNat)
    (hl : 8*text.length≤(2*(frame.width+frame.height)-4*borderWidth)/2)
    (hr : frameData frame (textToBinary text) i borderWidth<+:
      cornerBits lib (borderWidth*2) next) :
    leadingChars text.length (cornerBits lib (borderWidth*2) next)=
      rotatedChars text (i*(8*text.length)/3) := by
  obtain ⟨rotated,length⟩ := @frameData_rotated text frame i borderWidth hp hl
  have drawn := List.prefix_iff_eq_take.mp hr
  rw [length,rotated] at drawn
  rw [leadingChars,← drawn]
  rfl

/-- These characters start what the decoder says. -/
theorem leadingChars_decoded (hp : ∀ c ∈ text.toList,Printable c.toNat)
    (hl : 8*text.length≤(2*(frame.width+frame.height)-4*borderWidth)/2)
    (hr : frameData frame (textToBinary text) i borderWidth<+:
      cornerBits lib (borderWidth*2) next) (decoded : String)
    (hd : decodeBorderData lib next borderWidth=some decoded) :
    leadingChars text.length (cornerBits lib (borderWidth*2) next)<+:decoded.toList := by
  obtain ⟨_,length⟩ := @frameData_rotated text frame i borderWidth hp hl
  unfold decodeBorderData at hd
  split at hd
  · cases hd
  · obtain rfl := Option.some.inj hd
    apply leadingChars_prefix
    rw [← length]
    exact hr.length_le

end Corner

/-- The decoder reads the first bytes of a corner that shows the bits of a frame with room for
all. It reads them as a rotation of the text if and only if the frame starts with a whole byte,
or the text repeats the letter `U` and the frame starts with the third digit of a byte. -/
theorem leadingChars_isRotated_iff (lib : Libraries) (frame next : Frame) (data : String)
    (frameIndex totalFrames borderWidth : Nat) (hp : ∀ c ∈ data.toList,Printable c.toNat)
    (hc : createDataBorder lib frame data frameIndex totalFrames borderWidth=some next)
    (hl : 8*data.length≤(2*(frame.width+frame.height)-4*borderWidth)/2)
    (hr : frameData frame (textToBinary data) frameIndex borderWidth<+:
      cornerBits lib (borderWidth*2) next) :
    (∀ text,decodeBorderData lib next borderWidth=some text →
        leadingChars data.length (cornerBits lib (borderWidth*2) next)<+:text.toList) ∧
      ((leadingChars data.length (cornerBits lib (borderWidth*2) next)).IsRotated data.toList ↔
        3∣data.length*frameIndex ∨
          data.length*frameIndex%3=1 ∧ ∀ c ∈ data.toList,c= 'U') := by
  have filled : data≠"" := by
    rintro rfl
    unfold createDataBorder at hc
    rw [if_pos (by decide)] at hc
    cases hc
  refine ⟨leadingChars_decoded hp hl hr,?_⟩
  rw [leadingChars_eq hp hl hr]
  exact isRotated_rotatedChars_iff hp filled frameIndex

end Rotations

namespace Greeting

/-- The second of two black frames is bordered with a text, and its corner shows it. -/
theorem exists_bordered {data : String} (hs : (textToBinary data).length≤120)
    (hn : textToBinary data≠[]) : ∃ next,createDataBorder libraries black data 1 2 20=some next ∧
      frameData black (textToBinary data) 1 20<+:cornerBits libraries 40 next := by
  obtain ⟨next,created,drawn⟩ := @exists_createDataBorder libraries black data local_libraries
    (by decide) (by decide) (by omega) hn 1 2
  have known : ∀ bit : Bool,InHue bit 1 2 := by decide
  obtain ⟨_,_,corner⟩ := drawn fun bit =>
    (isOneBit_drawn libraries bit 1 2 (by decide)).mpr (known bit)
  refine ⟨next,created,?_⟩
  rw [corner]
  exact List.prefix_append _ _

end Greeting

open Greeting in
theorem leadingChars_isRotated_three : ∃ next,
    createDataBorder libraries black "abc" 1 2 20=some next ∧
      (leadingChars 3 (cornerBits libraries 40 next)).IsRotated "abc".toList := by
  obtain ⟨next,created,drawn⟩ := @exists_bordered "abc" (by decide +kernel) (by decide +kernel)
  have printable : ("abc".toList.all fun c => Printable c.toNat)=true := by decide
  refine ⟨next,created,?_⟩
  exact (leadingChars_isRotated_iff libraries black next "abc" 1 2 20
    (fun c hc => of_decide_eq_true (List.all_eq_true.mp printable c hc)) created (by decide)
      drawn).2.mpr (Or.inl (by decide))

open Greeting in
/-- The second frame of a marked text starts with the sixth digit of a byte. -/
theorem not_leadingChars_isRotated : ¬∀ next,
    createDataBorder libraries black "STEGO:hi" 1 2 20=some next →
      frameData black (textToBinary "STEGO:hi") 1 20<+:cornerBits libraries 40 next →
        (leadingChars 8 (cornerBits libraries 40 next)).IsRotated "STEGO:hi".toList := by
  intro h
  obtain ⟨next,created,drawn⟩ :=
    @exists_bordered "STEGO:hi" (by decide +kernel) (by decide +kernel)
  have rotated := h next created drawn
  have printable : ("STEGO:hi".toList.all fun c => Printable c.toNat)=true := by decide
  have ascii : ∀ c ∈ "STEGO:hi".toList,Printable c.toNat := fun c hc =>
    of_decide_eq_true (List.all_eq_true.mp printable c hc)
  have corner := @leadingChars_eq "STEGO:hi" libraries black next 1 20 ascii (by decide) drawn
  have eight : "STEGO:hi".length=8 := by decide
  rw [eight] at corner
  rw [corner] at rotated
  obtain thirds|⟨first,_⟩ := (isRotated_rotatedChars_iff ascii (by decide) 1).mp rotated
  · exact absurd thirds (by decide)
  · exact absurd first (by decide)

end TruthSeeker.Steganography
