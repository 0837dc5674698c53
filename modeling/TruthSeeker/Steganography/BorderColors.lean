import Mathlib.Tactic.FieldSimp
import Mathlib.Tactic.Linarith
import Mathlib.Tactic.NormNum
import TruthSeeker.Steganography.CornerText

namespace TruthSeeker.Steganography

variable {lib : Libraries} {hue s v : Rat}

section Hues

theorem floor_eq {x : Rat} {n : Int} (hl : (n : Rat)≤x) (hu : x<(n : Rat)+1) : x.floor=n := by
  have low := Rat.le_floor_iff.mpr hl
  have high : x.floor<n+1 := Rat.floor_lt_iff.mpr (by push_cast; exact hu)
  omega

/-- A channel that fits in a byte is its truncated number. -/
theorem toNat_channel {x : Rat} (hl : 0≤x) (hu : x*255<256) :
    ((UInt8.ofNat (x*255).floor.toNat).toNat : Int)=(x*255).floor := by
  have low : 0≤(x*255).floor := Rat.le_floor_iff.mpr (by push_cast; linarith)
  have high : (x*255).floor<256 := Rat.floor_lt_iff.mpr (by push_cast; exact hu)
  rw [UInt8.toNat_ofNat']
  omega

/-- The decoder compares the truncated red and blue, as long as the blue leaves room for the
margin. -/
theorem isOneBit_bitColor {r g b : Rat} (hh : 0≤hue) (hh' : hue<1)
    (color : hsvToRgb hue s v=(r,g,b)) (hr : 0≤ r) (hr' : r*255<256) (hb : 0≤b)
    (hb' : b*255<236) : isOneBit lib (bitColor hue s v)=true ↔
      (b*255).floor+20<(r*255).floor := by
  have turn : hue.floor=0 := floor_eq (by simpa using hh) (by simpa using hh')
  have red := toNat_channel hr hr'
  have blue := toNat_channel hb (by linarith)
  have room : (b*255).floor<236 := Rat.floor_lt_iff.mpr (by push_cast; exact hb')
  have same : bitColor hue s v=⟨UInt8.ofNat (b*255).floor.toNat,UInt8.ofNat (g*255).floor.toNat,
      UInt8.ofNat (r*255).floor.toNat⟩ := by
    rw [bitColor,turn]
    simp only [Int.cast_zero,sub_zero,color]
  rw [same,isOneBit]
  cases lib.wraps with
  | false =>
    simp only [Bool.false_eq_true,if_false,decide_eq_true_eq]
    omega
  | true =>
    have sum : (UInt8.ofNat (b*255).floor.toNat+20).toNat=
        ((UInt8.ofNat (b*255).floor.toNat).toNat+20)%256 := UInt8.toNat_add _ _
    simp only [if_true,decide_eq_true_eq,sum]
    omega

/-- The color in the sextant `n`, a fraction `f` into it. -/
theorem hsvToRgb_sextant {n : Int} {f : Rat} (hs : s≠0) (h : hue*6=n+f) (hf : 0≤f) (hf' : f<1) :
    hsvToRgb hue s v=
      if n%6=0 then (v,v*(1-s*(1-f)),v*(1-s)) else if n%6=1 then (v*(1-s*f),v,v*(1-s))
      else if n%6=2 then (v*(1-s),v,v*(1-s*(1-f))) else if n%6=3 then (v*(1-s),v*(1-s*f),v)
      else if n%6=4 then (v*(1-s*(1-f)),v*(1-s),v) else (v,v*(1-s),v*(1-s*f)) := by
  have floor : (hue*6).floor=n := floor_eq (by linarith) (by linarith)
  rw [hsvToRgb,if_neg hs,floor,h]
  have rest : (n : Rat)+f-n=f := by ring
  simp only [rest]

end Hues

section Frames
variable {i total : Nat}

/-- The shift of a frame is its part of the video, and less than the whole. -/
theorem hueShift_eq (h : i<total) :
    0≤(i : Rat)/total ∧ (i : Rat)/total<1 ∧ hueShift i total=(i : Rat)/total*(3/10) := by
  have some : (0 : Rat)<total := by exact_mod_cast (by omega : 0<total)
  have less : (i : Rat)<total := by exact_mod_cast h
  exact ⟨by positivity,(div_lt_one some).mpr less,rfl⟩

theorem isOneBit_zeroColor {part : Rat} (hl : 0≤part) (hu : part<1) :
    isOneBit lib (bitColor (6/10+part*(3/10)) (7/10) (4/10))=true ↔ 2999/3213<part := by
  have low : 0≤6/10+part*(3/10) := by linarith
  have high : 6/10+part*(3/10)<1 := by linarith
  have chroma : (7/10 : Rat)≠0 := by norm_num
  have full : ((4/10 : Rat)*255).floor=102 := by decide +kernel
  obtain blue|rest := lt_or_ge part (2/9)
  · have color := hsvToRgb_sextant (v := 4/10) chroma
      (by push_cast; ring : (6/10+part*(3/10))*6=((3 : Int) : Rat)+(part*(9/5)+3/5))
      (by linarith) (by linarith)
    rw [isOneBit_bitColor low high color (by norm_num) (by norm_num) (by norm_num)
      (by norm_num),full]
    have red : ((4/10 : Rat)*(1-7/10)*255).floor=30 := by decide +kernel
    rw [red]
    constructor
    · intro more
      omega
    · intro late
      linarith
  · obtain violet|late := lt_or_ge part (7/9)
    · have color := hsvToRgb_sextant (v := 4/10) chroma
        (by push_cast; ring : (6/10+part*(3/10))*6=((4 : Int) : Rat)+(part*(9/5)-2/5))
        (by linarith) (by linarith)
      rw [isOneBit_bitColor low high color (by linarith) (by linarith) (by norm_num)
        (by norm_num),full]
      have red : ((4/10 : Rat)*(1-7/10*(1-(part*(9/5)-2/5)))*255).floor<103 :=
        Rat.floor_lt_iff.mpr (by push_cast; linarith)
      constructor
      · intro more
        omega
      · intro late
        linarith
    · have color := hsvToRgb_sextant (v := 4/10) chroma
        (by push_cast; ring : (6/10+part*(3/10))*6=((5 : Int) : Rat)+(part*(9/5)-7/5))
        (by linarith) (by linarith)
      rw [isOneBit_bitColor low high color (by norm_num) (by norm_num) (by linarith)
        (by linarith),full]
      have blue : ((4/10 : Rat)*(1-7/10*(part*(9/5)-7/5))*255).floor<82 ↔ 2999/3213<part := by
        rw [Rat.floor_lt_iff]
        push_cast
        constructor <;> intro h <;> linarith
      rw [← blue]
      omega

theorem isOneBit_oneColor {part : Rat} (hl : 0≤part) (hu : part<1) :
    isOneBit lib (bitColor (5/100+part*(3/10)) (9/10) (7/10))=true ↔ part≤50591/57834 := by
  have low : 0≤5/100+part*(3/10) := by linarith
  have high : 5/100+part*(3/10)<1 := by linarith
  have chroma : (9/10 : Rat)≠0 := by norm_num
  have least : ((7/10 : Rat)*(1-9/10)*255).floor=17 := by decide +kernel
  obtain red|rest := lt_or_ge part (7/18)
  · have color := hsvToRgb_sextant (v := 7/10) chroma
      (by push_cast; ring : (5/100+part*(3/10))*6=((0 : Int) : Rat)+(part*(9/5)+3/10))
      (by linarith) (by linarith)
    rw [isOneBit_bitColor low high color (by norm_num) (by norm_num) (by norm_num)
      (by norm_num),least]
    have full : ((7/10 : Rat)*255).floor=178 := by decide +kernel
    rw [full]
    constructor
    · intro more
      linarith
    · intro early
      omega
  · obtain yellow|late := lt_or_ge part (17/18)
    · have color := hsvToRgb_sextant (v := 7/10) chroma
        (by push_cast; ring : (5/100+part*(3/10))*6=((1 : Int) : Rat)+(part*(9/5)-7/10))
        (by linarith) (by linarith)
      rw [isOneBit_bitColor low high color (by linarith) (by linarith) (by norm_num)
        (by norm_num),least]
      have fading : 38≤((7/10 : Rat)*(1-9/10*(part*(9/5)-7/10))*255).floor ↔
          part≤50591/57834 := by
        rw [Rat.le_floor_iff]
        push_cast
        constructor <;> intro h <;> linarith
      rw [← fading]
      omega
    · have color := hsvToRgb_sextant (v := 7/10) chroma
        (by push_cast; ring : (5/100+part*(3/10))*6=((2 : Int) : Rat)+(part*(9/5)-17/10))
        (by linarith) (by linarith)
      rw [isOneBit_bitColor low high color (by norm_num) (by norm_num) (by linarith)
        (by linarith),least]
      have blue : 0≤((7/10 : Rat)*(1-9/10*(1-(part*(9/5)-17/10)))*255).floor :=
        Rat.le_floor_iff.mpr (by push_cast; linarith)
      constructor
      · intro more
        omega
      · intro early
        linarith

/-- Whether the color of a bit has not yet left the hues that the decoder knows: the bit 1 turns
green after about 87 percent of the video, and the bit 0 purple after about 93 percent. -/
def InHue (bit : Bool) (frameIndex totalFrames : Nat) : Prop :=
  if bit then 57834*frameIndex≤50591*totalFrames else 3213*frameIndex≤2999*totalFrames

instance (bit : Bool) (frameIndex totalFrames : Nat) :
    Decidable (InHue bit frameIndex totalFrames) :=
  inferInstanceAs (Decidable (if bit then _ else _))

/-- The decoder reads the color of a bit as that bit if and only if the frame comes before the
one where the color leaves its hues. -/
theorem isOneBit_drawn (lib : Libraries) (bit : Bool) (frameIndex totalFrames : Nat)
    (h : frameIndex<totalFrames) :
    isOneBit lib (if bit then oneColor frameIndex totalFrames
        else zeroColor frameIndex totalFrames)=bit ↔ InHue bit frameIndex totalFrames := by
  obtain ⟨low,high,shift⟩ := hueShift_eq h
  have frames : (0 : Rat)<totalFrames := by exact_mod_cast (by omega : 0<totalFrames)
  unfold InHue
  cases bit with
  | true =>
    simp only [if_true]
    rw [oneColor,shift,isOneBit_oneColor low high,div_le_iff₀ frames,
      ← Nat.cast_le (α := Rat)]
    push_cast
    constructor <;> intro early <;> linarith
  | false =>
    simp only [Bool.false_eq_true,if_false]
    have early : ¬isOneBit lib (zeroColor frameIndex totalFrames)=true ↔
        3213*frameIndex≤2999*totalFrames := by
      rw [zeroColor,shift,isOneBit_zeroColor low high,lt_div_iff₀ frames,not_lt,
        ← Nat.cast_le (α := Rat)]
      push_cast
      constructor <;> intro early <;> linarith
    rw [← early,Bool.not_eq_true]

/-- The frame 8 of 10 is the last that reads a bit 1. -/
theorem isOneBit_drawn_ten :
    isOneBit Greeting.libraries (oneColor 8 10)=true ∧
      isOneBit Greeting.libraries (oneColor 9 10)=false := by
  have early := (isOneBit_drawn Greeting.libraries true 8 10 (by decide)).mpr (by decide)
  have late := isOneBit_drawn Greeting.libraries true 9 10 (by decide)
  simp only [if_true] at early late
  refine ⟨early,?_⟩
  rw [← Bool.not_eq_true,late]
  decide

/-- A bit 0 in the last of 16 frames is read as a bit 1. -/
theorem not_isOneBit_drawn : ¬∀ (totalFrames frameIndex : Nat) (bit : Bool),
    0<totalFrames → frameIndex<totalFrames →
      isOneBit Greeting.libraries (if bit then oneColor frameIndex totalFrames
        else zeroColor frameIndex totalFrames)=bit := by
  intro h
  have zero := h 16 15 false (by decide) (by decide)
  have wrong : isOneBit Greeting.libraries (zeroColor 15 16)=true := by decide +kernel
  cases zero.symm.trans wrong

end Frames

end TruthSeeker.Steganography
