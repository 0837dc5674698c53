import Mathlib.Data.Nat.Log
import Mathlib.Data.Rat.Floor
import Mathlib.Tactic.FieldSimp
import Mathlib.Tactic.Linarith
import Mathlib.Tactic.LinearCombination
import Mathlib.Tactic.Positivity
import TruthSeeker.Steganography.HiddenText

namespace TruthSeeker.Steganography

section Rounding

/-- A double that is not negative. -/
def IsDouble (x : ℚ) : Prop := ∃ (m : ℕ) (e : ℤ),m≤2^53 ∧ -1074≤e ∧ x=m*2^e

/-- No double is closer to the quotient. -/
def IsRounded (q x : ℚ) : Prop := IsDouble x ∧ ∀ y,IsDouble y → |x-q|≤|y-q|

theorem isDouble_natCast {n : ℕ} (h : n≤2^53) : IsDouble n := ⟨n,0,h,by norm_num,by simp⟩

/-- The double after a positive integer. -/
theorem exists_next_isDouble {k : ℕ} (hk : 0<k) (hb : k<2^53) :
    ∃ gap : ℚ,IsDouble (k+gap) ∧ 0<gap ∧ 2^52*gap≤k := by
  obtain ⟨e,he⟩ : ∃ e,Nat.log 2 k=e := ⟨_,rfl⟩
  have low : 2^e≤k := he ▸ Nat.pow_log_le_self 2 hk.ne'
  have high : k<2^(e+1) := he ▸ Nat.lt_pow_succ_log_self (by norm_num) k
  have small : e<53 := by
    by_contra large
    have power : 2^53≤2^e := Nat.pow_le_pow_right (by norm_num) (by omega)
    omega
  have scale : (2 : ℚ)^((e : ℤ)-52)*2^(52-e)=1 := by
    rw [← zpow_natCast,← zpow_add₀ (by norm_num)]
    push_cast [Nat.cast_sub (show e≤52 by omega)]
    norm_num
  have value : (2 : ℚ)^52*2^((e : ℤ)-52)=2^e := by
    rw [← zpow_natCast,← zpow_natCast,← zpow_add₀ (by norm_num)]
    congr 1
    push_cast
    omega
  refine ⟨2^((e : ℤ)-52),⟨k*2^(52-e)+1,(e : ℤ)-52,?_,by omega,?_⟩,zpow_pos (by norm_num) _,?_⟩
  · have bits : 2^(e+1)*2^(52-e)=2^53 := by
      rw [← pow_add]
      congr 1
      omega
    have below : k*2^(52-e)<2^(e+1)*2^(52-e) :=
      Nat.mul_lt_mul_of_pos_right high (by positivity)
    omega
  · push_cast
    linear_combination -(k : ℚ)*scale
  · rw [value]
    exact_mod_cast low

/-- The length of a part comes from a quotient of doubles. For texts of up to 2^53 characters it
has the ceiling of the exact quotient, unless it is rounded down to zero. -/
theorem ceil_isRounded {length count : ℕ} {x : ℚ} (hl : 0<length) (hb : length≤2^53)
    (hc : 0<count) (hx : IsRounded (length/count) x) (hz : x≠0) :
    ⌈x⌉=((length+count-1)/count : ℕ) := by
  obtain ⟨⟨m,e,hm,he,hv⟩,nearest⟩ := hx
  obtain ⟨k,hk⟩ : ∃ k,(length+count-1)/count=k+1 := by
    refine ⟨(length+count-1)/count-1,?_⟩
    have := Nat.div_pos (show count≤length+count-1 by omega) hc
    omega
  have above := Nat.lt_div_mul_add hc (a := length+count-1)
  have below := Nat.div_mul_le_self (length+count-1) count
  rw [hk] at above below
  rw [hk]
  rw [Nat.succ_mul] at below
  have beyond : k*count<length := by omega
  have under : length≤(k+1)*count := by omega
  have positive : (0 : ℚ)<count := by exact_mod_cast hc
  have quotient : (length : ℚ)/count≤k+1 := by
    rw [div_le_iff₀ positive]
    exact_mod_cast under
  have excess : (k : ℚ)+1/count≤length/count := by
    rw [← sub_nonneg]
    have integral : (k : ℚ)*count+1≤length := by exact_mod_cast beyond
    have same : (length : ℚ)/count-(k+1/count)=(length-(k*count+1))/count := by
      field_simp
    rw [same]
    exact div_nonneg (by linarith) positive.le
  have unit : (0 : ℚ)<1/count := by positivity
  have bounded : k<2^53 := by
    have factor := Nat.le_mul_of_pos_right k hc
    omega
  have least : x≤k+1 := by
    by_contra larger
    push Not at larger
    have closer := nearest (k+1) (by exact_mod_cast isDouble_natCast (show k+1≤2^53 by omega))
    rw [abs_of_pos (by linarith),abs_of_nonneg (by linarith)] at closer
    linarith
  have most : (k : ℚ)<x := by
    by_contra smaller
    push Not at smaller
    obtain rfl|some_k := Nat.eq_zero_or_pos k
    · have nonneg : 0≤x := by
        rw [hv]
        exact mul_nonneg (Nat.cast_nonneg m) (zpow_nonneg (by norm_num) e)
      exact hz (le_antisymm (by simpa using smaller) nonneg)
    obtain ⟨gap,double,wide,fits⟩ := exists_next_isDouble some_k bounded
    have closer := nearest (k+gap) double
    rw [abs_of_neg (by linarith)] at closer
    -- The quotient would be in the lower half of the gap, and the text too long.
    have half : 2*(1/(count : ℚ))≤gap := by
      obtain inside|outside := le_total (length/count : ℚ) (k+gap)
      · rw [abs_of_nonneg (by linarith)] at closer
        linarith
      · rw [abs_of_nonpos (by linarith)] at closer
        linarith
    have long : (2 : ℚ)^53≤k*count := by
      have scaled : 2*(1/(count : ℚ))*count=2 := by field_simp
      have product : 2≤gap*count := by
        rw [← scaled]
        exact mul_le_mul_of_nonneg_right half positive.le
      nlinarith
    have natural : 2^53≤k*count := by exact_mod_cast long
    omega
  rw [Int.ceil_eq_iff]
  push_cast
  constructor
  · linarith
  · exact least

end Rounding

section Loop

/-- The parts are full and the rest is shorter. -/
structure SplitState.Regular (perC : Nat) (self : SplitState) (text : List Char) : Prop where
  joined : self.splitList.flatten++self.outStr=text
  count : self.cCout=self.outStr.length
  short : self.cCout<perC
  full : ∀ part ∈ self.splitList,part.length=perC

theorem regular_splitStep {perC : Nat} {state : SplitState} {text : List Char}
    (h : state.Regular perC text) (s : Char) :
    (splitStep perC state s).Regular perC (text++[s]) := by
  obtain ⟨joined,count,short,full⟩ := h
  unfold splitStep
  dsimp only
  split
  · next complete =>
    refine ⟨?_,rfl,?_,?_⟩
    · simp [← joined]
    · show 0<perC
      omega
    · intro part hp
      obtain old|new := List.mem_append.mp hp
      · exact full part old
      · obtain rfl := List.mem_singleton.mp new
        rw [List.length_append,List.length_singleton]
        omega
  · next incomplete =>
    refine ⟨?_,?_,?_,full⟩
    · simp [← joined]
    · rw [List.length_append,List.length_singleton]
      show state.cCout+1=_
      omega
    · show state.cCout+1<perC
      omega

theorem regular_foldl {perC : Nat} {state : SplitState} {text more : List Char}
    (h : state.Regular perC text) :
    (more.foldl (splitStep perC) state).Regular perC (text++more) := by
  induction more generalizing state text with
  | nil => simpa using h
  | cons s more ih =>
    have next := ih (regular_splitStep h s)
    rwa [List.append_assoc] at next

theorem length_flatten_of_full {perC : Nat} {parts : List (List Char)}
    (h : ∀ part ∈ parts,part.length=perC) : parts.flatten.length=perC*parts.length := by
  induction parts with
  | nil => rfl
  | cons part parts ih =>
    have rest := ih fun other ho => h other (List.mem_cons_of_mem _ ho)
    rw [List.flatten_cons,List.length_append,rest,h part List.mem_cons_self,List.length_cons]
    ring

/-- The loop over the characters of a text. -/
theorem regular_text {perC : Nat} (hp : 0<perC) (sStr : List Char) :
    (sStr.foldl (splitStep perC) ⟨[],[],0⟩).Regular perC sStr := by
  have start : SplitState.Regular perC ⟨[],[],0⟩ [] := ⟨rfl,rfl,hp,by simp⟩
  exact regular_foldl start

end Loop

/-- The parts of a text are the text, at most as many as asked for, and none of them is empty. -/
theorem splitString_partitions {sStr : List Char} {count : Nat} (hs : sStr≠[]) (hc : 0<count) :
    (splitString sStr count).flatten=sStr ∧ (splitString sStr count).length ≤ count ∧
      ∀ part ∈ splitString sStr count,part≠[] := by
  have some_chars := List.length_pos_iff.mpr hs
  unfold splitString
  dsimp only
  generalize hp : (sStr.length+count-1)/count=perC
  have whole : sStr.length≤perC*count := by
    have division := Nat.lt_div_mul_add hc (a := sStr.length+count-1)
    rw [hp] at division
    omega
  have positive : 0<perC := by
    rw [← hp]
    exact Nat.div_pos (by omega) hc
  obtain ⟨joined,counted,short,full⟩ := regular_text positive sStr
  generalize sStr.foldl (splitStep perC) ⟨[],[],0⟩=state at joined counted short full ⊢
  have total := congrArg List.length joined
  rw [List.length_append,length_flatten_of_full full] at total
  have nonempty : ∀ part ∈ state.splitList,part≠[] := by
    intro part hm none
    have length := full part hm
    rw [none] at length
    exact absurd length positive.ne
  split_ifs with rest
  · refine ⟨by simpa using joined,?_,?_⟩
    · rw [List.length_append,List.length_singleton,Nat.succ_le_iff]
      have less : perC*state.splitList.length<perC*count := by omega
      exact Nat.lt_of_mul_lt_mul_left less
    · intro part hm
      obtain old|new := List.mem_append.mp hm
      · exact nonempty part old
      · obtain rfl := List.mem_singleton.mp new
        intro none
        rw [none] at counted
        exact rest counted
  · have done : state.outStr=[] := List.eq_nil_of_length_eq_zero (by omega)
    rw [done,List.append_nil] at joined
    refine ⟨joined,?_,nonempty⟩
    have least : perC*state.splitList.length≤perC*count := by omega
    exact Nat.le_of_mul_le_mul_left least positive

/-- Eleven characters in ten parts: six of them, two characters each but for the last. -/
theorem splitString_partitions_eleven :
    ("hello world".toList≠[] ∧ 0<10) ∧
      (splitString "hello world".toList 10).flatten="hello world".toList ∧
      (splitString "hello world".toList 10).length≤10 ∧
      ∀ part ∈ splitString "hello world".toList 10,part≠[] :=
  ⟨by decide,splitString_partitions (by decide) (by decide)⟩

end TruthSeeker.Steganography
