import Mathlib.Data.List.Basic

namespace TruthSeeker.BinarySearch

variable {α : Type}

/-- The index at which the search ends, from a window of `size` places at `base`. -/
def window (cmp : α → Ordering) (xs : List α) : Nat → Nat → Nat → Nat
  | 0,base,_ => base
  | fuel+1,base,size =>
      if size≤1 then base else
      let mid := base+size/2
      window cmp xs fuel (if xs[mid]?.map cmp=some .gt then base else mid) (size-size/2)

/-- `binary_search_by`: where an equal element is, or else where to insert one. -/
def binarySearchBy (cmp : α → Ordering) (xs : List α) : Except Nat Nat :=
  let base := window cmp xs xs.length 0 xs.length
  match xs[base]?.map cmp with
  | none => .error 0
  | some .eq => .ok base
  | some .lt => .error (base+1)
  | some .gt => .error base

/-- A new element goes where the search for it ends, unless it is found there. -/
def insertBy (cmp : α → α → Ordering) (xs : List α) (a : α) : List α :=
  match binarySearchBy (fun probe => cmp probe a) xs with
  | .ok _ => xs
  | .error pos => xs.take pos++a::xs.drop pos

/-- Only the last of the elements that are not greater can be anything but less. -/
def Ascends (cmp : α → Ordering) (xs : List α) : Prop :=
  xs.Pairwise fun x y => cmp y≠.gt → cmp x=.lt

section
variable {cmp : α → Ordering} {xs : List α}

theorem Ascends.of_getElem? (h : Ascends cmp xs) {i j : Nat} {x y : α} (hx : xs[i]?=some x)
    (hy : xs[j]?=some y) (hij : i<j) : cmp y≠.gt → cmp x=.lt := by
  obtain ⟨hi,rfl⟩ := List.getElem?_eq_some_iff.mp hx
  obtain ⟨hj,rfl⟩ := List.getElem?_eq_some_iff.mp hy
  exact List.pairwise_iff_getElem.mp h i j hi hj hij

/-- What is before the window is less than sought, and what is after it is greater. -/
def Encloses (cmp : α → Ordering) (xs : List α) (base size : Nat) : Prop :=
  base+size≤xs.length ∧
    ∀ i x,xs[i]?=some x → (i<base → cmp x=.lt) ∧ (base+size≤ i → cmp x=.gt)

/-- Halving the window keeps the place in it. -/
theorem encloses_window (h : Ascends cmp xs) {fuel base size : Nat} (hf : size≤fuel+1)
    (hp : 0<size) (he : Encloses cmp xs base size) :
    Encloses cmp xs (window cmp xs fuel base size) 1 := by
  induction fuel generalizing base size with
  | zero =>
    obtain rfl : size=1 := by omega
    exact he
  | succ fuel ih =>
    unfold window
    by_cases hs : size≤1
    · rw [if_pos hs]
      obtain rfl : size=1 := by omega
      exact he
    · rw [if_neg hs]
      have inside : base+size/2<xs.length := by have := he.1; omega
      have mid : xs[base+size/2]?=some (xs[base+size/2]) := List.getElem?_eq_getElem inside
      dsimp only
      apply ih (by omega) (by omega)
      by_cases hg : cmp (xs[base+size/2])=.gt
      · rw [if_pos (by rw [mid,Option.map_some,hg])]
        refine ⟨by have := he.1; omega,?_⟩
        intro i x hx
        refine ⟨(he.2 i x hx).1,fun hi => ?_⟩
        obtain hlt|rfl := Nat.lt_or_eq_of_le (show base+size/2≤ i by omega)
        · by_contra hn
          have less := h.of_getElem? mid hx hlt hn
          rw [hg] at less
          exact absurd less (by decide)
        · rw [mid] at hx
          obtain rfl := Option.some.inj hx
          exact hg
      · rw [if_neg (by rw [mid,Option.map_some]; exact fun hm => hg (Option.some.inj hm))]
        refine ⟨by have := he.1; omega,?_⟩
        intro i x hx
        refine ⟨fun hi => h.of_getElem? hx mid hi hg,fun hi => (he.2 i x hx).2 (by omega)⟩

theorem ok_binarySearchBy {pos : Nat} (h : binarySearchBy cmp xs=.ok pos) :
    ∃ x ∈ xs,cmp x=.eq := by
  unfold binarySearchBy at h
  dsimp only at h
  cases hx : xs[window cmp xs xs.length 0 xs.length]? with
  | none => simp [hx] at h
  | some x =>
    refine ⟨x,List.mem_of_getElem? hx,?_⟩
    cases hc : cmp x with
    | eq => rfl
    | lt => simp [hx,hc] at h
    | gt => simp [hx,hc] at h

/-- Where the search finds nothing is between what is less and what is greater. -/
theorem error_binarySearchBy (hs : Ascends cmp xs) {pos : Nat}
    (h : binarySearchBy cmp xs=.error pos) :
    ∀ i x,xs[i]?=some x → (i<pos → cmp x=.lt) ∧ (pos≤ i → cmp x=.gt) := by
  by_cases hn : xs=[]
  · subst hn
    simp
  have positive : 0<xs.length := List.length_pos_iff.mpr hn
  have start : Encloses cmp xs 0 xs.length := by
    refine ⟨by omega,fun i x hx => ⟨by omega,fun hi => ?_⟩⟩
    have := (List.getElem?_eq_some_iff.mp hx).1
    omega
  have last := encloses_window hs (Nat.le_succ _) positive start
  unfold binarySearchBy at h
  dsimp only at h
  generalize window cmp xs xs.length 0 xs.length=base at h last
  have within : base<xs.length := last.1
  have inside : xs[base]?=some xs[base] := List.getElem?_eq_getElem _
  rw [inside,Option.map_some] at h
  intro i x hx
  have around := last.2 i x hx
  have here : i=base → cmp x=cmp xs[base] := by
    rintro rfl
    rw [inside] at hx
    rw [Option.some.inj hx]
  cases hc : cmp xs[base] with
  | eq => simp [hc] at h
  | lt =>
    obtain rfl : base+1=pos := by simpa [hc] using h
    refine ⟨fun hi => ?_,around.2⟩
    obtain hlt|heq := Nat.lt_or_eq_of_le (Nat.le_of_lt_succ hi)
    · exact around.1 hlt
    · exact (here heq).trans hc
  | gt =>
    obtain rfl : base=pos := by simpa [hc] using h
    refine ⟨around.1,fun hi => ?_⟩
    obtain hlt|heq := Nat.lt_or_eq_of_le hi
    · exact around.2 hlt
    · exact (here heq.symm).trans hc

end

section Insert
variable {cmp : α → α → Ordering} {xs : List α} {a : α}

theorem mem_insertBy {x : α} (h : x∈insertBy cmp xs a) : x∈xs ∨ x=a := by
  unfold insertBy at h
  cases hb : binarySearchBy (fun probe => cmp probe a) xs with
  | ok pos =>
    simp only [hb] at h
    exact Or.inl h
  | error pos =>
    simp only [hb] at h
    obtain hx|hx := List.mem_append.mp h
    · exact Or.inl (List.mem_of_mem_take hx)
    · obtain rfl|hx := List.mem_cons.mp hx
      · exact Or.inr rfl
      · exact Or.inl (List.mem_of_mem_drop hx)

theorem mem_insertBy_of_mem {x : α} (h : x∈xs) : x∈insertBy cmp xs a := by
  unfold insertBy
  cases hb : binarySearchBy (fun probe => cmp probe a) xs with
  | ok pos => exact h
  | error pos =>
    rw [← List.take_append_drop pos xs] at h
    obtain hx|hx := List.mem_append.mp h
    · exact List.mem_append_left _ hx
    · exact List.mem_append_right _ (List.mem_cons_of_mem a hx)

/-- An element that none equals is inserted. -/
theorem mem_insertBy_self (h : ∀ x∈xs,cmp x a≠.eq) : a∈insertBy cmp xs a := by
  unfold insertBy
  cases hb : binarySearchBy (fun probe => cmp probe a) xs with
  | ok pos =>
    obtain ⟨x,hx,he⟩ := ok_binarySearchBy hb
    exact absurd he (h x hx)
  | error pos => exact List.mem_append_right _ List.mem_cons_self

/-- Insertion keeps a list in strict order. -/
theorem pairwise_insertBy [Std.TransCmp cmp] (hs : xs.Pairwise fun x y => cmp x y=.lt) :
    (insertBy cmp xs a).Pairwise fun x y => cmp x y=.lt := by
  unfold insertBy
  cases hb : binarySearchBy (fun probe => cmp probe a) xs with
  | ok pos => exact hs
  | error pos =>
    have ascends : Ascends (fun probe => cmp probe a) xs := by
      refine hs.imp fun {x y} hxy hy => ?_
      have le : (cmp y a).isLE := by
        cases hc : cmp y a <;> simp_all
      exact Std.TransCmp.lt_of_lt_of_isLE hxy le
    have place := error_binarySearchBy ascends hb
    dsimp only
    refine List.pairwise_append.mpr ⟨hs.sublist (List.take_sublist _ _),?_,?_⟩
    · refine List.pairwise_cons.mpr ⟨?_,hs.sublist (List.drop_sublist _ _)⟩
      intro y hy
      obtain ⟨i,hi⟩ := List.mem_iff_getElem?.mp hy
      rw [List.getElem?_drop] at hi
      have greater := (place _ y hi).2 (Nat.le_add_right _ _)
      exact Std.OrientedCmp.lt_of_gt greater
    · intro x hx y hy
      obtain ⟨i,hi⟩ := List.mem_iff_getElem?.mp hx
      have within : i<pos := by
        have := (List.getElem?_eq_some_iff.mp hi).1
        rw [List.length_take] at this
        omega
      rw [List.getElem?_take_of_lt within] at hi
      have less := (place i x hi).1 within
      obtain rfl|hy := List.mem_cons.mp hy
      · exact less
      · obtain ⟨j,hj⟩ := List.mem_iff_getElem?.mp hy
        rw [List.getElem?_drop] at hj
        have greater := (place _ y hj).2 (Nat.le_add_right _ _)
        exact Std.TransCmp.lt_trans less (Std.OrientedCmp.lt_of_gt greater)

end Insert

end TruthSeeker.BinarySearch
