import Mathlib.Algebra.BigOperators.Group.Finset.Basic
import Mathlib.Data.List.Sort
import Mathlib.Tactic.Abel
import Std.Data.ExtTreeMap

namespace TruthSeeker.Maps

section Entries
variable {κ ν α : Type} [Ord κ] [Std.TransOrd κ]

theorem nodup_map_fst_toList (m : Std.ExtTreeMap κ α) : (m.toList.map Prod.fst).Nodup := by
  rw [Std.ExtTreeMap.map_fst_toList_eq_keys]
  exact Std.ExtTreeMap.nodup_keys

variable [Std.LawfulEqOrd κ] [DecidableEq κ]

/-- Entries in the order of their keys are what a map of them lists. -/
theorem toList_ofList {entries : List (κ × α)}
    (ho : entries.Pairwise fun a b => compare a.1 b.1=.lt) :
    (Std.ExtTreeMap.ofList entries).toList=entries := by
  have distinct : entries.Pairwise fun a b => ¬compare a.1 b.1=.eq :=
    ho.imp fun less same => by rw [less] at same; cases same
  have irrefl : Std.Irrefl fun a b : κ × α => compare a.1 b.1=.lt :=
    ⟨fun a => by rw [Std.ReflOrd.compare_self]; simp⟩
  have antisymm : Std.Antisymm fun a b : κ × α => compare a.1 b.1=.lt := by
    constructor
    intro a b less more
    have same := Std.TransCmp.lt_trans less more
    rw [Std.ReflOrd.compare_self] at same
    cases same
  apply Std.ExtTreeMap.ordered_keys_toList.eq_of_mem_iff ho
  rintro ⟨k,a⟩
  rw [Std.ExtTreeMap.mem_toList_iff_getElem?_eq_some]
  constructor
  · intro found
    have present : k∈Std.ExtTreeMap.ofList entries := by
      rw [Std.ExtTreeMap.mem_iff_isSome_getElem?,found]
      rfl
    obtain ⟨other,ho,rfl⟩ : ∃ entry ∈ entries,entry.1=k := by
      have listed := Std.ExtTreeMap.mem_ofList.mp present
      simpa using listed
    have stored := Std.ExtTreeMap.getElem?_ofList_of_mem Std.ReflOrd.compare_self distinct ho
    rw [stored] at found
    obtain rfl := Option.some.inj found
    exact ho
  · exact Std.ExtTreeMap.getElem?_ofList_of_mem Std.ReflOrd.compare_self distinct

theorem lookup_toList (m : Std.ExtTreeMap κ α) (k : κ) : m.toList.lookup k=m[k]? := by
  cases hl : m.toList.lookup k with
  | none =>
    cases hg : m[k]? with
    | none => rfl
    | some a =>
      have listed := Std.ExtTreeMap.mem_toList_iff_getElem?_eq_some.mpr hg
      have absent := List.lookup_eq_none_iff.mp hl _ listed
      simp at absent
  | some a =>
    obtain ⟨before,after,eq,_⟩ := List.lookup_eq_some_iff.mp hl
    have listed : (k,a)∈m.toList := by
      rw [eq]
      simp
    exact (Std.ExtTreeMap.mem_toList_iff_getElem?_eq_some.mp listed).symm

variable {f : Std.ExtTreeMap κ ν → κ × α → Std.ExtTreeMap κ ν}
  {g : α → Option ν → Option ν}

theorem getElem?_foldl_of_nodup {entries : List (κ × α)} (hd : (entries.map Prod.fst).Nodup)
    (hs : ∀ entry ∈ entries,∀ acc k,(f acc entry)[k]?=
      if entry.1=k then g entry.2 acc[k]? else acc[k]?) (acc : Std.ExtTreeMap κ ν) (k : κ) :
    (entries.foldl f acc)[k]?=(entries.lookup k).elim acc[k]? fun a => g a acc[k]? := by
  induction entries generalizing acc with
  | nil => rfl
  | cons entry entries ih =>
    obtain ⟨fresh,distinct⟩ := List.nodup_cons.mp hd
    have head := hs entry List.mem_cons_self acc k
    rw [List.foldl_cons,ih distinct fun e he => hs e (List.mem_cons_of_mem _ he),
      List.lookup_cons,head]
    by_cases here : entry.1=k
    · subst here
      have none : entries.lookup entry.1=none := by
        rw [List.lookup_eq_none_iff]
        intro other ho
        simp only [bne_iff_ne,ne_eq]
        rintro same
        exact fresh (same ▸ List.mem_map_of_mem ho)
      simp [none]
    · have apart : (k==entry.1)=false := by simpa using Ne.symm here
      rw [apart,if_neg here]

/-- A fold over a map whose steps each touch their own key only. -/
theorem getElem?_foldl_toList {m : Std.ExtTreeMap κ α}
    (hs : ∀ entry ∈ m.toList,∀ acc k,(f acc entry)[k]?=
      if entry.1=k then g entry.2 acc[k]? else acc[k]?) (acc : Std.ExtTreeMap κ ν) (k : κ) :
    (m.toList.foldl f acc)[k]?=m[k]?.elim acc[k]? fun a => g a acc[k]? := by
  rw [getElem?_foldl_of_nodup (nodup_map_fst_toList m) hs,lookup_toList]

end Entries

section Sums
variable {κ ν M : Type} [Ord κ] [Std.TransOrd κ] [AddCommMonoid M] (f : ν → M)

/-- The sum of a quantity over the values of a map. -/
def total (m : Std.ExtTreeMap κ ν) : M := (m.toList.map fun p => f p.2).sum

@[simp] theorem total_empty : total f (∅ : Std.ExtTreeMap κ ν)=0 := by
  have none : (∅ : Std.ExtTreeMap κ ν).toList=[] := by
    rw [← List.isEmpty_iff,Std.ExtTreeMap.isEmpty_toList]
    exact Std.ExtTreeMap.isEmpty_empty
  rw [total,none]
  rfl

variable [Std.LawfulEqOrd κ] [DecidableEq κ]

theorem toList_insert_perm (m : Std.ExtTreeMap κ ν) (k : κ) (v : ν) :
    (m.insert k v).toList.Perm ((k,v)::m.toList.filter fun p => p.1≠k) := by
  have distinct {m : Std.ExtTreeMap κ ν} : m.toList.Nodup :=
    List.Nodup.of_map Prod.fst (nodup_map_fst_toList m)
  have fresh : ((k,v)::m.toList.filter fun p => p.1≠k).Nodup := by
    rw [List.nodup_cons]
    refine ⟨?_,distinct.filter _⟩
    simp
  rw [List.perm_ext_iff_of_nodup distinct fresh]
  intro p
  rw [Std.ExtTreeMap.mem_toList_iff_getElem?_eq_some,Std.ExtTreeMap.getElem?_insert,
    List.mem_cons,List.mem_filter,Std.ExtTreeMap.mem_toList_iff_getElem?_eq_some]
  by_cases here : p.1=k
  · subst here
    simp [Prod.ext_iff,eq_comm]
  · have apart : p≠(k,v) := fun same => here (congrArg Prod.fst same)
    simp [here,apart,Ne.symm here]

/-- Writing a key changes the sum by the new value less the one it replaces. -/
theorem total_insert (m : Std.ExtTreeMap κ ν) (k : κ) (v : ν) :
    total f (m.insert k v)+(m[k]?.elim 0 f)=total f m+f v := by
  have written := (toList_insert_perm m k v).map fun p => f p.2
  have others : total f m=(m[k]?.elim 0 f)+((m.toList.filter fun p => p.1≠k).map
      fun p => f p.2).sum := by
    cases found : m[k]? with
    | none =>
      have kept : (m.toList.filter fun p => p.1≠k)=m.toList := by
        rw [List.filter_eq_self]
        rintro ⟨key,value⟩ listed
        rw [Std.ExtTreeMap.mem_toList_iff_getElem?_eq_some] at listed
        have apart : key≠k := by
          rintro rfl
          rw [found] at listed
          cases listed
        simpa using apart
      rw [kept]
      simp [total]
    | some old =>
      have same : m.insert k old=m := by
        ext1 key
        rw [Std.ExtTreeMap.getElem?_insert]
        split_ifs with here
        · rw [← Std.LawfulEqOrd.compare_eq_iff_eq.mp here,found]
        · rfl
      have whole := ((toList_insert_perm m k old).map fun p => f p.2).sum_eq
      rw [same] at whole
      simpa [total] using whole
  rw [others,total,written.sum_eq,List.map_cons,List.sum_cons]
  abel

/-- Removing a key takes its value out of the sum. -/
theorem total_erase (m : Std.ExtTreeMap κ ν) (k : κ) :
    total f (m.erase k)+(m[k]?.elim 0 f)=total f m := by
  have gone : (m.erase k)[k]?=none := by simp
  cases found : m[k]? with
  | none =>
    have same : m.erase k=m := by
      ext1 key
      rw [Std.ExtTreeMap.getElem?_erase]
      split_ifs with here
      · rw [← Std.LawfulEqOrd.compare_eq_iff_eq.mp here,found]
      · rfl
    rw [same]
    exact add_zero _
  | some v =>
    have same : (m.erase k).insert k v=m := by
      ext1 key
      rw [Std.ExtTreeMap.getElem?_insert,Std.ExtTreeMap.getElem?_erase]
      split_ifs with here
      · rw [← Std.LawfulEqOrd.compare_eq_iff_eq.mp here,found]
      · rfl
    have written := total_insert f (m.erase k) k v
    rw [same,gone] at written
    show total f (m.erase k)+f v=total f m
    rw [← written]
    exact add_zero _

/-- The keys of a map. -/
def keys (m : Std.ExtTreeMap κ ν) : Finset κ := (m.toList.map Prod.fst).toFinset

theorem mem_keys {m : Std.ExtTreeMap κ ν} {k : κ} : k∈keys m ↔ m.contains k=true := by
  rw [keys,List.mem_toFinset,List.mem_map,Std.ExtTreeMap.contains_eq_isSome_getElem?,
    Option.isSome_iff_exists]
  constructor
  · intro ⟨p,hp,same⟩
    rw [← same]
    exact ⟨p.2,Std.ExtTreeMap.mem_toList_iff_getElem?_eq_some.mp hp⟩
  · intro ⟨v,hv⟩
    exact ⟨(k,v),Std.ExtTreeMap.mem_toList_iff_getElem?_eq_some.mpr hv,rfl⟩

/-- The sum over the values is one over the keys, and over any more. -/
theorem total_eq_sum {m : Std.ExtTreeMap κ ν} {S : Finset κ} (h : keys m⊆S) :
    total f m=∑ k ∈ S,m[k]?.elim 0 f := by
  have none : ∀ k ∈ S,k∉keys m → m[k]?.elim 0 f=0 := by
    intro k _ hk
    rw [mem_keys,Std.ExtTreeMap.contains_eq_isSome_getElem?,Option.not_isSome_iff_eq_none] at hk
    rw [hk]
    rfl
  rw [← Finset.sum_subset h none,keys,List.sum_toFinset _ (nodup_map_fst_toList m),total,
    List.map_map]
  congr 1
  apply List.map_congr_left
  intro p hp
  have value := Std.ExtTreeMap.mem_toList_iff_getElem?_eq_some.mp hp
  simp [value]

end Sums

end TruthSeeker.Maps
