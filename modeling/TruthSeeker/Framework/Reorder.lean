import Mathlib.Data.Set.Insert
import Mathlib.Data.List.Basic

namespace TruthSeeker.Reorder

section Ascending
variable {α : Type} {key : α → Nat}

/-- A set kept as a list in the order of the keys: an element with a known key is left out. -/
def insertKeep (key : α → Nat) (a : α) : List α → List α
  | [] => [a]
  | b::bs =>
      if key a<key b then a::b::bs else if key a=key b then b::bs else b::insertKeep key a bs

/-- A map kept as a list in the order of the keys: an element takes the place of another one with
its key. -/
def insertReplace (key : α → Nat) (a : α) : List α → List α
  | [] => [a]
  | b::bs =>
      if key a<key b then a::b::bs else if key a=key b then a::bs else b::insertReplace key a bs

def Ascending (key : α → Nat) (as : List α) : Prop := as.Pairwise fun a b => key a<key b

theorem mem_insertKeep {a b : α} {as : List α} (h : b∈insertKeep key a as) : b=a ∨ b∈as := by
  induction as with
  | nil => simpa [insertKeep] using h
  | cons c cs ih =>
    unfold insertKeep at h
    split_ifs at h
    · simpa using h
    · exact Or.inr h
    · obtain rfl|tail := List.mem_cons.mp h
      · simp
      · have := ih tail
        simp only [List.mem_cons]
        tauto

theorem mem_insertReplace {a b : α} {as : List α} (h : b∈insertReplace key a as) :
    b=a ∨ b∈as := by
  induction as with
  | nil => simpa [insertReplace] using h
  | cons c cs ih =>
    unfold insertReplace at h
    split_ifs at h
    · simpa using h
    · obtain rfl|tail := List.mem_cons.mp h <;> simp_all
    · obtain rfl|tail := List.mem_cons.mp h
      · simp
      · have := ih tail
        simp only [List.mem_cons]
        tauto

/-- Both insertions change the keys in the same way. -/
theorem map_insertKeep (a : α) (as : List α) :
    (insertKeep key a as).map key=insertKeep id (key a) (as.map key) := by
  induction as with
  | nil => rfl
  | cons b bs ih =>
    simp only [insertKeep,List.map_cons,id]
    split_ifs
    · rfl
    · rfl
    · rw [List.map_cons,ih]

theorem map_insertReplace (a : α) (as : List α) :
    (insertReplace key a as).map key=insertKeep id (key a) (as.map key) := by
  induction as with
  | nil => rfl
  | cons b bs ih =>
    simp only [insertReplace,insertKeep,List.map_cons,id]
    split_ifs with _ same
    · rfl
    · rw [List.map_cons,same]
    · rw [List.map_cons,ih]

theorem ascending_iff_map {as : List α} : Ascending key as ↔ Ascending id (as.map key) := by
  simp [Ascending,List.pairwise_map]

theorem mem_insertKeep_id {m n : Nat} {ns : List Nat} : m∈insertKeep id n ns ↔ m=n ∨ m∈ns := by
  induction ns with
  | nil => simp [insertKeep]
  | cons k ks ih =>
    simp only [insertKeep,id]
    split_ifs with _ same
    · simp
    · simp [same]
    · simp only [List.mem_cons,ih]
      tauto

theorem ascending_insertKeep_id {n : Nat} {ns : List Nat} (h : Ascending id ns) :
    Ascending id (insertKeep id n ns) := by
  induction ns with
  | nil => simp [insertKeep,Ascending]
  | cons k ks ih =>
    obtain ⟨head,tail⟩ := List.pairwise_cons.mp h
    simp only [insertKeep,id]
    split_ifs with less same
    · refine List.pairwise_cons.mpr ⟨?_,h⟩
      intro m hm
      obtain rfl|later := List.mem_cons.mp hm
      · exact less
      · exact less.trans (head m later)
    · exact h
    · refine List.pairwise_cons.mpr ⟨?_,ih tail⟩
      intro m hm
      obtain rfl|earlier := mem_insertKeep_id.mp hm
      · simp only [id]
        omega
      · exact head m earlier

end Ascending

/-- The number of positions that were let through, and those that wait for an earlier one. -/
structure Buffer where
  next : Nat
  waiting : List Nat
  deriving DecidableEq

def empty : Buffer := ⟨0,[]⟩

/-- Lets through what waits for nothing else. -/
def drain : Nat → List Nat → Buffer
  | next,[] => ⟨next,[]⟩
  | next,n::ns => if n=next then drain (next+1) ns else ⟨next,n::ns⟩

def Buffer.arrive (self : Buffer) (n : Nat) : Buffer :=
  if n<self.next then self
  else if n=self.next then drain (n+1) self.waiting
  else ⟨self.next,insertKeep id n self.waiting⟩

theorem drain_of_early {next : Nat} {ns : List Nat} (h : ∀ n ∈ ns,next<n) :
    drain next ns=⟨next,ns⟩ := by
  cases ns with
  | nil => rfl
  | cons n ns =>
    have front := h n List.mem_cons_self
    rw [drain,if_neg front.ne']

theorem Buffer.arrive_past {b : Buffer} {n : Nat} (h : n<b.next) : b.arrive n=b := if_pos h

theorem Buffer.arrive_next {b : Buffer} {n : Nat} (h : n=b.next) :
    b.arrive n=drain (n+1) b.waiting := by
  rw [arrive,if_neg (not_lt.mpr h.ge),if_pos h]

theorem Buffer.arrive_early {b : Buffer} {n : Nat} (h : b.next<n) :
    b.arrive n=⟨b.next,insertKeep id n b.waiting⟩ := by
  rw [arrive,if_neg (not_lt.mpr h.le),if_neg h.ne']

/-- The positions before the first one that is missing were let through, the later ones wait. -/
structure Buffer.Holds (b : Buffer) (arrived : Set Nat) : Prop where
  passed : ∀ n < b.next,n∈arrived
  missing : b.next∉arrived
  waits : ∀ n,n∈b.waiting ↔ n∈arrived ∧ b.next<n
  ascending : Ascending id b.waiting

theorem holds_empty : empty.Holds ∅ where
  passed _ h := absurd h (Nat.not_lt_zero _)
  missing h := h
  waits _ := by simp [empty]
  ascending := List.Pairwise.nil

theorem holds_drain {next : Nat} {waiting : List Nat} {arrived : Set Nat}
    (hp : ∀ n < next,n∈arrived) (hw : ∀ n,n∈waiting ↔ n∈arrived ∧ next≤n)
    (ha : Ascending id waiting) : (drain next waiting).Holds arrived := by
  induction waiting generalizing next with
  | nil =>
    have missing : next∉arrived := fun h => List.not_mem_nil ((hw next).mpr ⟨h,le_refl _⟩)
    refine ⟨hp,missing,fun n => ?_,List.Pairwise.nil⟩
    rw [drain,hw]
    constructor
    · intro ⟨here,le⟩
      refine ⟨here,lt_of_le_of_ne le ?_⟩
      rintro rfl
      exact missing here
    · exact fun ⟨here,less⟩ => ⟨here,less.le⟩
  | cons m ms ih =>
    obtain ⟨head,tail⟩ := List.pairwise_cons.mp ha
    simp only [drain]
    split_ifs with same
    · subst same
      have here : m∈arrived := ((hw m).mp List.mem_cons_self).1
      apply ih
      · intro n hn
        obtain rfl|less := Nat.lt_succ_iff_lt_or_eq.mp hn |>.symm
        · exact here
        · exact hp n less
      · intro n
        have listed := hw n
        have later : n∈ms → m<n := head n
        rw [List.mem_cons] at listed
        constructor
        · exact fun hn => ⟨(listed.mp (Or.inr hn)).1,later hn⟩
        · rintro ⟨hn,less⟩
          obtain rfl|rest := listed.mpr ⟨hn,by omega⟩
          · omega
          · exact rest
      · exact tail
    · have front : next< m := by
        have := ((hw m).mp List.mem_cons_self).2
        omega
      have later : ∀ n,n∈m::ms → next<n := by
        intro n hn
        obtain rfl|rest := List.mem_cons.mp hn
        · exact front
        · exact front.trans (head n rest)
      refine ⟨hp,fun h => ?_,fun n => ?_,ha⟩
      · exact lt_irrefl _ (later next ((hw next).mpr ⟨h,le_refl _⟩))
      · exact ⟨fun hn => ⟨((hw n).mp hn).1,later n hn⟩,fun hn => (hw n).mpr ⟨hn.1,hn.2.le⟩⟩

theorem Buffer.Holds.arrive {b : Buffer} {arrived : Set Nat} (h : b.Holds arrived) (n : Nat) :
    (b.arrive n).Holds (insert n arrived) := by
  obtain past|here|later := lt_trichotomy n b.next
  · rw [Buffer.arrive_past past]
    have known : insert n arrived=arrived := Set.insert_eq_of_mem (h.passed n past)
    rwa [known]
  · rw [Buffer.arrive_next here]
    subst here
    apply holds_drain
    · intro m hm
      obtain rfl|less := Nat.lt_succ_iff_lt_or_eq.mp hm |>.symm
      · exact Set.mem_insert _ _
      · exact Set.mem_insert_of_mem _ (h.passed m less)
    · intro m
      rw [h.waits,Set.mem_insert_iff]
      constructor
      · exact fun ⟨hm,less⟩ => ⟨Or.inr hm,less⟩
      · rintro ⟨rfl|hm,less⟩
        · omega
        · exact ⟨hm,less⟩
    · exact h.ascending
  · rw [Buffer.arrive_early later]
    refine ⟨fun m hm => Set.mem_insert_of_mem _ (h.passed m hm),?_,fun m => ?_,
      ascending_insertKeep_id h.ascending⟩
    · rintro (same|known)
      · exact absurd same later.ne
      · exact h.missing known
    · rw [mem_insertKeep_id,h.waits,Set.mem_insert_iff]
      constructor
      · rintro (rfl|⟨hm,less⟩)
        · exact ⟨Or.inl rfl,later⟩
        · exact ⟨Or.inr hm,less⟩
      · rintro ⟨rfl|hm,less⟩
        · exact Or.inl rfl
        · exact Or.inr ⟨hm,less⟩

/-- Once all positions below a bound have arrived, in whatever order and however often, and no
other ones, all of them were let through and nothing waits. -/
theorem Buffer.Holds.complete {b : Buffer} {n : Nat} (h : b.Holds {m | m<n}) :
    b=⟨n,[]⟩ := by
  have bound : b.next=n := by
    have missing : ¬b.next<n := h.missing
    by_contra other
    exact lt_irrefl n (h.passed n (by omega))
  have none : b.waiting=[] := by
    rw [List.eq_nil_iff_forall_not_mem]
    intro m hm
    obtain ⟨here,later⟩ := (h.waits m).mp hm
    have : m<n := here
    omega
  cases b
  simp_all

end TruthSeeker.Reorder
