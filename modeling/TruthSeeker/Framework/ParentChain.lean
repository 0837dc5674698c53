import Mathlib.Logic.Relation
import TruthSeeker.Framework.ParentWalk

namespace TruthSeeker.ParentWalk

variable {α β κ ν : Type}

section Linked
variable (key : α → κ) (parent : α → Option κ)

/-- A chain that starts after one key and ends with another. Each element has the one before it
as its parent. -/
def Linked : Option κ → List α → Option κ → Prop
  | start,[],last => start=last
  | start,a::as,last => parent a=start ∧ Linked (some (key a)) as last

variable {key parent} {start middle last : Option κ} {as bs : List α}

theorem Linked.append (h : Linked key parent start as middle)
    (h' : Linked key parent middle bs last) : Linked key parent start (as++bs) last := by
  induction as generalizing start with
  | nil =>
    obtain rfl : start=middle := h
    exact h'
  | cons a as ih => exact ⟨h.1,ih h.2⟩

theorem Linked.map {key' : β → κ} {parent' : β → Option κ} {f : α → β}
    (h : Linked key parent start as last)
    (hf : ∀ a ∈ as,key' (f a)=key a ∧ parent' (f a)=parent a) :
    Linked key' parent' start (as.map f) last := by
  induction as generalizing start with
  | nil => exact h
  | cons a as ih =>
    obtain ⟨hk,hp⟩ := hf a List.mem_cons_self
    refine ⟨hp.trans h.1,?_⟩
    rw [hk]
    exact ih h.2 fun b hb => hf b (List.mem_cons_of_mem _ hb)

theorem Linked.parent_head (h : Linked key parent start as last) {a : α} (ha : as[0]?=some a) :
    parent a=start := by
  cases as with
  | nil => simp at ha
  | cons b bs =>
    obtain rfl := Option.some.inj ha
    exact h.1

theorem Linked.parent_succ (h : Linked key parent start as last) {i : Nat} {a b : α}
    (ha : as[i]?=some a) (hb : as[i+1]?=some b) : parent b=some (key a) := by
  induction as generalizing start i with
  | nil => simp at ha
  | cons c cs ih =>
    cases i with
    | zero =>
      obtain rfl := Option.some.inj ha
      exact h.2.parent_head hb
    | succ i => exact ih h.2 ha hb

/-- From its first element on, a chain meets no key twice, if the parents only depend on the
keys. -/
theorem Linked.nodup (h : Linked key parent none as last)
    (hp : ∀ a ∈ as,∀ b ∈ as,key a=key b → parent a=parent b) : (as.map key).Nodup := by
  have apart : ∀ (i j : Nat) (a b : α),i<j → as[i]?=some a → as[j]?=some b → key a≠key b := by
    intro i
    induction i with
    | zero =>
      intro j a b hij ha hb same
      obtain ⟨j,rfl⟩ : ∃ k,j=k+1 := ⟨j-1,by omega⟩
      have hj : j<as.length := by have := (List.getElem?_eq_some_iff.mp hb).1; omega
      have parents := hp a (List.mem_of_getElem? ha) b (List.mem_of_getElem? hb) same
      rw [h.parent_head ha,h.parent_succ (List.getElem?_eq_getElem hj) hb] at parents
      simp at parents
    | succ i ih =>
      intro j a b hij ha hb same
      obtain ⟨j,rfl⟩ : ∃ k,j=k+1 := ⟨j-1,by omega⟩
      have hi : i<as.length := by have := (List.getElem?_eq_some_iff.mp ha).1; omega
      have hj : j<as.length := by have := (List.getElem?_eq_some_iff.mp hb).1; omega
      have parents := hp a (List.mem_of_getElem? ha) b (List.mem_of_getElem? hb) same
      rw [h.parent_succ (List.getElem?_eq_getElem hi) ha,
        h.parent_succ (List.getElem?_eq_getElem hj) hb] at parents
      exact ih j _ _ (by omega) (List.getElem?_eq_getElem hi) (List.getElem?_eq_getElem hj)
        (Option.some.inj parents)
  refine List.pairwise_iff_getElem.mpr ?_
  intro i j hi hj hij
  rw [List.getElem_map,List.getElem_map]
  rw [List.length_map] at hi hj
  exact apart i j _ _ hij (List.getElem?_eq_getElem hi) (List.getElem?_eq_getElem hj)

end Linked

section Walks
variable {lookup : κ → Option ν} {parent : ν → Option κ} {stop : κ → Prop} {k : κ} {w : Walk κ ν}

/-- Turned around, a walk that lacks nothing is a chain. It starts from the beginning, or after
the key at which the walk stopped. -/
theorem Walks.linked (h : Walks lookup parent stop k w) (hm : w.missing=none) :
    ∃ start,Linked Prod.fst (fun e => parent e.2) start w.entries.reverse (some k) ∧
      ∀ p,start=some p → stop p := by
  induction h with
  | @stopped k hs =>
    refine ⟨some k,rfl,?_⟩
    intro p hp
    obtain rfl := Option.some.inj hp
    exact hs
  | missing => simp at hm
  | root hs hl hp => exact ⟨none,⟨hp,rfl⟩,by simp⟩
  | @link k p v w hs hl hp hw ih =>
    obtain ⟨start,linked,stops⟩ := ih hm
    refine ⟨start,?_,stops⟩
    rw [List.reverse_cons]
    exact linked.append ⟨hp,rfl⟩

/-- A walk to a key that the parents lead to stops there. -/
theorem Walks.linked_of_reaches {last : κ} {R : κ → κ → Prop}
    (h : Walks lookup parent stop k w) (hm : w.missing=none) (hs : ∀ p,stop p ↔ p=last)
    (hR : ∀ k p v,R k p → lookup k=some v → parent v=some p)
    (hr : Relation.ReflTransGen R k last) :
    Linked Prod.fst (fun e => parent e.2) (some last) w.entries.reverse (some k) := by
  induction h with
  | stopped hk =>
    obtain rfl := (hs _).mp hk
    rfl
  | missing => simp at hm
  | root hk hl hp =>
    obtain rfl|⟨p,hkp,_⟩ := Relation.ReflTransGen.cases_head hr
    · exact absurd ((hs _).mpr rfl) hk
    · rw [hR _ _ _ hkp hl] at hp
      simp at hp
  | @link k p v w hk hl hp hw ih =>
    obtain rfl|⟨p',hkp,tail⟩ := Relation.ReflTransGen.cases_head hr
    · exact absurd ((hs _).mpr rfl) hk
    · have same := hR _ _ _ hkp hl
      rw [hp] at same
      obtain rfl := Option.some.inj same
      rw [List.reverse_cons]
      exact (ih hm tail).append ⟨hp,rfl⟩

end Walks

end TruthSeeker.ParentWalk
