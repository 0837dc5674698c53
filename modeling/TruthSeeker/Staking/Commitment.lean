import TruthSeeker.Hyllar.Contract
import TruthSeeker.Staking.TotalBond

namespace TruthSeeker

open Bytes

section Entries
variable {κ : Type} (key : κ → Bytes)

/-- An entry of a map from keys to amounts, as the commitments write it. -/
def amountBytes (entry : κ × U128) : Bytes := key entry.1++ofNatLE 16 entry.2.toNat

/-- Entries of amounts are determined by their bytes and the lengths of their keys. -/
theorem amounts_injective (view : κ → Nat × Nat) {xs ys : List (κ × U128)} {r t : Bytes}
    (hl : ∀ k l,view k=view l → (key k).length=(key l).length)
    (hk : ∀ k l,view k=view l → key k=key l → k=l)
    (hf : xs.map (fun p => view p.1)=ys.map (fun p => view p.1))
    (h : xs.flatMap (amountBytes key)++r=ys.flatMap (amountBytes key)++t) : xs=ys ∧ r=t := by
  have lengths : ∀ x ∈ xs,∀ y ∈ ys,view x.1=view y.1 →
      (amountBytes key x).length=(amountBytes key y).length := by
    intro x _ y _ same
    simp only [amountBytes,List.length_append,length_ofNatLE,hl x.1 y.1 same]
  have values : ∀ x ∈ xs,∀ y ∈ ys,view x.1=view y.1 → amountBytes key x=amountBytes key y →
      id x=id y := by
    intro x _ y _ same bytes
    obtain ⟨keys,amounts⟩ := List.append_inj bytes (hl x.1 y.1 same)
    have numbers := ofNatLE_injective 16 _ _ x.2.isLt y.2.isLt amounts
    exact Prod.ext (hk x.1 y.1 same keys) (BitVec.eq_of_toNat_eq numbers)
  simpa using flatMap_append_inj id lengths values hf h

variable {β φ : Type} (write : List β → Bytes) (view : List β → φ)

/-- So are entries of lists, where the view of a list tells how its bytes are cut. -/
theorem lists_injective {xs ys : List (Bytes × List β)} {r t : Bytes}
    (hl : ∀ a b,view a=view b → (write a).length=(write b).length)
    (hw : ∀ a b,view a=view b → write a=write b → a=b)
    (hf : (xs.map fun p => (p.1.length,view p.2))=ys.map fun p => (p.1.length,view p.2))
    (h : xs.flatMap (fun p => p.1++write p.2)++r=ys.flatMap (fun p => p.1++write p.2)++t) :
    xs=ys ∧ r=t := by
  have lengths : ∀ x ∈ xs,∀ y ∈ ys,(x.1.length,view x.2)=(y.1.length,view y.2) →
      (x.1++write x.2).length=(y.1++write y.2).length := by
    intro x _ y _ same
    obtain ⟨keys,views⟩ := Prod.mk.inj same
    rw [List.length_append,List.length_append,keys,hl _ _ views]
  have values : ∀ x ∈ xs,∀ y ∈ ys,(x.1.length,view x.2)=(y.1.length,view y.2) →
      x.1++write x.2=y.1++write y.2 → id x=id y := by
    intro x _ y _ same bytes
    obtain ⟨keys,views⟩ := Prod.mk.inj same
    obtain ⟨key,rest⟩ := List.append_inj bytes keys
    exact Prod.ext key (hw _ _ views rest)
  simpa using flatMap_append_inj id lengths values hf h

end Entries

namespace Maps

variable {κ α : Type} [Ord κ] [Std.TransOrd κ] [Std.LawfulEqOrd κ]

theorem toList_injective {m n : Std.ExtTreeMap κ α} (h : m.toList=n.toList) : m=n := by
  rw [← ofList_toList m,← ofList_toList n,h]

end Maps

namespace Hyllar

/-- The number of entries of each map and the lengths of their keys, in order. -/
def frame (self : Hyllar) : List Nat × List (Nat × Nat) :=
  (self.balances.toList.map fun p => (utf8 p.1).length,
    self.allowances.toList.map fun p => ((utf8 p.1.1).length,(utf8 p.1.2).length))

/-- Two tokens with one commitment agree exactly if they are framed alike. -/
theorem eq_iff_frame {sha256 : Bytes → H256} {self other : Hyllar}
    (hi : Set.InjOn sha256 {self.preimage,other.preimage})
    (h : self.commit sha256=other.commit sha256) : self=other ↔ self.frame=other.frame := by
  refine ⟨congrArg frame,fun frames => ?_⟩
  have bytes := hi (by simp) (by simp) (ByteVec.toList_injective h)
  obtain ⟨balanceFrames,allowanceFrames⟩ := Prod.mk.inj frames
  unfold preimage at bytes
  rw [List.append_assoc,List.append_assoc] at bytes
  obtain ⟨supplies,rest⟩ := List.append_inj bytes (by simp)
  have supply := BitVec.eq_of_toNat_eq (ofNatLE_injective 16 _ _ self.totalSupply.isLt
    other.totalSupply.isLt supplies)
  obtain ⟨balances,rest⟩ := amounts_injective utf8 (fun k => ((utf8 k).length,0))
    (fun _ _ same => (Prod.mk.inj same).1) (fun _ _ _ => utf8_injective)
    (by simpa [Function.comp_def] using congrArg (List.map fun n => (n,0)) balanceFrames) rest
  have lengths (k l : String × String)
      (same : ((utf8 k.1).length,(utf8 k.2).length)=((utf8 l.1).length,(utf8 l.2).length)) :
      (utf8 k.1++utf8 k.2).length=(utf8 l.1++utf8 l.2).length := by
    obtain ⟨owners,spenders⟩ := Prod.mk.inj same
    rw [List.length_append,List.length_append,owners,spenders]
  have keys (k l : String × String)
      (same : ((utf8 k.1).length,(utf8 k.2).length)=((utf8 l.1).length,(utf8 l.2).length))
      (bytes : utf8 k.1++utf8 k.2=utf8 l.1++utf8 l.2) : k=l := by
    obtain ⟨owners,spenders⟩ := List.append_inj bytes (Prod.mk.inj same).1
    exact Prod.ext (utf8_injective owners) (utf8_injective spenders)
  obtain ⟨allowances,_⟩ := amounts_injective (r := []) (t := [])
    (fun k : String × String => utf8 k.1++utf8 k.2) _ lengths keys allowanceFrames
    (congrArg (·++[]) rest)
  obtain ⟨totalSupply,_,_⟩ := self
  obtain ⟨_,_,_⟩ := other
  simp only [Hyllar.mk.injEq]
  exact ⟨supply,Maps.toList_injective balances,Maps.toList_injective allowances⟩

end Hyllar

namespace Staking

/-- What the commitment hashes: the parts that only blob transactions alter. -/
def preimage (self : Staking) : Bytes :=
  self.stakes.toList.flatMap (fun s => utf8 s.1++ofNatLE 16 s.2.toNat)++
  self.delegations.toList.flatMap (fun d => d.1++d.2.flatMap utf8)++
  self.rewarded.toList.flatMap (fun r => r.1++r.2.flatMap u64Bytes)

def commit (self : Staking) (sha256 : Bytes → H256) : StateCommitment :=
  (sha256 self.preimage).toList

/-- What the commitment covers by design. -/
def covered (self : Staking) : Std.ExtTreeMap Identity U128 ×
    Std.ExtTreeMap ValidatorPublicKey (List Identity) ×
    Std.ExtTreeMap ValidatorPublicKey (List BlockHeight) :=
  (self.stakes,self.delegations,self.rewarded)

/-- The numbers of entries, of delegators and of heights, and the lengths of all names and
keys, in order. -/
def frame (self : Staking) : List Nat × List (Nat × List Nat) × List (Nat × Nat) :=
  (self.stakes.toList.map fun s => (utf8 s.1).length,
    self.delegations.toList.map fun d => (d.1.length,d.2.map fun i => (utf8 i).length),
    self.rewarded.toList.map fun r => (r.1.length,r.2.length))

theorem names_injective {xs ys : List Identity}
    (hf : (xs.map fun i => (utf8 i).length)=ys.map fun i => (utf8 i).length)
    (h : xs.flatMap utf8=ys.flatMap utf8) : xs=ys := by
  have pieces := flatMap_append_inj (r := []) (t := []) id
    (fun _ _ _ _ same => same) (fun _ _ _ _ _ => utf8_injective) hf (congrArg (·++[]) h)
  simpa using pieces.1

theorem heights_injective {xs ys : List BlockHeight} (hl : xs.length=ys.length)
    (h : xs.flatMap u64Bytes=ys.flatMap u64Bytes) : xs=ys := by
  have frames : xs.map (fun _ => ())=ys.map fun _ => () := by
    rw [List.map_const',List.map_const',hl]
  have pieces := flatMap_append_inj (r := []) (t := []) id
    (fun x _ y _ _ => (length_u64Bytes x).trans (length_u64Bytes y).symm)
    (fun _ _ _ _ _ => u64Bytes_injective) frames (congrArg (·++[]) h)
  simpa using pieces.1

/-- Two states with one commitment agree exactly if they are framed alike. -/
theorem covered_iff_frame {sha256 : Bytes → H256} {self other : Staking}
    (hi : Set.InjOn sha256 {self.preimage,other.preimage})
    (h : self.commit sha256=other.commit sha256) :
    self.covered=other.covered ↔ self.frame=other.frame := by
  constructor
  · intro same
    obtain ⟨stakes,rest⟩ := Prod.mk.inj same
    obtain ⟨delegations,rewarded⟩ := Prod.mk.inj rest
    rw [frame,frame,stakes,delegations,rewarded]
  · intro frames
    have bytes := hi (by simp) (by simp) (ByteVec.toList_injective h)
    obtain ⟨stakeFrames,rest⟩ := Prod.mk.inj frames
    obtain ⟨delegationFrames,rewardFrames⟩ := Prod.mk.inj rest
    unfold preimage at bytes
    rw [List.append_assoc,List.append_assoc] at bytes
    obtain ⟨stakes,bytes⟩ := amounts_injective utf8 (fun k => ((utf8 k).length,0))
      (fun _ _ same => (Prod.mk.inj same).1) (fun _ _ _ => utf8_injective)
      (by simpa [Function.comp_def] using congrArg (List.map fun n => (n,0)) stakeFrames) bytes
    have names (a b : List Identity)
        (same : (a.map fun i => (utf8 i).length)=b.map fun i => (utf8 i).length) :
        (a.flatMap utf8).length=(b.flatMap utf8).length := by
      rw [List.length_flatMap,List.length_flatMap,same]
    have heights (a b : List BlockHeight) (same : a.length=b.length) :
        (a.flatMap u64Bytes).length=(b.flatMap u64Bytes).length := by
      simp [List.length_flatMap,List.map_const',same]
    obtain ⟨delegations,bytes⟩ := lists_injective (List.flatMap utf8) _ names
      (fun _ _ => names_injective) delegationFrames bytes
    obtain ⟨rewards,_⟩ := lists_injective (r := []) (t := []) (List.flatMap u64Bytes) _ heights
      (fun _ _ => heights_injective) rewardFrames (congrArg (·++[]) bytes)
    rw [covered,covered,Maps.toList_injective stakes,Maps.toList_injective delegations,
      Maps.toList_injective rewards]

end Staking

end TruthSeeker
