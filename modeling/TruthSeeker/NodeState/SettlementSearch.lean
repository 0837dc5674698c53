import TruthSeeker.Framework.Backtracking
import TruthSeeker.NodeState.Settlement

namespace TruthSeeker.NodeState

open Backtracking

section Search
variable (env : Environment) (contracts : Contracts)

/-- What comes of a blob with the proof at the index: no choice if there is no valid proof, a
failure, or the changes with which the next blob is settled. A blob to `hyle` has no proofs. -/
def blobChoice (changes : ContractChanges) (metadata : UnsettledBlobMetadata) (index : Nat) :
    Option (Except Unit ContractChanges) :=
  let blob := metadata.blob
  if blob.contractName="hyle" then
    if index=0 then
      some ((HyleTld.handleBlobForHyleTld env contracts changes blob).mapError fun _ => ())
    else none
  else
    match metadata.possibleProofs[index]? with
    | none => none
    | some proof =>
        match processProof env contracts changes blob.contractName proof blob with
        | .error _ => none
        | .ok next => some (if proof.2.success then .ok next else .error ())

/-- The result is the first outcome of the choices for the blobs, with the indices of the proofs
behind the given ones, or nothing where there is no outcome. -/
def FirstOutcome (changes : ContractChanges) (blobs : List UnsettledBlobMetadata)
    (indices : List Nat) : Option (Except Unit SettlementResult) → Prop
  | none => ∀ used,outcome (blobChoice env contracts) changes blobs used=none
  | some (.error ()) => ∃ used,First (blobChoice env contracts) changes blobs used (.error ())
  | some (.ok result) => ∃ used,result.blobProofOutputIndices=indices++used ∧
      First (blobChoice env contracts) changes blobs used (.ok result.contractChanges)

variable {env contracts} {changes next : ContractChanges} {metadata : UnsettledBlobMetadata}
  {blobs : List UnsettledBlobMetadata} {indices : List Nat}

theorem blobChoice_hyle (hc : metadata.blob.contractName="hyle") (index : Nat) :
    blobChoice env contracts changes metadata index=
      if index=0 then some ((HyleTld.handleBlobForHyleTld env contracts changes
        metadata.blob).mapError fun _ => ())
      else none := by
  simp only [blobChoice,hc,if_true]

theorem blobChoice_proven (hc : metadata.blob.contractName≠"hyle") {index : Nat}
    {proof : ProgramId × HyleOutput} (hp : metadata.possibleProofs[index]?=some proof) :
    blobChoice env contracts changes metadata index=
      match processProof env contracts changes metadata.blob.contractName proof metadata.blob with
      | .error _ => none
      | .ok next => some (if proof.2.success then .ok next else .error ()) := by
  simp only [blobChoice,if_neg hc,hp]

theorem deadEnd_of_no_proof (hc : metadata.blob.contractName≠"hyle") {index : Nat}
    (hp : metadata.possibleProofs[index]?=none) :
    DeadEnd (blobChoice env contracts) changes metadata blobs index := by
  apply deadEnd_of_none
  simp only [blobChoice,if_neg hc,hp]

/-- A first choice that leads on, with the first outcome of the blobs after it. -/
theorem FirstOutcome.cons {index : Nat} {result : Except Unit SettlementResult}
    (h : blobChoice env contracts changes metadata index=some (.ok next))
    (dead : ∀ i< index,DeadEnd (blobChoice env contracts) changes metadata blobs i)
    (rest : FirstOutcome env contracts next blobs (indices++[index]) (some result)) :
    FirstOutcome env contracts changes (metadata::blobs) indices (some result) := by
  cases result with
  | error e =>
    obtain ⟨used,first⟩ := rest
    exact ⟨index::used,first.cons h dead⟩
  | ok result =>
    obtain ⟨used,eq,first⟩ := rest
    refine ⟨index::used,?_,first.cons h dead⟩
    rw [eq,List.append_assoc]
    rfl

/-- The proofs from some index on, where those before it lead nowhere. -/
theorem firstOutcome_tryProofs (hc : metadata.blob.contractName≠"hyle")
    (carried : ∀ next index,FirstOutcome env contracts next blobs (indices++[index])
      (settleBlobsRecursively env contracts next blobs (indices++[index])).2)
    {start : Nat} {proofs : List (ProgramId × HyleOutput)}
    (hd : metadata.possibleProofs.drop start=proofs)
    (dead : ∀ i<start,DeadEnd (blobChoice env contracts) changes metadata blobs i) :
    FirstOutcome env contracts changes (metadata::blobs) indices
      (tryProofs env contracts
        (fun changes i => settleBlobsRecursively env contracts changes blobs (indices++[i]))
        changes metadata.blob start proofs).2 := by
  induction proofs generalizing start with
  | nil =>
    apply outcome_eq_none
    intro index
    by_cases earlier : index<start
    · exact dead index earlier
    · have short := List.drop_eq_nil_iff.mp hd
      exact deadEnd_of_no_proof hc (List.getElem?_eq_none (by omega))
  | cons proof proofs ih =>
    have found : metadata.possibleProofs[start]?=some proof := by
      have head := congrArg (fun l => l[0]?) hd
      simpa using head
    have tail : metadata.possibleProofs.drop (start+1)=proofs := by
      rw [← List.tail_drop,hd]
      rfl
    -- If the proof leads nowhere, the search goes on after it.
    have later : DeadEnd (blobChoice env contracts) changes metadata blobs start →
        FirstOutcome env contracts changes (metadata::blobs) indices
          (tryProofs env contracts
            (fun changes i => settleBlobsRecursively env contracts changes blobs (indices++[i]))
            changes metadata.blob (start+1) proofs).2 := by
      intro nowhere
      refine ih tail ?_
      intro i hi
      obtain earlier|rfl := Nat.lt_succ_iff_lt_or_eq.mp hi
      · exact dead i earlier
      · exact nowhere
    have choice := @blobChoice_proven env contracts changes metadata hc start proof found
    unfold tryProofs
    cases hp : processProof env contracts changes metadata.blob.contractName proof
        metadata.blob with
    | error msg =>
      rw [hp] at choice
      exact later (deadEnd_of_none choice)
    | ok next =>
      rw [hp] at choice
      dsimp only at choice ⊢
      by_cases success : proof.2.success=true
      · rw [if_pos success] at choice
        rw [if_neg (not_not.mpr success)]
        have rest := carried next start
        generalize settleBlobsRecursively env contracts next blobs (indices++[start])=attempt
          at rest ⊢
        obtain ⟨events,_ | result⟩ := attempt
        · exact later (deadEnd_of_ok choice rest)
        · exact FirstOutcome.cons choice dead rest
      · rw [if_neg success] at choice
        rw [if_pos success]
        exact ⟨[start],.failed choice dead⟩

theorem firstOutcome_settleBlobsRecursively :
    FirstOutcome env contracts changes blobs indices
      (settleBlobsRecursively env contracts changes blobs indices).2 := by
  induction blobs generalizing changes indices with
  | nil => exact ⟨[],(List.append_nil _).symm,.nil⟩
  | cons metadata blobs ih =>
    unfold settleBlobsRecursively
    by_cases hc : metadata.blob.contractName="hyle"
    · have choice := @blobChoice_hyle env contracts changes metadata hc
      have none_before : ∀ i<0,DeadEnd (blobChoice env contracts) changes metadata blobs i :=
        fun i hi => absurd hi (Nat.not_lt_zero i)
      rw [if_pos hc]
      cases hh : HyleTld.handleBlobForHyleTld env contracts changes metadata.blob with
      | error e =>
        have failure := choice 0
        rw [hh] at failure
        exact ⟨[0],.failed failure none_before⟩
      | ok next =>
        have success := choice 0
        rw [hh] at success
        have rest := @ih next (indices++[0])
        dsimp only
        generalize settleBlobsRecursively env contracts next blobs (indices++[0])=attempt
          at rest ⊢
        obtain ⟨events,_ | result⟩ := attempt
        · apply outcome_eq_none
          intro index
          cases index with
          | zero => exact deadEnd_of_ok success rest
          | succ index => exact deadEnd_of_none (choice (index+1))
        · exact FirstOutcome.cons success none_before rest
    · rw [if_neg hc]
      exact firstOutcome_tryProofs hc (fun _ _ => ih) rfl
        fun i hi => absurd hi (Nat.not_lt_zero i)

end Search

/-- The search for a settlement returns the first outcome in the lexicographic order of the
indices of the proofs: the changes after all blobs with one index for each of them, or a failure.
It returns nothing exactly where there is no outcome. -/
theorem settleBlobsRecursively_first (env : Environment) (contracts : Contracts)
    (changes : ContractChanges) (blobs : List UnsettledBlobMetadata) (indices : List Nat) :
    FirstOutcome env contracts changes blobs indices
      (settleBlobsRecursively env contracts changes blobs indices).2 ∧
    (∀ result,(settleBlobsRecursively env contracts changes blobs indices).2=some (.ok result) →
      result.blobProofOutputIndices.length=indices.length+blobs.length) ∧
    ((settleBlobsRecursively env contracts changes blobs indices).2=none ↔
      ∀ used,outcome (blobChoice env contracts) changes blobs used=none) := by
  have first := @firstOutcome_settleBlobsRecursively env contracts changes blobs indices
  refine ⟨first,?_,?_⟩
  · intro result hr
    rw [hr] at first
    obtain ⟨used,eq,first⟩ := first
    rw [eq,List.length_append,length_of_ok first.reached]
  · constructor
    · intro hn
      rwa [hn] at first
    · intro barren
      rcases hr : (settleBlobsRecursively env contracts changes blobs indices).2 with
        _ | (_ | result)
      · rfl
      · rw [hr] at first
        obtain ⟨used,first⟩ := first
        exact absurd (first.reached.symm.trans (barren used)) (by simp)
      · rw [hr] at first
        obtain ⟨used,_,first⟩ := first
        exact absurd (first.reached.symm.trans (barren used)) (by simp)

end TruthSeeker.NodeState
