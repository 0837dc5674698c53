import Mathlib.Data.List.Forall2
import TruthSeeker.Mempool.VerifyTx

namespace TruthSeeker.Mempool

open Outcome

variable (verifiers : Verifiers) (known : KnownContracts)

/-- The program ids and outputs that the verification of a proof returns. A proof of a plain
contract is for the program of its contract. -/
def verification (before : List Transaction) (proofTx : VerifiedProofTransaction) :
    Option (List ProgramId × List HyleOutput) :=
  match proofTx.proof,contractOf known before proofTx.contractName with
  | some proof,some (verifier,programId) =>
      if isRecursive proofTx.contractName then
        (verifiers.verifyRecursiveProof proof verifier programId).toOption
      else
        (verifiers.verifyProof proof verifier programId).toOption.map fun outputs =>
          (outputs.map fun _ => programId,outputs)
  | _,_ => none

/-- The entries are exactly those that the verification attests. -/
def Attests (ids : List ProgramId) (outputs : List HyleOutput)
    (provenBlobs : List BlobProofOutput) : Prop :=
  List.Forall₂ (fun id entry => entry.programId=id) ids provenBlobs ∧
    List.Forall₂ (fun output entry => entry.hyleOutput=output ∧ entry.blobTxHash=output.txHash)
      outputs provenBlobs

/-- The comparisons that are left out: the check refuses a plain proof only if it has another
number of outputs and another output as well, and compares neither its program nor any
transaction hash; for a recursive proof it counts the program ids, not the outputs. -/
def Compared (recursive : Bool) (ids : List ProgramId) (outputs : List HyleOutput)
    (provenBlobs : List BlobProofOutput) : Prop :=
  outputs.length=provenBlobs.length ∧
    (∀ entry ∈ provenBlobs,entry.blobTxHash=entry.hyleOutput.txHash) ∧
    (recursive=false →
      (∀ p ∈ outputs.zip provenBlobs,p.1=p.2.hyleOutput) ∧
        ∀ p ∈ ids.zip provenBlobs,p.1=p.2.programId)

/-- A property of every verified proof of a proposal and the transactions before it. -/
def OfProofs (dataProposal : DataProposal)
    (p : List Transaction → VerifiedProofTransaction → Prop) : Prop :=
  ∀ before tx after proofTx,dataProposal.txs=before++tx::after →
    tx.transactionData=.verifiedProof proofTx → p before proofTx

theorem ofProofs_singleton {parent : Option DataProposalHash} {version : UInt32}
    {proofTx : VerifiedProofTransaction}
    {p : List Transaction → VerifiedProofTransaction → Prop} (h : p [] proofTx) :
    OfProofs ⟨parent,[⟨version,.verifiedProof proofTx⟩]⟩ p := by
  intro before tx after proofTx' hs hd
  cases before with
  | nil =>
    obtain ⟨rfl,_⟩ := List.cons.inj hs
    obtain rfl := TransactionData.verifiedProof.inj hd
    exact h
  | cons b before =>
    have hl := congrArg List.length hs
    simp at hl

def ProofsAttested (dataProposal : DataProposal) : Prop :=
  OfProofs dataProposal fun before proofTx =>
    ∃ ids outputs,verification verifiers known before proofTx=some (ids,outputs) ∧
      Attests ids outputs proofTx.provenBlobs

def ProofsCompared (dataProposal : DataProposal) : Prop :=
  OfProofs dataProposal fun before proofTx =>
    ∀ ids outputs,verification verifiers known before proofTx=some (ids,outputs) →
      Compared (isRecursive proofTx.contractName) ids outputs proofTx.provenBlobs

theorem checkTxs_eq_vote {earlier txs : List Transaction} :
    checkTxs verifiers known earlier txs=.vote ↔
      ∀ before tx after,txs=before++tx::after →
        checkTx verifiers known (earlier++before) tx=.vote := by
  induction txs generalizing earlier with
  | nil => simp [checkTxs]
  | cons tx txs ih =>
    constructor
    · intro h before tx' after hs
      have head : checkTx verifiers known earlier tx=.vote := by
        cases hc : checkTx verifiers known earlier tx <;> simp_all [checkTxs]
      rw [checkTxs,head] at h
      cases before with
      | nil =>
        obtain ⟨rfl,rfl⟩ := List.cons.inj hs
        rw [List.append_nil]
        exact head
      | cons b before =>
        obtain ⟨rfl,ht⟩ := List.cons.inj hs
        have tail := ih.mp h before tx' after ht
        rwa [List.append_assoc] at tail
    · intro h
      have head := h [] tx txs rfl
      rw [List.append_nil] at head
      rw [checkTxs,head]
      apply ih.mpr
      intro before tx' after hs
      have tail := h (tx::before) tx' after (by rw [hs,List.cons_append])
      rwa [List.append_assoc]

/-- What a voted proof transaction has been compared with. -/
theorem checkProofTx_eq_vote {before : List Transaction} {proofTx : VerifiedProofTransaction} :
    checkProofTx verifiers known before proofTx=.vote ↔
      ∃ ids outputs,verification verifiers known before proofTx=some (ids,outputs) ∧
        if isRecursive proofTx.contractName then
          ids.length=proofTx.provenBlobs.length ∧
            recursiveMatches ids outputs proofTx.provenBlobs=true
        else
          outputs.length=proofTx.provenBlobs.length ∨
            ∀ p ∈ outputs.zip proofTx.provenBlobs,p.1=p.2.hyleOutput := by
  unfold checkProofTx verification
  cases proofTx.proof with
  | none => simp
  | some proof =>
    cases contractOf known before proofTx.contractName with
    | none => simp
    | some contract =>
      obtain ⟨verifier,programId⟩ := contract
      by_cases hr : isRecursive proofTx.contractName=true
      · simp only [hr,if_true]
        cases verifiers.verifyRecursiveProof proof verifier programId with
        | error e => simp [Except.toOption]
        | ok result =>
          obtain ⟨ids,outputs⟩ := result
          simp [Except.toOption,-List.length_zip]
      · simp only [hr,Bool.false_eq_true,if_false]
        cases verifiers.verifyProof proof verifier programId with
        | error e => simp [Except.toOption]
        | ok outputs =>
          simp [Except.toOption,or_iff_not_imp_left]

theorem recursiveMatches_eq_true {ids : List ProgramId} {outputs : List HyleOutput}
    {provenBlobs : List BlobProofOutput} (hi : ids.length=provenBlobs.length)
    (ho : outputs.length=provenBlobs.length) :
    recursiveMatches ids outputs provenBlobs=true ↔
      (∀ p ∈ outputs.zip provenBlobs,p.1=p.2.hyleOutput) ∧
        ∀ p ∈ ids.zip provenBlobs,p.1=p.2.programId := by
  induction provenBlobs generalizing ids outputs with
  | nil => simp [recursiveMatches]
  | cons entry entries ih =>
    obtain ⟨id,ids,rfl⟩ := List.exists_cons_of_length_eq_add_one hi
    obtain ⟨output,outputs,rfl⟩ := List.exists_cons_of_length_eq_add_one ho
    have tail := ih (by simpa using hi) (by simpa using ho)
    simp only [recursiveMatches] at tail
    simp only [recursiveMatches,List.zip_cons_cons,List.all_cons,tail,List.forall_mem_cons,
      Bool.and_eq_true,decide_eq_true_eq]
    tauto

theorem verification_ids_length {before : List Transaction} {proofTx : VerifiedProofTransaction}
    {ids : List ProgramId} {outputs : List HyleOutput}
    (hv : verification verifiers known before proofTx=some (ids,outputs))
    (hr : isRecursive proofTx.contractName=false) : ids.length=outputs.length := by
  unfold verification at hv
  split at hv
  · simp only [hr,Bool.false_eq_true,if_false,Option.map_eq_some_iff,Prod.mk.injEq] at hv
    obtain ⟨found,_,hi,ho⟩ := hv
    rw [← hi,← ho,List.length_map]
  · contradiction

theorem attests_iff {ids : List ProgramId} {outputs : List HyleOutput}
    {provenBlobs : List BlobProofOutput} :
    Attests ids outputs provenBlobs ↔
      (ids.length=provenBlobs.length ∧ ∀ p ∈ ids.zip provenBlobs,p.1=p.2.programId) ∧
      outputs.length=provenBlobs.length ∧
      (∀ p ∈ outputs.zip provenBlobs,p.1=p.2.hyleOutput) ∧
      ∀ entry ∈ provenBlobs,entry.blobTxHash=entry.hyleOutput.txHash := by
  have hashes : ∀ (outputs : List HyleOutput) (entries : List BlobProofOutput),
      outputs.length=entries.length → (∀ p ∈ outputs.zip entries,p.1=p.2.hyleOutput) →
      ((∀ p ∈ outputs.zip entries,p.2.blobTxHash=p.1.txHash) ↔
        ∀ entry ∈ entries,entry.blobTxHash=entry.hyleOutput.txHash) := by
    intro outputs
    induction outputs with
    | nil =>
      intro entries hl _
      rw [List.eq_nil_of_length_eq_zero hl.symm]
      simp
    | cons output outputs ih =>
      intro entries hl ho
      obtain ⟨entry,entries,rfl⟩ := List.exists_cons_of_length_eq_add_one hl.symm
      rw [List.zip_cons_cons,List.forall_mem_cons] at ho
      have tail := ih entries (by simpa using hl) ho.2
      rw [List.zip_cons_cons,List.forall_mem_cons,List.forall_mem_cons,tail,ho.1]
  rw [Attests,List.forall₂_iff_zip,List.forall₂_iff_zip]
  constructor
  · intro h
    obtain ⟨⟨hi,hp⟩,hl,ho⟩ := h
    have same : ∀ p ∈ outputs.zip provenBlobs,p.1=p.2.hyleOutput :=
      fun p hm => (ho hm).1.symm
    refine ⟨⟨hi,fun p hm => (hp hm).symm⟩,hl,same,?_⟩
    exact (hashes outputs provenBlobs hl same).mp fun p hm => (ho hm).2
  · intro h
    obtain ⟨⟨hi,hp⟩,hl,same,ht⟩ := h
    refine ⟨⟨hi,fun hm => (hp _ hm).symm⟩,hl,?_⟩
    intro output entry hm
    exact ⟨(same _ hm).symm,(hashes outputs provenBlobs hl same).mpr ht _ hm⟩

/-- For one voted proof, the comparisons that are left out are what remains to be checked. -/
theorem attests_iff_compared {before : List Transaction} {proofTx : VerifiedProofTransaction}
    {ids : List ProgramId} {outputs : List HyleOutput}
    (hc : checkProofTx verifiers known before proofTx=.vote)
    (hv : verification verifiers known before proofTx=some (ids,outputs)) :
    Attests ids outputs proofTx.provenBlobs ↔
      Compared (isRecursive proofTx.contractName) ids outputs proofTx.provenBlobs := by
  obtain ⟨ids',outputs',hv',checked⟩ := (checkProofTx_eq_vote verifiers known).mp hc
  obtain ⟨rfl,rfl⟩ := Prod.mk.inj (Option.some.inj (hv.symm.trans hv'))
  rw [attests_iff,Compared]
  cases hr : isRecursive proofTx.contractName with
  | true =>
    rw [hr,if_pos rfl] at checked
    obtain ⟨hi,hm⟩ := checked
    constructor
    · intro h
      exact ⟨h.2.1,h.2.2.2,fun hf => absurd hf (by decide)⟩
    · intro h
      obtain ⟨hl,ht,_⟩ := h
      obtain ⟨ho,hp⟩ := (recursiveMatches_eq_true hi hl).mp hm
      exact ⟨⟨hi,hp⟩,hl,ho,ht⟩
  | false =>
    have hi := verification_ids_length verifiers known hv hr
    constructor
    · intro h
      exact ⟨h.2.1,h.2.2.2,fun _ => ⟨h.2.2.1,h.1.2⟩⟩
    · intro h
      obtain ⟨hl,ht,hf⟩ := h
      obtain ⟨ho,hp⟩ := hf rfl
      exact ⟨⟨hi.trans hl,hp⟩,hl,ho,ht⟩

theorem processDataProposal_vote {dataProposal stripped : DataProposal}
    (h : processDataProposal verifiers known dataProposal=.ok (.vote,stripped)) :
    OfProofs dataProposal fun before proofTx =>
      checkProofTx verifiers known before proofTx=.vote := by
  have checked : checkTxs verifiers known [] dataProposal.txs=.vote := by
    cases hc : checkTxs verifiers known [] dataProposal.txs <;>
      simp_all [processDataProposal]
  intro before tx after proofTx hs hd
  have ht := (checkTxs_eq_vote verifiers known).mp checked before tx after hs
  rw [List.nil_append,checkTx,hd] at ht
  exact ht

/-- A voted proposal carries only entries that its proofs attest exactly if the comparisons
that the check leaves out happen to hold. -/
theorem proofsAttested_iff (dataProposal stripped : DataProposal)
    (h : processDataProposal verifiers known dataProposal=.ok (.vote,stripped)) :
    ProofsAttested verifiers known dataProposal ↔
      ProofsCompared verifiers known dataProposal := by
  have checked := processDataProposal_vote verifiers known h
  constructor
  · intro attested before tx after proofTx hs hd ids outputs hv
    obtain ⟨ids',outputs',hv',ha⟩ := attested before tx after proofTx hs hd
    obtain ⟨rfl,rfl⟩ := Prod.mk.inj (Option.some.inj (hv.symm.trans hv'))
    exact (attests_iff_compared verifiers known (checked before tx after proofTx hs hd) hv).mp ha
  · intro compared before tx after proofTx hs hd
    have hc := checked before tx after proofTx hs hd
    obtain ⟨ids,outputs,hv,_⟩ := (checkProofTx_eq_vote verifiers known).mp hc
    have hm := compared before tx after proofTx hs hd ids outputs hv
    exact ⟨ids,outputs,hv,(attests_iff_compared verifiers known hc hv).mpr hm⟩

namespace OneProof

/-- The verifier `test` takes a proof for the list of its outputs. -/
def testVerifiers : Verifiers where
  verifyProof proof verifier _ :=
    if verifier="test" then
      match Borsh.fromSlice (List HyleOutput) proof with
      | some outputs => .ok outputs
      | none => .error "parsing test proof"
    else .error s!"{verifier} verifier not implemented yet"
  verifyRecursiveProof _ verifier _ :=
    .error s!"{verifier} recursive verifier not implemented yet (or feature disabled)"

def contracts : KnownContracts := (∅ : KnownContracts).insert "counter" ("test",[1])

/-- The output of a transaction with one blob that moves the state from 0 to 1. -/
def output : HyleOutput where
  version := 1
  initialState := [0]
  nextState := [1]
  identity := "alice@wallet"
  index := 0
  blobs := [(0,⟨"counter",[]⟩)]
  txBlobCount := 1
  txHash := "7a"
  success := true
  stateReads := []
  txCtx := none
  onchainEffects := []
  programOutputs := []

def forged : HyleOutput := { output with nextState := [255] }

/-- A proof of the output, in a transaction that claims another one. -/
def proofTx (proof : Option ProofData) (claimed : HyleOutput) : VerifiedProofTransaction where
  contractName := "counter"
  proof := proof
  proofHash := ""
  proofSize := 0
  provenBlobs := [⟨"7a","todo?",claimed,[1]⟩]
  isRecursive := false

def proposal (proof : Option ProofData) (claimed : HyleOutput) : DataProposal :=
  ⟨none,[⟨1,.verifiedProof (proofTx proof claimed)⟩]⟩

theorem verification_proofTx (claimed : HyleOutput) :
    verification testVerifiers contracts [] (proofTx (Borsh.ser [output]) claimed)=
      some ([[1]],[output]) := by
  have known : contractOf contracts [] "counter"=some ("test",[1]) := by decide +kernel
  have proven : (testVerifiers.verifyProof ((Borsh.ser [output]).getD []) "test" [1]).toOption=
      some [output] := by decide +kernel
  have proof : Borsh.ser [output]=some ((Borsh.ser [output]).getD []) := by decide +kernel
  rw [proof]
  simp only [verification,proofTx,known,proven]
  rfl

/-- Whatever output the entry claims, the proposal is voted. -/
theorem processDataProposal_proposal (claimed : HyleOutput) :
    processDataProposal testVerifiers contracts (proposal (Borsh.ser [output]) claimed)=
      .ok (.vote,proposal none claimed) := by
  have hc : checkProofTx testVerifiers contracts []
      (proofTx (Borsh.ser [output]) claimed)=.vote :=
    (checkProofTx_eq_vote testVerifiers contracts).mpr
      ⟨_,_,verification_proofTx claimed,Or.inl rfl⟩
  simp only [processDataProposal,proposal,checkTxs,checkTx,hc]
  rfl

end OneProof

open OneProof in
theorem proofsAttested_output :
    ProofsAttested testVerifiers contracts (proposal (Borsh.ser [output]) output) := by
  refine (proofsAttested_iff testVerifiers contracts (proposal (Borsh.ser [output]) output)
    (proposal none output) (processDataProposal_proposal output)).mpr ?_
  apply ofProofs_singleton
  intro ids outputs hv
  rw [verification_proofTx] at hv
  obtain ⟨rfl,rfl⟩ := Prod.mk.inj (Option.some.inj hv)
  exact ⟨rfl,by decide,fun _ => by decide⟩

open OneProof in
/-- The proof attests the state 1, the entry of its transaction claims the state 255. -/
theorem not_proofsAttested :
    processDataProposal testVerifiers contracts (proposal (Borsh.ser [output]) forged)=
      .ok (.vote,proposal none forged) ∧
    ¬ProofsAttested testVerifiers contracts (proposal (Borsh.ser [output]) forged) := by
  refine ⟨processDataProposal_proposal forged,?_⟩
  intro attested
  obtain ⟨ids,outputs,hv,_,ho⟩ := attested [] _ [] _ rfl rfl
  rw [verification_proofTx] at hv
  obtain ⟨_,rfl⟩ := Prod.mk.inj (Option.some.inj hv)
  have entry := (List.forall₂_cons.mp ho).1.1
  exact absurd entry (by decide)

end TruthSeeker.Mempool
