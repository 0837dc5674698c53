import TruthSeeker.NodeState.HyleTld
import TruthSeeker.NodeState.OrderedTxMap

namespace TruthSeeker

structure SettlementResult where
  contractChanges : ContractChanges
  blobProofOutputIndices : List Nat

namespace NodeState

variable (env : Environment)

def displayBlobsHashes (hashes : BlobsHashes) : String :=
  String.join (hashes.toList.map fun p => s!"[{p.1}]: {p.2}")

/-- A blob that registers or deletes a contract has the matching effect first. -/
def checkSideEffect (blob : Blob) (hyleOutput : HyleOutput) : Except String Unit :=
  match BlobData.parse RegisterContractAction blob.data with
  | some reg =>
      let subject := s!"Proof for RegisterContractAction blob #{hyleOutput.index}"
      match hyleOutput.onchainEffects.head? with
      | none => .error s!"{subject} does not have any onchain effects"
      | some (.registerContract effect) =>
          if effect≠reg.effect then .error s!"{subject} does not match the onchain effect"
          else .ok ()
      | some (.deleteContract _) => .error s!"{subject} does not have a register onchain effect"
  | none =>
  match BlobData.parse DeleteContractAction blob.data with
  | some del =>
      let subject := s!"Proof for DeleteContractAction blob #{hyleOutput.index}"
      match hyleOutput.onchainEffects.head? with
      | none => .error s!"{subject} does not have any onchain effects"
      | some (.deleteContract contractName) =>
          if contractName≠del.contractName then
            .error s!"{subject} does not match the onchain effect"
          else .ok ()
      | some (.registerContract _) => .error s!"{subject} does not have a delete onchain effect"
  | none => .ok ()

/-- Whether the output of a proof fits the transaction, whatever the state. -/
def verifyHyleOutput (unsettledTx : UnsettledBlobTransaction) (hyleOutput : HyleOutput) :
    Except String Unit :=
  if unsettledTx.identity≠hyleOutput.identity then
    .error (s!"Proof identity '{hyleOutput.identity}' does not correspond to "++
      s!"BlobTx identity '{unsettledTx.identity}'.")
  else if hyleOutput.txHash≠unsettledTx.hash then
    .error (s!"Proof tx_hash '{hyleOutput.txHash}' does not correspond to "++
      s!"BlobTx hash '{unsettledTx.hash}'.")
  else if hyleOutput.txCtx.any fun ctx => ctx≠unsettledTx.txContext then
    let ctx := (hyleOutput.txCtx.map env.debug.txContext).getD ""
    .error (s!"Proof tx_context '{ctx}' does not correspond to "++
      s!"BlobTx tx_context '{env.debug.txContext unsettledTx.txContext}'.")
  else
    let extractedBlobsHash := BlobsHashes.ofBlobs env.sha3 hyleOutput.blobs
    if ¬unsettledTx.blobsHash.includesAll extractedBlobsHash then
      .error (s!"Proof blobs hash '{displayBlobsHashes extractedBlobsHash}' do not correspond "++
        s!"to BlobTx blobs hash '{displayBlobsHashes unsettledTx.blobsHash}'.")
    else
      match unsettledTx.blobs[hyleOutput.index]? with
      | none => .error "Blob index out of bounds"
      | some metadata => checkSideEffect metadata.blob hyleOutput

variable (contracts : Contracts)

def checkStateRead (contractChanges : ContractChanges)
    (stateRead : ContractName × StateCommitment) : Except String Unit := do
  let otherContract ← getContract contracts contractChanges stateRead.1
  if stateRead.2≠otherContract.state then
    .error (s!"State read {env.debug.stateRead stateRead} does not match "++
      s!"other contract state {env.debug.stateCommitment otherContract.state}")
  else return ()

def applyEffect (contract : Contract) (currentBlob : Blob) (contractChanges : ContractChanges) :
    OnchainEffect → Except String ContractChanges
  | .registerContract effect => do
      validateContractRegistrationMetadata env contract.name effect.contractName
        effect.verifier effect.programId effect.stateCommitment
      match BlobData.parse RegisterContractAction currentBlob.data with
      | none => .error (env.debug.borshError currentBlob.data)
      | some metadata =>
          return contractChanges.insert effect.contractName
            (some ⟨effect.contractName,effect.programId,effect.stateCommitment,effect.verifier,
              effect.timeoutWindow.getD contract.timeoutWindow⟩,
            ModifiedContractFields.all,[.register metadata.constructorMetadata])
  | .deleteContract contractName => do
      validateContractNameRegistration contract.name contractName
      return contractChanges.insert contractName
        (match contractChanges[contractName]? with
        | some (_,fields,effects) => (none,fields,effects++[.delete])
        | none => (none,ModifiedContractFields.all,[.delete]))

/-- The generic state update comes after the effects. -/
def applyState (contract : Contract) (nextState : StateCommitment)
    (contractChanges : ContractChanges) : ContractChanges :=
  contractChanges.insert contract.name
    (match contractChanges[contract.name]? with
    | some (some c,fields,effects) =>
        (some { c with state := nextState },{ fields with state := true },
          effects++[.updateState])
    | some (none,fields,effects) => (none,fields,effects)
    | none =>
        (some { contract with state := nextState },
          { ModifiedContractFields.none with state := true },[.updateState]))

/-- Called when trying to settle, for all contracts but `hyle`. -/
def processProof (contractChanges : ContractChanges) (contractName : ContractName)
    (proof : ProgramId × HyleOutput) (currentBlob : Blob) : Except String ContractChanges := do
  validateStateCommitmentSize proof.2.nextState
  let contract ← getContract contracts contractChanges contractName
  if proof.2.initialState≠contract.state then
    .error (s!"Initial state mismatch: {env.debug.stateCommitment proof.2.initialState}, "++
      s!"expected {env.debug.stateCommitment contract.state}")
  else if proof.1≠contract.programId then
    .error (s!"Program ID mismatch: {env.debug.programId proof.1}, "++
      s!"expected {env.debug.programId contract.programId}")
  else
    proof.2.stateReads.forM (checkStateRead env contracts contractChanges)
    let contractChanges ←
      proof.2.onchainEffects.foldlM (applyEffect env contract currentBlob) contractChanges
    return applyState contract proof.2.nextState contractChanges

/-- The events of an attempt, with nothing if the transaction is not ready, a failure, or
the result of the settlement. -/
abbrev Attempt := List TransactionStateEvent × Option (Except Unit SettlementResult)

/-- Go through each proof of a blob, from the index on. If they settle, carry on with the
blobs after it. -/
def tryProofs (carryOn : ContractChanges → Nat → Attempt) (contractChanges : ContractChanges)
    (currentBlob : Blob) : Nat → List (ProgramId × HyleOutput) → Attempt
  | _,[] => ([],none)
  | i,proof::proofs =>
      match processProof env contracts contractChanges currentBlob.contractName proof
          currentBlob with
      | .error msg =>
          let event := .settleEvent (s!"Could not settle blob proof output #{i} for "++
            s!"contract '{currentBlob.contractName}': {msg}")
          let (events,result) := tryProofs carryOn contractChanges currentBlob (i+1) proofs
          (event::events,result)
      | .ok currentContracts =>
          if ¬proof.2.success then
            ([.settleEvent (s!"Proven failure for blob {i} - "++
              env.debug.fromUtf8 proof.2.programOutputs)],some (.error ()))
          else
            match carryOn currentContracts i with
            | (events,some result) => (events,some result)
            | (before,none) =>
                let (events,result) := tryProofs carryOn contractChanges currentBlob (i+1) proofs
                (before++events,result)

def settleBlobsRecursively (contractChanges : ContractChanges) :
    List UnsettledBlobMetadata → List Nat → Attempt
  | [],blobProofOutputIndices => ([],some (.ok ⟨contractChanges,blobProofOutputIndices⟩))
  | currentBlob::blobs,blobProofOutputIndices =>
      if currentBlob.blob.contractName="hyle" then
        -- The contract has synthetic proofs, checked against the earlier blobs.
        match HyleTld.handleBlobForHyleTld env contracts contractChanges currentBlob.blob with
        | .ok contractChanges =>
            settleBlobsRecursively contractChanges blobs (blobProofOutputIndices++[0])
        | .error err =>
            ([.settleEvent (s!"Could not settle blob proof output for 'hyle': "++
              env.debug.error err)],some (.error ()))
      else
        tryProofs env contracts
          (fun changes i => settleBlobsRecursively changes blobs (blobProofOutputIndices++[i]))
          contractChanges currentBlob.blob 0 currentBlob.possibleProofs

end NodeState

end TruthSeeker
