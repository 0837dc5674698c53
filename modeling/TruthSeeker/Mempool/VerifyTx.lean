import TruthSeeker.Model.Actions
import TruthSeeker.Model.Transaction

namespace TruthSeeker

open Outcome

inductive DataProposalVerdict where
  | process
  | empty
  | wait
  | vote
  | refuse
  deriving DecidableEq

/-- The verifiers of the proving systems, with the outputs that a proof attests. -/
structure Verifiers where
  verifyProof : ProofData → Verifier → ProgramId → Except String (List HyleOutput)
  verifyRecursiveProof :
    ProofData → Verifier → ProgramId → Except String (List ProgramId × List HyleOutput)

abbrev KnownContracts := Std.ExtTreeMap ContractName (Verifier × ProgramId)

namespace Mempool

/-- The registration of the contract by a blob of the transaction. -/
def registration (contractName : ContractName) (blob : Blob) : Option (Verifier × ProgramId) :=
  if blob.contractName="hyle" then
    match BlobData.parse RegisterContractAction blob.data with
    | some reg =>
        if reg.contractName=contractName then some (reg.verifier,reg.programId) else none
    | none => none
  else none

/-- The verifier and program of a contract that earlier transactions of the proposal register. -/
def findContract (before : List Transaction) (contractName : ContractName) :
    Option (Verifier × ProgramId) :=
  before.findSome? fun tx =>
    match tx.transactionData with
    | .blob tx => tx.blobs.findSome? (registration contractName)
    | _ => none

def contractOf (known : KnownContracts) (before : List Transaction)
    (contractName : ContractName) : Option (Verifier × ProgramId) :=
  match known[contractName]? with
  | some found => some found
  | none => findContract before contractName

def isRecursive (contractName : ContractName) : Bool := contractName="risc0-recursion"

def recursiveMatches (programIds : List ProgramId) (outputs : List HyleOutput)
    (provenBlobs : List BlobProofOutput) : Bool :=
  ((programIds.zip outputs).zip provenBlobs).all fun p =>
    p.1.2=p.2.hyleOutput && p.1.1=p.2.programId

/-- Whether a verified proof lets its transaction pass. -/
def checkProofTx (verifiers : Verifiers) (known : KnownContracts) (before : List Transaction)
    (proofTx : VerifiedProofTransaction) : DataProposalVerdict :=
  match proofTx.proof with
  | none => .refuse
  | some proof =>
      match contractOf known before proofTx.contractName with
      | none => .refuse
      | some (verifier,programId) =>
          if isRecursive proofTx.contractName then
            match verifiers.verifyRecursiveProof proof verifier programId with
            | .error _ => .refuse
            | .ok (programIds,outputs) =>
                if programIds.length≠proofTx.provenBlobs.length ||
                    !recursiveMatches programIds outputs proofTx.provenBlobs then .refuse
                else .vote
          else
            match verifiers.verifyProof proof verifier programId with
            | .error _ => .refuse
            | .ok outputs =>
                -- Both conditions must fail for the proposal to be refused.
                if outputs.length≠proofTx.provenBlobs.length &&
                    (outputs.zip proofTx.provenBlobs).any (fun p => p.1≠p.2.hyleOutput) then
                  .refuse
                else .vote

def checkTx (verifiers : Verifiers) (known : KnownContracts) (before : List Transaction)
    (tx : Transaction) : DataProposalVerdict :=
  match tx.transactionData with
  | .blob _ => .vote
  | .proof _ => .refuse
  | .verifiedProof proofTx => checkProofTx verifiers known before proofTx

/-- The transactions in order, each with those before it. -/
def checkTxs (verifiers : Verifiers) (known : KnownContracts) (before : List Transaction) :
    List Transaction → DataProposalVerdict
  | [] => .vote
  | tx::txs =>
      match checkTx verifiers known before tx with
      | .vote => checkTxs verifiers known (before++[tx]) txs
      | verdict => verdict

def processDataProposal (verifiers : Verifiers) (known : KnownContracts)
    (dataProposal : DataProposal) : Outcome (DataProposalVerdict × DataProposal) :=
  match checkTxs verifiers known [] dataProposal.txs with
  | .vote => dataProposal.removeProofs.map fun stripped => (.vote,stripped)
  | verdict => .ok (verdict,dataProposal)

end Mempool

end TruthSeeker
