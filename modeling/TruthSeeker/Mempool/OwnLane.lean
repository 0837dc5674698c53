import TruthSeeker.Mempool.LaneChanges

namespace TruthSeeker

open Outcome

/-- The transactions that wait for a data proposal, in the order of their arrival. They are told
apart by hash. -/
structure WaitingTxs (sha3 : Bytes → H256) where
  entries : List (TxHash × Transaction)
  keyed : ∀ entry∈entries,entry.1=entry.2.hashed sha3
  nodup : (entries.map Prod.fst).Nodup

namespace WaitingTxs

variable {sha3 : Bytes → H256}

def empty : WaitingTxs sha3 := ⟨[],by simp,List.nodup_nil⟩

def containsKey (self : WaitingTxs sha3) (hash : TxHash) : Prop := hash∈self.entries.map Prod.fst

instance {self : WaitingTxs sha3} {hash : TxHash} : Decidable (self.containsKey hash) :=
  inferInstanceAs (Decidable (hash∈_))

def insert (self : WaitingTxs sha3) (tx : Transaction)
    (h : ¬self.containsKey (tx.hashed sha3)) : WaitingTxs sha3 where
  entries := self.entries++[(tx.hashed sha3,tx)]
  keyed := by
    intro entry he
    obtain old|new := List.mem_append.mp he
    · exact self.keyed entry old
    · rw [List.mem_singleton.mp new]
  nodup := by
    rw [List.map_append]
    refine self.nodup.append (List.nodup_singleton _) ?_
    intro hash old new
    obtain rfl := List.mem_singleton.mp new
    exact h old

/-- The first `n` transactions leave. -/
def drain (self : WaitingTxs sha3) (n : Nat) : List Transaction × WaitingTxs sha3 :=
  ((self.entries.take n).map Prod.snd,
    { entries := self.entries.drop n
      keyed := fun entry he => self.keyed entry (List.mem_of_mem_drop he)
      nodup := self.nodup.sublist ((List.drop_sublist _ _).map _) })

end WaitingTxs

/-- A transaction that is being hashed, or whose proof is being verified. -/
inductive ProcessingTx where
  | hashing (tx : Transaction)
  | verifying (tx : Transaction)

/-- The mempool with the transactions that its own lane takes in. -/
structure OwnLane (sha3 : Bytes → H256) where
  mempool : Mempool
  /-- The tasks end in the order in which they were started. -/
  processingTxs : List ProcessingTx
  waitingDisseminationTxs : WaitingTxs sha3

namespace OwnLane

open Mempool

section Code
variable {PublicKey BlstSignature : Type} (env : MempoolEnv PublicKey BlstSignature)
variable (self : OwnLane env.sha3)

def new : OwnLane env.sha3 := ⟨Mempool.new,[],WaitingTxs.empty⟩

def verifiedProofTx (version : UInt32) (proofTx : ProofTransaction) (isRecursive : Bool)
    (programIds : List ProgramId) (hyleOutputs : List HyleOutput) : Transaction :=
  ⟨version,.verifiedProof
    { contractName := proofTx.contractName
      proof := some proofTx.proof
      proofHash := Transaction.proofHashed env.sha3 proofTx.proof
      proofSize := serializedSize (proofTx.contractName,proofTx.proof)
      provenBlobs := (hyleOutputs.zip programIds).map fun p => ⟨p.1.txHash,"todo?",p.1,p.2⟩
      isRecursive := isRecursive }⟩

/-- A proof transaction becomes one with the outputs that its proof attests. -/
def processProofTx (known : KnownContracts) (tx : Transaction) : Outcome Transaction :=
  match tx.transactionData with
  | .proof proofTx =>
      match known[proofTx.contractName]? with
      | none => err "Contract unknown"
      | some (verifier,programId) =>
          if isRecursive proofTx.contractName then
            match env.verifiers.verifyRecursiveProof proofTx.proof verifier programId with
            | .error _ => err "verify_rec_proof"
            | .ok (programIds,outputs) =>
                .ok (verifiedProofTx env tx.version proofTx true programIds outputs)
          else
            match env.verifiers.verifyProof proofTx.proof verifier programId with
            | .error _ => err "verify_proof"
            | .ok outputs =>
                .ok (verifiedProofTx env tx.version proofTx false
                  (outputs.map fun _ => programId) outputs)
  | _ => err "Can only process ProofTx"

/-- The transaction of a task that ends, with the contracts known when it ran. -/
def ProcessingTx.result (known : KnownContracts) : ProcessingTx → Outcome Transaction
  | .hashing tx => .ok tx
  | .verifying tx =>
      match processProofTx env known tx with
      | .error _ => err "Processing proof tx in blocker"
      | .ok tx => .ok tx

/-- The transaction is in the queue before its status is sent. -/
def queue (sent : Bool) (tx : Transaction) : Outcome Unit × OwnLane env.sha3 :=
  if h : self.waitingDisseminationTxs.containsKey (tx.hashed env.sha3) then (.ok (),self)
  else
    let next : OwnLane env.sha3 :=
      { self with waitingDisseminationTxs := self.waitingDisseminationTxs.insert tx h }
    if sent then (.ok (),next) else (err "Sending Status event for TX",next)

/-- A blob transaction also adds the contracts that it registers to those known to later
tasks. -/
def onNewTx (sent : Bool) (tx : Transaction) : Outcome Unit × OwnLane env.sha3 :=
  match tx.transactionData with
  | .blob blobTx =>
      if 20<blobTx.blobs.length then
        (err s!"Blob transaction has too many blobs: {blobTx.blobs.length}",self)
      else self.queue env sent tx
  | .proof _ => (.ok (),{ self with processingTxs := self.processingTxs++[.verifying tx] })
  | .verifiedProof _ => self.queue env sent tx

def onNewApiTx (tx : Transaction) : OwnLane env.sha3 :=
  { self with processingTxs := self.processingTxs++[.hashing tx] }

/-- The next task ends. -/
def onTxTask (known : KnownContracts) (sent : Bool) : Outcome Unit × OwnLane env.sha3 :=
  match self.processingTxs with
  | [] => (.ok (),self)
  | task::tasks =>
      let self := { self with processingTxs := tasks }
      match ProcessingTx.result env known task with
      | .error e => (.error e,self)
      | .ok tx => self.onNewTx env sent tx

/-- How many transactions a data proposal takes: it ends with the one that reaches the size
limit. -/
def collectedLen (cumulativeSize : UInt64) : List Transaction → Nat
  | [] => 0
  | tx::txs =>
      if cumulativeSize<40000000 then collectedLen (cumulativeSize+tx.estimateSize) txs+1 else 0

def prepareNewDataProposal : OwnLane env.sha3 :=
  let waiting := self.waitingDisseminationTxs
  if waiting.entries=[] ∨ self.mempool.ownDataProposalInPreparation≠[] then self
  else
    let (txs,rest) := waiting.drain (collectedLen 0 (waiting.entries.map Prod.snd))
    { self with
      mempool := self.mempool.prepareNewDataProposal env txs
      waitingDisseminationTxs := rest }

/-- The data proposal leaves its task. It is only stored if the task has not failed and the bus
takes the event of its creation. -/
def onDataProposalPrepared (joined sent : Bool) : OwnLane env.sha3 :=
  if joined ∧ sent then { self with mempool := (self.mempool.resumeNewDataProposal env).2 }
  else
    { self with mempool :=
        { self.mempool with
          ownDataProposalInPreparation := self.mempool.ownDataProposalInPreparation.tail } }

/-- What the loop of the mempool reacts to. The outcomes of the tasks and of the bus are part of
it. -/
inductive Event where
  | newApiTx (tx : Transaction)
  | txTaskEnded (known : KnownContracts) (sent : Bool)
  | newDpTimer
  | dataProposalPrepared (joined sent : Bool)
  | netMessage (sender : ValidatorPublicKey) (message : MempoolNetMessage)
  | dpTaskEnded (known : KnownContracts)
  | commitConsensusProposal (ccp : CommittedConsensusProposal)

/-- Errors are logged. What was done before them stays. -/
def step (self : OwnLane env.sha3) : Event → OwnLane env.sha3
  | .newApiTx tx => self.onNewApiTx env tx
  | .txTaskEnded known sent => (self.onTxTask env known sent).2
  | .newDpTimer => self.prepareNewDataProposal env
  | .dataProposalPrepared joined sent => self.onDataProposalPrepared env joined sent
  | .netMessage sender message =>
      { self with mempool := self.mempool.step env (.netMessage sender message) }
  | .dpTaskEnded known => { self with mempool := self.mempool.step env (.taskEnded known) }
  | .commitConsensusProposal ccp =>
      { self with mempool := self.mempool.step env (.commitConsensusProposal ccp) }

def run (events : List Event) : OwnLane env.sha3 := events.foldl (step env) (new env)

end Code

end OwnLane

end TruthSeeker
