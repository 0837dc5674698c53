import TruthSeeker.Consensus.State
import TruthSeeker.Mempool.LanesStorage
import TruthSeeker.Mempool.VerifyTx

namespace TruthSeeker

open Outcome

inductive MempoolNetMessage where
  | dataProposal (hash : DataProposalHash) (dataProposal : DataProposal)
  | dataVote (vdag : ValidatorDAG)
  | podaUpdate (hash : DataProposalHash) (signatures : List ValidatorDAG)
  | syncRequest (fromHash toHash : Option DataProposalHash)
  | syncReply (metadata : LaneEntryMetadata) (dataProposal : DataProposal)
  deriving DecidableEq

/-- What the mempool hands to the network. -/
inductive OutboundMessage where
  | send (validator : ValidatorPublicKey) (message : MempoolNetMessage)
  | broadcast (message : MempoolNetMessage)
  deriving DecidableEq

/-- A data proposal whose hash is being computed, or whose transactions are being verified. -/
inductive ProcessingDp where
  | hashing (laneId : LaneId) (receivedHash : DataProposalHash) (dataProposal : DataProposal)
  | processing (laneId : LaneId) (dataProposal : DataProposal)

/-- A vote is cached under its lane and data proposal. -/
def cachedDpCmp : LaneId × DataProposalHash → LaneId × DataProposalHash → Ordering :=
  compareLex (compareOn Prod.fst) (compareOn Prod.snd)

instance : Std.TransCmp cachedDpCmp := inferInstanceAs (Std.TransCmp (compareLex _ _))

structure Mempool where
  lanes : LanesStorage
  ownDataProposalInPreparation : List DataProposal
  /-- The data proposals of a lane whose parents are not known, in the order of arrival. -/
  bufferedProposals : Std.ExtTreeMap LaneId (List DataProposal)
  bufferedPodas :
    Std.ExtTreeMap LaneId (Std.ExtTreeMap DataProposalHash (List (List ValidatorDAG)))
  /-- The tasks end in the order in which they were started. -/
  processingDps : List ProcessingDp
  cachedDpVotes : Std.ExtTreeMap (LaneId × DataProposalHash) DataProposalVerdict cachedDpCmp
  lastCcp : Option CommittedConsensusProposal
  staking : Staking
  /-- Everything sent so far. -/
  bus : List OutboundMessage

/-- What the functions of the mempool call and do not change. -/
structure MempoolEnv (PublicKey BlstSignature : Type) where
  sha3 : Bytes → H256
  verifiers : Verifiers
  crypto : BlstCrypto PublicKey BlstSignature

namespace Mempool

def new : Mempool :=
  { lanes := LanesStorage.empty
    ownDataProposalInPreparation := []
    bufferedProposals := ∅
    bufferedPodas := ∅
    processingDps := []
    cachedDpVotes := ∅
    lastCcp := none
    staking := Staking.new
    bus := [] }

/-- A lane is named after its operator. -/
def getLane (validator : ValidatorPublicKey) : LaneId := validator

def getLaneOperator (laneId : LaneId) : ValidatorPublicKey := laneId

section
variable (self : Mempool)

def sendNetMessage (validator : ValidatorPublicKey) (message : MempoolNetMessage) : Mempool :=
  { self with bus := self.bus++[.send validator message] }

def broadcastNetMessage (message : MempoolNetMessage) : Mempool :=
  { self with bus := self.bus++[.broadcast message] }

def sendSyncRequest (laneId : LaneId) (fromHash toHash : Option DataProposalHash) : Mempool :=
  self.sendNetMessage laneId (.syncRequest fromHash toHash)

def cacheVerdict (laneId : LaneId) (hash : DataProposalHash) (verdict : DataProposalVerdict) :
    Mempool :=
  { self with cachedDpVotes := self.cachedDpVotes.insert (laneId,hash) verdict }

def spawn (task : ProcessingDp) : Mempool :=
  { self with processingDps := self.processingDps++[task] }

def withLanes (lanes : LanesStorage) : Mempool := { self with lanes := lanes }

/-- The lane and the verdict, with the size of the lane for a vote. -/
def getVerdict (sha3 : Bytes → H256) (laneId : LaneId) (dataProposal : DataProposal) :
    DataProposalVerdict × Option LaneBytesSize :=
  if dataProposal.txs=[] then (.empty,none)
  else
    let dpHash := dataProposal.hashed sha3
    if self.lanes.contains laneId dpHash then
      (.vote,some (self.lanes.getLaneSizeAt laneId dpHash))
    else
      match self.lanes.canBePutOnTop laneId dataProposal.parentDataProposalHash with
      | .no => (.wait,none)
      | .yes => (.process,none)
      | .fork => (.refuse,none)

/-- A set that keeps the order of its first insertions, with data proposals told apart by
hash. -/
def bufferProposal (sha3 : Bytes → H256) (laneId : LaneId) (dataProposal : DataProposal) :
    Mempool :=
  let buffered := self.bufferedProposals.getD laneId []
  let dpHash := dataProposal.hashed sha3
  let next :=
    if buffered.any (fun dp => dp.hashed sha3=dpHash) then buffered
    else buffered++[dataProposal]
  { self with bufferedProposals := self.bufferedProposals.insert laneId next }

/-- Takes out a buffered data proposal, whose place the last one takes. -/
def swapRemove (buffered : List DataProposal) (i : Nat) : List DataProposal :=
  match buffered.getLast? with
  | none => buffered
  | some last => (buffered.set i last).dropLast

/-- The first buffered child of a data proposal. -/
def takeBufferedChild (laneId : LaneId) (hash : DataProposalHash) :
    Option DataProposal × Mempool :=
  match self.bufferedProposals[laneId]? with
  | none => (none,self)
  | some buffered =>
      match buffered.findIdx? (fun dp => dp.parentDataProposalHash=some hash) with
      | none => (none,self)
      | some i =>
          let next := self.bufferedProposals.insert laneId (swapRemove buffered i)
          (buffered[i]?,{ self with bufferedProposals := next })

/-- Signatures for a data proposal that is not stored wait for it. -/
def onPodaUpdate (laneId : LaneId) (dataProposalHash : DataProposalHash)
    (podas : List ValidatorDAG) : Mempool :=
  match self.lanes.addSignatures laneId dataProposalHash podas with
  | (.ok _,lanes) => self.withLanes lanes
  | (.error _,lanes) =>
      let lane := self.bufferedPodas.getD laneId ∅
      let waiting := lane.getD dataProposalHash []++[podas]
      { self with
        lanes := lanes
        bufferedPodas := self.bufferedPodas.insert laneId (lane.insert dataProposalHash waiting) }

/-- The signatures that waited for a data proposal, the last ones first. The data proposal is
stored by now, so none of them is put back. -/
def processBufferedPodas (laneId : LaneId) (hash : DataProposalHash) : Mempool :=
  match self.bufferedPodas[laneId]? with
  | none => self
  | some lane =>
      let taken : Mempool :=
        { self with bufferedPodas := self.bufferedPodas.insert laneId (lane.insert hash []) }
      (lane.getD hash []).reverse.foldl (fun self podas => self.onPodaUpdate laneId hash podas)
        taken

/-- The block under construction is left out: it does not depend on what the lanes hold. -/
def updateLastCcp (ccp : CommittedConsensusProposal) : Mempool :=
  match self.lastCcp with
  | none => { self with lastCcp := some ccp }
  | some last =>
      if ccp.consensusProposal.slot≤last.consensusProposal.slot then self
      else { self with lastCcp := some ccp }

end

def findLane (cut : Cut) (laneId : LaneId) :
    Option (LaneId × DataProposalHash × LaneBytesSize × PoDA) :=
  cut.find? fun entry => entry.1=laneId

section Code
variable {PublicKey BlstSignature : Type} (env : MempoolEnv PublicKey BlstSignature)
variable (self : Mempool)

def ownLaneId : LaneId := env.crypto.validatorPubkey

def sendVote (validator : ValidatorPublicKey) (dataProposalHash : DataProposalHash)
    (size : LaneBytesSize) : Outcome Unit × Mempool :=
  match env.crypto.sign (dataProposalHash,size) with
  | .error e => (.error e,self)
  | .ok vdag => (.ok (),self.sendNetMessage validator (.dataVote vdag))

/-- A cached verdict is trusted for the hash that the message states. -/
def onDataProposal (laneId : LaneId) (receivedHash : DataProposalHash)
    (dataProposal : DataProposal) : Outcome Unit × Mempool :=
  match self.cachedDpVotes[(laneId,receivedHash)]? with
  | some .empty => (.ok (),self)
  | some .refuse => (.ok (),self)
  | some .process => (.ok (),self)
  | some .vote =>
      self.sendVote env (getLaneOperator laneId) receivedHash
        (self.lanes.getLaneSizeAt laneId receivedHash)
  | some .wait => (.ok (),self.spawn (.hashing laneId receivedHash dataProposal))
  | none => (.ok (),self.spawn (.hashing laneId receivedHash dataProposal))

def onHashedDataProposal (laneId : LaneId) (dataProposal : DataProposal) :
    Outcome Unit × Mempool :=
  let dataProposalHash := dataProposal.hashed env.sha3
  let (verdict,laneSize) := self.getVerdict env.sha3 laneId dataProposal
  let self := self.cacheVerdict laneId dataProposalHash verdict
  match verdict with
  | .empty => (.ok (),self)
  | .vote => self.sendVote env (getLaneOperator laneId) dataProposalHash (laneSize.getD 0)
  | .process => (.ok (),self.spawn (.processing laneId dataProposal))
  | .wait => (.ok (),self.bufferProposal env.sha3 laneId dataProposal)
  | .refuse => (.ok (),self)

/-- The buffered signatures and the buffered child of a data proposal that is stored now. -/
def onStoredDataProposal (laneId : LaneId) (hash : DataProposalHash) :
    Outcome Unit × Mempool :=
  match (self.processBufferedPodas laneId hash).takeBufferedChild laneId hash with
  | (none,self) => (.ok (),self)
  | (some dp,self) => self.onHashedDataProposal env laneId dp

/-- The verdict is cached before the data proposal is stored. -/
def onProcessedDataProposal (laneId : LaneId) (verdict : DataProposalVerdict)
    (dataProposal : DataProposal) : Outcome Unit × Mempool :=
  let self := self.cacheVerdict laneId (dataProposal.hashed env.sha3) verdict
  match verdict with
  | .vote =>
      match self.lanes.storeDataProposal env.sha3 env.crypto laneId dataProposal with
      | (.error e,lanes) => (.error e,self.withLanes lanes)
      | (.ok (hash,size),lanes) =>
          match (self.withLanes lanes).sendVote env (getLaneOperator laneId) hash size with
          | (.error e,self) => (.error e,self)
          | (.ok (),self) => self.onStoredDataProposal env laneId hash
  | .refuse => (.ok (),self)
  | _ => (Outcome.panic "internal error: entered unreachable code",self)

/-- The next task ends, with the contracts known when it ran. -/
def onTask (known : KnownContracts) : Outcome Unit × Mempool :=
  match self.processingDps with
  | [] => (.ok (),self)
  | task::tasks =>
      let self := { self with processingDps := tasks }
      match task with
      | .hashing laneId receivedHash dp =>
          if dp.hashed env.sha3=receivedHash then self.onHashedDataProposal env laneId dp
          else
            (err ("Received DataProposal with wrong hash: expected "++
              s!"{LanesStorage.debugHash receivedHash}, got "++
              LanesStorage.debugHash (dp.hashed env.sha3)),self)
      | .processing laneId dp =>
          match processDataProposal env.verifiers known dp with
          | .error e => (.error e,self)
          | .ok (verdict,dp) => self.onProcessedDataProposal env laneId verdict dp

def onDataVote (vdag : ValidatorDAG) : Outcome Unit × Mempool :=
  match self.lanes.addSignatures (ownLaneId env) vdag.msg.1 [vdag] with
  | (.error e,lanes) => (.error e,self.withLanes lanes)
  | (.ok signatures,lanes) =>
      let self := self.withLanes lanes
      let validators := signatures.map fun s => s.signature.validator
      let oldVotingPower := self.staking.computeVotingPower
        (validators.filter fun v => v≠vdag.signature.validator)
      let newVotingPower := self.staking.computeVotingPower validators
      let f := self.staking.computeF
      -- Only when the power reaches f or 2f, or exceeds 3f.
      if (oldVotingPower<f ∧ f≤newVotingPower) ∨
          (oldVotingPower<2*f ∧ 2*f≤newVotingPower) ∨ 3*f<newVotingPower then
        (.ok (),self.broadcastNetMessage (.podaUpdate vdag.msg.1 signatures))
      else (.ok (),self)

/-- The waiting data proposals of a lane are processed again, up to the first error. -/
def retryProposals (laneId : LaneId) : List DataProposal → Mempool → Outcome Unit × Mempool
  | [],self => (.ok (),self)
  | wp::wps,self =>
      if self.lanes.contains laneId (wp.hashed env.sha3) then retryProposals laneId wps self
      else
        match self.onDataProposal env laneId (wp.hashed env.sha3) wp with
        | (.error e,self) => (.error e,self)
        | (.ok (),self) => retryProposals laneId wps self

/-- The operator of the lane is taken to have signed an entry that names its key. -/
def signedByOperator (sha3 : Bytes → H256) (sender : ValidatorPublicKey)
    (metadata : LaneEntryMetadata) (dataProposal : DataProposal) : Bool :=
  metadata.signatures.any fun s =>
    s.signature.validator=sender ∧ s.msg=(dataProposal.hashed sha3,metadata.cumulSize)

def onSyncReply (sender : ValidatorPublicKey) (metadata : LaneEntryMetadata)
    (dataProposal : DataProposal) : Outcome Unit × Mempool :=
  if signedByOperator env.sha3 sender metadata dataProposal then
    let self := self.withLanes
      (self.lanes.putNoVerification env.sha3 sender (metadata,dataProposal))
    match self.bufferedProposals[sender]? with
    | none => (.ok (),self)
    | some waiting =>
        retryProposals env sender waiting
          { self with bufferedProposals := self.bufferedProposals.insert sender [] }
  else
    (err ("At least one lane entry is missing signature from "++
      ValidatorPublicKey.display sender),self)

/-- The hash of a lane in the previous cut. -/
def previousHash (previousCut : Option Cut) (laneId : LaneId) : Option DataProposalHash :=
  (previousCut.bind fun cut => findLane cut laneId).map fun entry => entry.2.1

/-- Requests all data proposals between the previous cut and the new one. -/
def cleanAndUpdateLanes (previousCut : Option Cut) : Cut → Mempool → Outcome Unit × Mempool
  | [],self => (.ok (),self)
  | (laneId,dataProposalHash,cumulSize,_)::cut,self =>
      if self.lanes.contains laneId dataProposalHash then
        cleanAndUpdateLanes previousCut cut self
      else
        let previous := previousHash previousCut laneId
        if previous=some dataProposalHash then cleanAndUpdateLanes previousCut cut self
        else
          match self.lanes.cleanAndUpdateLane env.sha3 laneId previous dataProposalHash
              cumulSize with
          | (.error e,lanes) => (.error e,self.withLanes lanes)
          | (.ok (),lanes) =>
              cleanAndUpdateLanes previousCut cut
                ((self.withLanes lanes).sendSyncRequest laneId previous (some dataProposalHash))

def onCommitConsensusProposal (ccp : CommittedConsensusProposal) : Outcome Unit × Mempool :=
  let previousCut := self.lastCcp.map fun last => last.consensusProposal.cut
  cleanAndUpdateLanes env previousCut ccp.consensusProposal.cut
    ({ self with staking := ccp.staking }.updateLastCcp ccp)

/-- One data proposal at a time is prepared from the transactions that wait. -/
def prepareNewDataProposal (txs : List Transaction) : Mempool :=
  if txs=[] ∨ self.ownDataProposalInPreparation≠[] then self
  else
    { self with ownDataProposalInPreparation :=
        [⟨self.lanes.getLaneHashTip (ownLaneId env),txs⟩] }

def resumeNewDataProposal : Outcome Unit × Mempool :=
  match self.ownDataProposalInPreparation with
  | [] => (.ok (),self)
  | dp::dps =>
      let self := { self with ownDataProposalInPreparation := dps }
      match self.lanes.storeDataProposal env.sha3 env.crypto (ownLaneId env) dp with
      | (.error e,lanes) => (.error e,self.withLanes lanes)
      | (.ok _,lanes) => (.ok (),self.withLanes lanes)

/-- What the mempool reacts to. The header of a message is signed by its sender. -/
inductive Event where
  | netMessage (sender : ValidatorPublicKey) (message : MempoolNetMessage)
  | taskEnded (known : KnownContracts)
  | commitConsensusProposal (ccp : CommittedConsensusProposal)
  | newDpTimer (txs : List Transaction)
  | ownDataProposalPrepared

def handleNetMessage (sender : ValidatorPublicKey) : MempoolNetMessage → Outcome Unit × Mempool
  | .dataProposal hash dp => self.onDataProposal env (getLane sender) hash dp
  | .dataVote vdag => self.onDataVote env vdag
  | .podaUpdate hash signatures => (.ok (),self.onPodaUpdate (getLane sender) hash signatures)
  -- Another task builds the replies. It reads the storage only.
  | .syncRequest _ _ => (.ok (),self)
  | .syncReply metadata dp => self.onSyncReply env sender metadata dp

/-- Errors are logged. What was done before them stays. -/
def step (self : Mempool) : Event → Mempool
  | .netMessage sender message => (self.handleNetMessage env sender message).2
  | .taskEnded known => (self.onTask env known).2
  | .commitConsensusProposal ccp => (self.onCommitConsensusProposal env ccp).2
  | .newDpTimer txs => self.prepareNewDataProposal env txs
  | .ownDataProposalPrepared => (self.resumeNewDataProposal env).2

def run (events : List Event) : Mempool := events.foldl (step env) new

end Code

end Mempool

end TruthSeeker
