import TruthSeeker.NodeState.Queues

namespace TruthSeeker.NodeState

open OrderedTxMap

/-- The round settles the pending transaction as successful. -/
def SettlesAsSuccess (env : Environment) (work : Work) (bth : TxHash)
    (tx : UnsettledBlobTransaction) : Prop :=
  work.pending.get bth=some tx ∧
    ∃ result,(tryToSettleBlobTx env work.store bth tx).2=.ok (.ok result)

/-- No pending transaction that was sequenced earlier blocks a contract that this one blocks. -/
def Undisputed (order : List TxHash) (pending : OrderedTxMap) (bth : TxHash)
    (tx : UnsettledBlobTransaction) : Prop :=
  ∀ other earlier,pending.get other=some earlier → [other,bth].Sublist order →
    ∀ contract ∈ earlier.blockedContracts,contract∉tx.blockedContracts

/-- The transaction is also the first in the queues of the contracts that its blobs register
or delete. -/
def PayloadsFirst (pending : OrderedTxMap) (bth : TxHash) (tx : UnsettledBlobTransaction) :
    Prop :=
  ∀ metadata ∈ tx.blobValues,∀ contract ∈ metadata.blob.blockedContracts,
    contract≠metadata.blob.contractName → pending.getNextUnsettledTx contract=some bth

section Step
variable {env : Environment} {work : Work} {order : List TxHash} {bth : TxHash}
  {tx : UnsettledBlobTransaction}

/-- What the readiness test of a successful settlement has checked. -/
theorem SettlesAsSuccess.next (h : SettlesAsSuccess env work bth tx) :
    ∀ metadata ∈ tx.blobValues,
      work.pending.getNextUnsettledTx metadata.blob.contractName=some bth := by
  obtain ⟨ht,result,hr⟩ := h
  have next : work.pending.isNextToSettle bth=true := by
    by_contra hn
    unfold Work.pending at hn
    unfold tryToSettleBlobTx at hr
    split at hr
    · simp at hr
    · split at hr
      · simp at hr
      · simp at hr
      · simp at hr
  unfold isNextToSettle at next
  rw [ht] at next
  intro metadata hm
  simpa using List.all_eq_true.mp next metadata hm

/-- The order is kept for all blocked contracts exactly if the test would have passed for the
names in the payloads, which it leaves out. -/
theorem undisputed_iff (hq : Queued order work.pending)
    (h : SettlesAsSuccess env work bth tx) :
    Undisputed order work.pending bth tx ↔ PayloadsFirst work.pending bth tx := by
  have known : bth∈order := hq.known bth tx h.1
  have blocked : ∀ contract ∈ tx.blockedContracts,work.pending.blocks contract bth=true :=
    fun contract hc => blocks_eq_true.mpr ⟨tx,h.1,hc⟩
  constructor
  · intro hu metadata hm contract hc _
    obtain ⟨index,hi⟩ := tx.mem_blobValues.mp hm
    have mem : contract∈tx.blockedContracts :=
      tx.mem_blockedContracts.mpr ⟨index,metadata,hi,hc⟩
    apply (hq.head_eq_iff (blocked contract mem) known).mpr
    intro other ho hs
    obtain ⟨earlier,he,hb⟩ := blocks_eq_true.mp ho
    exact hu other earlier he hs contract hb mem
  · intro hp other earlier he hs contract hb hc
    obtain ⟨index,metadata,hi,hm⟩ := tx.mem_blockedContracts.mp hc
    have value := tx.mem_blobValues.mpr ⟨index,hi⟩
    have first : work.pending.getNextUnsettledTx contract=some bth := by
      by_cases own : contract=metadata.blob.contractName
      · rw [own]
        exact h.next metadata value
      · exact hp metadata value contract hm own
    exact (hq.head_eq_iff (blocked contract hc) known).mp first other
      (blocks_eq_true.mpr ⟨earlier,he,hb⟩) hs

end Step

/-- In the whole run, a transaction is settled as successful only before all later ones that
block one of its contracts. -/
def SettlesInOrder (env : Environment) (signedBlocks : List SignedBlock) : Prop :=
  ∀ moment ∈ moments env signedBlocks,∀ bth tx,moment.call=.settle bth →
    SettlesAsSuccess env moment.work bth tx →
    Undisputed moment.order moment.work.pending bth tx

/-- In the whole run, the transactions that are settled as successful are the first for all
names in their payloads. -/
def SettlesPayloadsFirst (env : Environment) (signedBlocks : List SignedBlock) : Prop :=
  ∀ moment ∈ moments env signedBlocks,∀ bth tx,moment.call=.settle bth →
    SettlesAsSuccess env moment.work bth tx → PayloadsFirst moment.work.pending bth tx

/-- A run settles in order exactly if this holds for the names in the payloads. -/
theorem settlesInOrder_iff (env : Environment) (signedBlocks : List SignedBlock) :
    SettlesInOrder env signedBlocks ↔ SettlesPayloadsFirst env signedBlocks := by
  have queued : ∀ moment ∈ moments env signedBlocks,Queued moment.order moment.work.pending :=
    (preserved_queued env fun _ => True).moments fun _ _ _ _ => trivial
  constructor
  · intro h moment hm bth tx hc hs
    exact (undisputed_iff (queued moment hm) hs).mp (h moment hm bth tx hc hs)
  · intro h moment hm bth tx hc hs
    exact (undisputed_iff (queued moment hm) hs).mpr (h moment hm bth tx hc hs)

namespace DeletedContract

open TwoContracts (register block)

def registerTx : BlobTransaction :=
  ⟨"hyle@hyle",[register "foo",register "bar",register "wallet"]⟩

/-- Waits for proofs of its two blobs. -/
def waiting : BlobTransaction := ⟨"alice@foo",[⟨"foo",[]⟩,⟨"bar",[]⟩]⟩

/-- Comes after the other one in the queue of `bar`. -/
def follower : BlobTransaction := ⟨"bob@bar",[⟨"bar",[]⟩]⟩

def deleteBlob : Blob :=
  ⟨"hyle",(Borsh.ser (⟨none,none,⟨"foo"⟩⟩ : StructuredBlobData DeleteContractAction)).getD []⟩

/-- Deletes a contract that the first transaction waits for. -/
def deletion : BlobTransaction := ⟨"hyli@wallet",[deleteBlob,⟨"wallet",[]⟩]⟩

def waitingDigest : H256 :=
  ByteVec.ofNat 32 0xa4e886f0211bedb26a002b71005875a134c5ff9742eacc6fe6addbfb793c1607

def waitingHash : TxHash := Bytes.hex waitingDigest.toList

def followerDigest : H256 :=
  ByteVec.ofNat 32 0xc57191fa17baae9b19640a5303bb317efbd461f13c09dabe07642e06e92cbf79

def followerHash : TxHash := Bytes.hex followerDigest.toList

def deletionDigest : H256 :=
  ByteVec.ofNat 32 0x2535f9e2d52762c492349efbec79eaa2f07a95c01ea3bb754c26a064bedfa905

def deletionHash : TxHash := Bytes.hex deletionDigest.toList

/-- The proof of the blob for the wallet. -/
def entry : BlobProofOutput where
  blobTxHash := deletionHash
  originalProofHash := ""
  hyleOutput := { TwoContracts.output with
    nextState := [1]
    identity := "hyli@wallet"
    index := 1
    txHash := deletionHash }
  programId := [1]

def proofTx : Transaction := ⟨1,.verifiedProof ⟨"wallet",none,"",0,[entry],false⟩⟩

def deletingBlock : SignedBlock :=
  block [⟨1,.blob registerTx⟩,⟨1,.blob waiting⟩,⟨1,.blob follower⟩,⟨1,.blob deletion⟩,proofTx]

def blobDigests : List (Bytes × H256) :=
  [(utf8 "hyle"++(register "foo").data,
    ByteVec.ofNat 32 0x54a930b17902efbb70102a504c95620b28f2fea6cb8f112599cd9201233556c6),
   (utf8 "hyle"++(register "bar").data,
    ByteVec.ofNat 32 0x9e300ad88c4313ba93cfea399f7df1b5e7ff7dbadf4d77eb338ac20c3bfbc892),
   (utf8 "hyle"++(register "wallet").data,
    ByteVec.ofNat 32 0xd8eddea7a27ddd5f6eeb01de8aaff4fcf248fd2cb0e1375ac2a1f21542c4bb91),
   (utf8 "hyle"++deleteBlob.data,
    ByteVec.ofNat 32 0x12395b19721b89bebe4e06b807920fcc49efea685e0d226d32514551d439fc3b),
   (utf8 "foo",
    ByteVec.ofNat 32 0x76d3bc41c9f588f7fcd0d5bf4718f8f84b1c41b20882703100b9eb9413807c01),
   (utf8 "bar",
    ByteVec.ofNat 32 0xcceefd7e0545bcf8b6d19f3b5750c8a3ee8350418877bc6fb12e32de28137355),
   (utf8 "wallet",
    ByteVec.ofNat 32 0xc556619ca552d66df148bc6e138132e68ca478f54f0e796b1da8fa836223bf1e)]

def txDigests : List (Bytes × H256) :=
  let sha3 := ByteVec.lookup blobDigests
  [(Transaction.preimage sha3 (.blob registerTx),
    ByteVec.ofNat 32 0xe57844d2bd9f3853f97e2d27ce24240e29c81a757b519ed545e3b2d4a6bf4293),
   (Transaction.preimage sha3 (.blob waiting),waitingDigest),
   (Transaction.preimage sha3 (.blob follower),followerDigest),
   (Transaction.preimage sha3 (.blob deletion),deletionDigest),
   (entry.hyleOutput.preimage sha3,
    ByteVec.ofNat 32 0xce63c2c7e021ea2ec981ba046779ccb19351912772aa532715e16d720ce06a46),
   (deletingBlock.consensusProposal.preimage,
    ByteVec.ofNat 32 0x152058c4aded5c45e6c5b36c46c22faa4172e1829870023dacbcce408221b1c4)]

def entryDigests : List (Bytes × H256) :=
  [(entry.preimage (ByteVec.lookup txDigests),
    ByteVec.ofNat 32 0x80e677a91ab7e0fd481e50ffb40af42c0b37946e9564469ca206991b2a135166)]

def proofDigests : List (Bytes × H256) :=
  [(Transaction.preimage (ByteVec.lookup (txDigests++entryDigests)) proofTx.transactionData,
    ByteVec.ofNat 32 0x01d501c57e5a68a70158c4195635ab100d5cbbddc63add6eadfe0c28a10ed5c9)]

/-- SHA3-256 at the byte strings that the block leads to. -/
def env : Environment :=
  let digests := blobDigests++txDigests++entryDigests++proofDigests
  { TwoContracts.env with sha3 := ByteVec.lookup digests }

/-- Whether the round settles a transaction as successful while an earlier one still waits for
the contract. -/
def disputes (contract : ContractName) (earlier : TxHash) (moment : Moment) : Bool :=
  match moment.call with
  | .settle bth =>
      match moment.work.pending.get bth with
      | none => false
      | some tx =>
          (match (tryToSettleBlobTx env moment.work.store bth tx).2 with
            | .ok (.ok _) => true
            | _ => false) &&
          moment.work.pending.blocks contract earlier &&
          decide (contract∈tx.blockedContracts) &&
          [earlier,bth].isSublist moment.order
  | _ => false

theorem disputes_deletingBlock :
    (moments env [deletingBlock]).any (disputes "foo" waitingHash)=true := by
  decide +kernel

theorem not_undisputed_of_disputes {contract : ContractName} {earlier : TxHash}
    {moment : Moment} (h : disputes contract earlier moment=true) :
    ∃ bth tx,moment.call=.settle bth ∧ SettlesAsSuccess env moment.work bth tx ∧
      ¬Undisputed moment.order moment.work.pending bth tx := by
  unfold disputes at h
  split at h
  · next bth hc =>
    split at h
    · cases h
    · next tx ht =>
      simp only [Bool.and_eq_true,decide_eq_true_eq,List.isSublist_iff_sublist] at h
      obtain ⟨⟨⟨success,blocked⟩,shared⟩,before⟩ := h
      split at success
      · next result hr =>
        obtain ⟨other,ho,hb⟩ := blocks_eq_true.mp blocked
        exact ⟨bth,tx,hc,⟨ht,result,hr⟩,fun hu => hu earlier other ho before contract hb shared⟩
      · cases success
  · cases h

end DeletedContract

open DeletedContract in
/-- A deletion is settled before a transaction that was waiting for the contract. -/
theorem not_settlesInOrder : ¬SettlesInOrder env [deletingBlock] := by
  intro h
  obtain ⟨moment,hm,hd⟩ := List.any_eq_true.mp disputes_deletingBlock
  obtain ⟨bth,tx,hc,hs,hu⟩ := not_undisputed_of_disputes hd
  exact hu (h moment hm bth tx hc hs)

end TruthSeeker.NodeState
