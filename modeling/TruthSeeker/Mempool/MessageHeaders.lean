import TruthSeeker.Crypto.Aggregation
import TruthSeeker.Mempool.LaneChanges
import TruthSeeker.P2p.MsgHeader

namespace TruthSeeker

open Outcome Borsh

def LaneEntryMetadata.layout : Layout LaneEntryMetadata
    (Option DataProposalHash × LaneBytesSize × List ValidatorDAG) where
  fields m := (m.parentDataProposalHash,m.cumulSize,m.signatures)
  make := fun (parentDataProposalHash,cumulSize,signatures) =>
    ⟨parentDataProposalHash,cumulSize,signatures⟩
  make_fields _ := rfl

instance : Borsh LaneEntryMetadata := LaneEntryMetadata.layout.borsh
instance : LawfulBorsh LaneEntryMetadata := LaneEntryMetadata.layout.lawful

namespace MempoolNetMessage

section Code
variable (sha3 : Bytes → H256)

/-- `borsh::to_vec(..).unwrap_or_default()` -/
def toVecOrDefault {T : Type} [Borsh T] (value : T) : Bytes := (ser value).getD []

/-- Each kind of message has its own selection of its fields. -/
def toHeaderSignableData : MempoolNetMessage → Bytes
  -- Only the hash is signed: who receives the data proposal checks that it is correct.
  | .dataProposal hash _ => utf8 hash
  | .dataVote vdag => toVecOrDefault vdag.msg
  | .podaUpdate _ vdags => toVecOrDefault vdags
  | .syncRequest fromHash toHash => utf8 (fromHash.getD "")++utf8 (toHash.getD "")
  | .syncReply metadata dp => toVecOrDefault metadata++utf8 (dp.hashed sha3)

/-- The same kind of message with the same fields, up to the transactions of a data proposal. -/
def SameFields : MempoolNetMessage → MempoolNetMessage → Prop
  | .dataProposal hash _,.dataProposal hash' _ => hash=hash'
  | .dataVote vdag,.dataVote vdag' => vdag=vdag'
  | .podaUpdate hash signatures,.podaUpdate hash' signatures' =>
      hash=hash' ∧ signatures=signatures'
  | .syncRequest fromHash toHash,.syncRequest fromHash' toHash' =>
      fromHash=fromHash' ∧ toHash=toHash'
  | .syncReply metadata dp,.syncReply metadata' dp' =>
      metadata=metadata' ∧ dp.hashed sha3=dp'.hashed sha3
  | _,_ => False

end Code

/-- Bytes that are neither a text, nor what a vote signs, nor a list of votes: no message but a
reply is signed on them. -/
structure OnlyReplies (data : Bytes) : Prop where
  text : ∀ s,utf8 s≠data
  vote : ∀ (hash : DataProposalHash) (size : LaneBytesSize),ser (hash,size)≠some data
  votes : ∀ vdags : List ValidatorDAG,ser vdags≠some data

variable {sha3 : Bytes → H256} {data : Bytes}

theorem OnlyReplies.ser_eq_some {T : Type} [Borsh T] {value : T} (h : OnlyReplies data)
    (hd : toVecOrDefault value=data) : ser value=some data := by
  unfold toVecOrDefault at hd
  cases hs : ser value with
  | none =>
    rw [hs] at hd
    exact absurd hd (h.text "")
  | some bytes =>
    rw [hs] at hd
    exact congrArg some hd

/-- The metadata of a reply end where its hash starts. -/
theorem OnlyReplies.exists_reply (h : OnlyReplies data) {m : MempoolNetMessage}
    (hd : m.toHeaderSignableData sha3=data) : ∃ metadata dp bytes,m=.syncReply metadata dp ∧
      ser metadata=some bytes ∧ bytes++utf8 (dp.hashed sha3)=data := by
  cases m with
  | dataProposal hash dp => exact absurd hd (h.text hash)
  | dataVote vdag => exact absurd (h.ser_eq_some hd) (h.vote vdag.msg.1 vdag.msg.2)
  | podaUpdate hash vdags => exact absurd (h.ser_eq_some hd) (h.votes vdags)
  | syncRequest fromHash toHash =>
    have joined : utf8 (fromHash.getD ""++toHash.getD "")=data := (utf8_append _ _).trans hd
    exact absurd joined (h.text _)
  | syncReply metadata dp =>
    have hd : (ser metadata).getD []++utf8 (dp.hashed sha3)=data := hd
    cases hs : ser metadata with
    | none =>
      rw [hs] at hd
      exact absurd hd (h.text (dp.hashed sha3))
    | some bytes =>
      rw [hs] at hd
      exact ⟨metadata,dp,bytes,rfl,hs,hd⟩

theorem OnlyReplies.sameFields (h : OnlyReplies data) {m m' : MempoolNetMessage}
    (hm : m.toHeaderSignableData sha3=data) (hm' : m'.toHeaderSignableData sha3=data) :
    SameFields sha3 m m' := by
  obtain ⟨metadata,dp,bytes,rfl,hs,hd⟩ := h.exists_reply hm
  obtain ⟨metadata',dp',bytes',rfl,hs',hd'⟩ := h.exists_reply hm'
  obtain ⟨same,rest⟩ := ser_append_inj hs hs' (hd.trans hd'.symm)
  exact ⟨same,utf8_injective rest⟩

/-- Two messages with the same signed bytes that differ, for bytes of each other form. -/
theorem onlyReplies_of_sameFields
    (h : ∀ m m' : MempoolNetMessage,m.toHeaderSignableData sha3=data →
      m'.toHeaderSignableData sha3=data → SameFields sha3 m m') : OnlyReplies data where
  text s hs := by
    have asked : toHeaderSignableData sha3 (.syncRequest (some s) none)=data := by
      change utf8 s++utf8 ""=data
      rw [← utf8_append,String.append_empty,hs]
    exact h (.dataProposal s ⟨none,[]⟩) (.syncRequest (some s) none) hs asked
  vote hash size hs := by
    have voted : ∀ v : ValidatorPublicKey,
        toHeaderSignableData sha3 (.dataVote ⟨(hash,size),⟨[],v⟩⟩)=data := by
      intro v
      simp [toHeaderSignableData,toVecOrDefault,hs]
    have same := h (.dataVote ⟨(hash,size),⟨[],[1]⟩⟩) (.dataVote ⟨(hash,size),⟨[],[2]⟩⟩)
      (voted [1]) (voted [2])
    cases same
  votes vdags hs := by
    have updated : ∀ hash,toHeaderSignableData sha3 (.podaUpdate hash vdags)=data := by
      intro hash
      simp [toHeaderSignableData,toVecOrDefault,hs]
    have same := h (.podaUpdate "a" vdags) (.podaUpdate "b" vdags) (updated "a") (updated "b")
    exact absurd same.1 (by decide)

end MempoolNetMessage

open MempoolNetMessage P2p

section
variable {PublicKey BlstSignature : Type}

/-- All messages that are accepted under the header are the same. -/
def HeaderBinds (sha3 : Bytes → H256) (blst : Blst PublicKey BlstSignature)
    (debug : MempoolNetMessage → String) (now : TimestampMs)
    (header : SignedByValidator MsgHeader) : Prop :=
  let _ : IntoHeaderSignableData MempoolNetMessage := ⟨toHeaderSignableData sha3⟩
  ∀ m m',verifyMsgHeader blst debug now ⟨header,m⟩=.ok () →
    verifyMsgHeader blst debug now ⟨header,m'⟩=.ok () → SameFields sha3 m m'

/-- A header that passes binds its message exactly when it can only be that of a reply. -/
theorem headerBinds_iff {sha3 : Bytes → H256} {blst : Blst PublicKey BlstSignature}
    {debug : MempoolNetMessage → String} {now : TimestampMs}
    {header : SignedByValidator MsgHeader} : HeaderBinds sha3 blst debug now header ↔
      (HeaderPasses blst now header → OnlyReplies header.msg.hash) := by
  unfold HeaderBinds
  simp only [verifyMsgHeader_eq_ok]
  constructor
  · intro binds passes
    exact onlyReplies_of_sameFields fun m m' hm hm' =>
      binds m m' ⟨passes,hm.symm⟩ ⟨passes,hm'.symm⟩
  · rintro only m m' ⟨passes,hm⟩ ⟨_,hm'⟩
    exact (only passes).sameFields hm.symm hm'.symm

end

namespace RelayedHeader

/-- The bytes of a reply with the first data proposal of a lane of 200 bytes. -/
def replyData : Bytes :=
  toHeaderSignableData Mempool.SmallLanes.sha3 (.syncReply ⟨none,200,[]⟩ Mempool.SmallLanes.first)

example : OnlyReplies replyData where
  text s hs := by
    have read := fromUTF8_utf8 s
    have unreadable : String.fromUTF8? ⟨replyData.toArray⟩=none := by decide +kernel
    rw [hs,unreadable] at read
    cases read
  vote hash size hs := by
    have unreadable : fromSlice (DataProposalHash × LaneBytesSize) replyData=none := by
      decide +kernel
    rw [fromSlice_ser hs] at unreadable
    cases unreadable
  votes vdags hs := by
    have unreadable : fromSlice (List ValidatorDAG) replyData=none := by decide +kernel
    rw [fromSlice_ser hs] at unreadable
    cases unreadable

/-- The header that validator 1 sends with its first data proposal. -/
def header : SignedByValidator MsgHeader :=
  let msg : MsgHeader := ⟨0,utf8 Mempool.SmallLanes.firstHash⟩
  ⟨msg,⟨(ser msg).getD [],[1]⟩⟩

end RelayedHeader

open RelayedHeader in
/-- A relayer makes a request in the name of the validator out of the announcement of its data
proposal. -/
theorem not_headerBinds_announcement :
    ¬HeaderBinds Mempool.SmallLanes.sha3 (Blst.ofVoters fun _ _ => true) (fun _ => "") 0
      header := by
  intro binds
  have passes : HeaderPasses (Blst.ofVoters fun _ _ => true) 0 header := by
    unfold HeaderPasses
    decide +kernel
  exact (headerBinds_iff.mp binds passes).text Mempool.SmallLanes.firstHash rfl

end TruthSeeker
