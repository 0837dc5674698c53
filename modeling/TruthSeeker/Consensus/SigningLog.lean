import TruthSeeker.Consensus.Network

namespace TruthSeeker

open Outcome Borsh Bytes

/-- What a node tells a peer when it connects. -/
structure NodeConnectionData where
  version : UInt16
  name : String
  currentHeight : UInt64
  p2pPublicAddress : String
  daPublicAddress : String
  deriving DecidableEq

/-- Everything that a validator signs with its key, by kind. -/
inductive SignedMessage where
  | prepareVote (proposalHash : ConsensusProposalHash)
  | confirmAck (proposalHash : ConsensusProposalHash)
  | consensusTimeout (slot : Slot) (view : View) (parentHash : ConsensusProposalHash)
  | validatorCandidacy (candidacy : ValidatorCandidacy)
  | dataVote (dataProposalHash : DataProposalHash) (size : LaneBytesSize)
  | msgHeader (timestamp : U128) (hash : Bytes)
  | nodeConnectionData (data : NodeConnectionData)
  deriving DecidableEq

/-- The signed bytes of each kind. -/
def SignedMessage.encoded : SignedMessage → Outcome Bytes
  | .prepareVote h => toVec (h,(⟨⟩ : PrepareVoteMarker))
  | .confirmAck h => toVec (h,(⟨⟩ : ConfirmAckMarker))
  | .consensusTimeout slot view h => toVec (slot,view,h,(⟨⟩ : ConsensusTimeoutMarker))
  | .validatorCandidacy c => toVec c.peerAddress
  | .dataVote h size => toVec (h,size)
  | .msgHeader timestamp hash => toVec (timestamp,hash)
  | .nodeConnectionData d =>
      toVec (d.version,d.name,d.currentHeight,d.p2pPublicAddress,d.daPublicAddress)

/-- A number that counts bytes of the input cannot overlap the text of a hash: its high bytes
are zero. -/
theorem no_length_in_hash {head tail x : Bytes} {n i : Nat} (hx : x.length=64)
    (hz : ∀ b ∈ x,b≠0) (hn : n≤tail.length) (hi : i<4) (hk : 4≤head.length+i)
    (hlt : 68<256^i) (h : head++(ofNatLE 4 n++tail)=ofNatLE 4 64++x) : False := by
  have hl := congrArg List.length h
  simp only [List.length_append,length_ofNatLE] at hl
  have left : (head++(ofNatLE 4 n++tail))[head.length+i]?=some 0 := by
    rw [List.getElem?_append_right (by omega),Nat.add_sub_cancel_left,
      List.getElem?_append_left (by simpa using hi),getElem?_ofNatLE 4 n i hi,
      Nat.div_eq_of_lt (by omega)]
    rfl
  rw [h,List.getElem?_append_right (by simpa using hk)] at left
  exact hz 0 (List.mem_of_getElem? left) rfl

namespace SignedMessage

@[simp] theorem encoded_prepareVote (h : ConsensusProposalHash) :
    (prepareVote h).encoded=toVec h := toVec_marked h _ rfl

@[simp] theorem encoded_confirmAck (h : ConsensusProposalHash) :
    (confirmAck h).encoded=toVec h := toVec_marked h _ rfl

@[simp] theorem encoded_validatorCandidacy (c : ValidatorCandidacy) :
    (validatorCandidacy c).encoded=toVec c.peerAddress := rfl

theorem toVec_string_injective {s t : String} {bs : Bytes} (hs : toVec s=.ok bs)
    (ht : toVec t=.ok bs) : s=t :=
  ser_injective (toVec_eq_ok.mp hs) (toVec_eq_ok.mp ht)

/-- Besides the text of a digest itself, which three kinds of messages consist of, no message
has its bytes. -/
theorem encoded_eq_hash {m : SignedMessage} {digest : H256} {bs : Bytes}
    (hm : m.encoded=.ok bs) (hb : toVec (hex digest.toList)=.ok bs) :
    m=.prepareVote (hex digest.toList) ∨ m=.confirmAck (hex digest.toList) ∨
      m=.validatorCandidacy ⟨hex digest.toList⟩ := by
  obtain ⟨_,hbs⟩ := ser_string_eq_some (toVec_eq_ok.mp hb)
  obtain ⟨hx,hz⟩ := utf8_hex digest.toList
  rw [digest.length_toList] at hx
  rw [hx] at hbs
  cases m with
  | prepareVote h =>
    left
    rw [encoded_prepareVote] at hm
    rw [toVec_string_injective hm hb]
  | confirmAck h =>
    right; left
    rw [encoded_confirmAck] at hm
    rw [toVec_string_injective hm hb]
  | validatorCandidacy c =>
    right; right
    rw [encoded_validatorCandidacy] at hm
    rw [← toVec_string_injective hm hb]
  | consensusTimeout slot view h =>
    exfalso
    obtain ⟨s,ys,hs,hy,rfl⟩ := ser_prod_eq_some (toVec_eq_ok.mp hm)
    obtain ⟨v,zs,hv,hw,rfl⟩ := ser_prod_eq_some hy
    obtain ⟨t,us,ht,hu,rfl⟩ := ser_prod_eq_some hw
    obtain ⟨_,rfl⟩ := ser_string_eq_some ht
    obtain rfl := Option.some.inj hs
    obtain rfl := Option.some.inj hv
    rw [List.append_assoc (ofNatLE 4 _),← List.append_assoc (ofNatLE 8 _)] at hbs
    exact no_length_in_hash (i:=1) hx hz (by simp) (by omega) (by simp) (by omega) hbs
  | dataVote h size =>
    exfalso
    obtain ⟨s,ys,hs,hy,rfl⟩ := ser_prod_eq_some (toVec_eq_ok.mp hm)
    obtain ⟨hn,rfl⟩ := ser_string_eq_some hs
    obtain rfl := Option.some.inj hy
    have hl := congrArg List.length hbs
    rw [List.append_assoc] at hbs
    have hc : (utf8 h).length=2*32 := ofNatLE_injective 4 _ _ (by omega) (by omega)
      (List.append_inj_left hbs (by simp))
    simp only [List.length_append,length_ofNatLE] at hl
    rw [hc,hx] at hl
    omega
  | msgHeader timestamp hash =>
    exfalso
    obtain ⟨s,ys,hs,hy,rfl⟩ := ser_prod_eq_some (toVec_eq_ok.mp hm)
    obtain ⟨_,body,hbody,rfl⟩ := ser_list_eq_some hy
    rw [serItems_bytes] at hbody
    obtain rfl := Option.some.inj hbody
    obtain rfl := Option.some.inj hs
    exact no_length_in_hash (i:=1) hx hz le_rfl (by omega) (by simp) (by omega) hbs
  | nodeConnectionData d =>
    exfalso
    obtain ⟨s,ys,hs,hy,rfl⟩ := ser_prod_eq_some (toVec_eq_ok.mp hm)
    obtain ⟨t,us,ht,hu,rfl⟩ := ser_prod_eq_some hy
    obtain ⟨_,rfl⟩ := ser_string_eq_some ht
    obtain rfl := Option.some.inj hs
    rw [List.append_assoc] at hbs
    exact no_length_in_hash (i:=3) hx hz (by simp) (by omega) (by simp) (by omega) hbs

end SignedMessage

/-- The signatures made so far. -/
abbrev SigningLog := List (ValidatorPublicKey × SignedMessage)

def SigningLog.Signed (log : SigningLog) (v : ValidatorPublicKey) (encoded : Bytes) : Prop :=
  ∃ m,(v,m) ∈ log ∧ m.encoded=.ok encoded

namespace Blst

variable {PublicKey BlstSignature : Type}

/-- Aggregates verify for validators that all signed these very bytes, and for no others. -/
def Ideal (blst : Blst PublicKey BlstSignature)
    (signed : ValidatorPublicKey → Bytes → Prop) : Prop :=
  ∀ validators encoded,(∃ signature,blst.Verifies ⟨signature,validators⟩ encoded) ↔
    validators≠[] ∧ ∀ v ∈ validators,signed v encoded

/-- A scheme that looks its answers up in the list of the signatures made. An aggregate key is
the list of its keys, and the signature of a message is the message. -/
def ofSigned (signed : List (ValidatorPublicKey × Bytes)) :
    Blst (List ValidatorPublicKey) Bytes where
  uncompressKey v := .ok [v]
  compressKey := List.flatten
  uncompressSignature := .ok
  compressSignature := id
  aggregateKeys keys := if keys=[] then .error "BLST_AGGR_TYPE_MISMATCH" else .ok keys.flatten
  aggregateSignatures sigs :=
    match sigs with
    | [] => .error "BLST_AGGR_TYPE_MISMATCH"
    | sig::_ => .ok sig
  verify sig encoded keys := sig=encoded ∧ ∀ v ∈ keys,(v,encoded) ∈ signed

theorem ofSigned_keys (signed : List (ValidatorPublicKey × Bytes))
    (validators : List ValidatorPublicKey) :
    validators.mapM (ofSigned signed).parseKey=.ok (validators.map fun v => [v]) := by
  induction validators with
  | nil => rfl
  | cons v vs ih => rw [List.mapM_cons,ih]; rfl

theorem ofSigned_ideal (signed : List (ValidatorPublicKey × Bytes)) :
    (ofSigned signed).Ideal (fun v encoded => (v,encoded) ∈ signed) := by
  intro validators encoded
  have keys : ∀ pk,(ofSigned signed).aggregateValidatorsPk validators=.ok pk ↔
      validators≠[] ∧ validators=pk := by
    intro pk
    simp only [aggregateValidatorsPk,bind_eq_ok,ofSigned_keys,Except.ok.injEq,exists_eq_left',
      fromExcept_eq_ok]
    simp only [ofSigned,List.map_eq_nil_iff]
    split_ifs with h
    · simp [h]
    · simp [h,← List.flatMap_def]
  constructor
  · intro h
    obtain ⟨signature,pk,sig,hk,_,hv⟩ := h
    obtain ⟨hne,rfl⟩ := (keys pk).mp hk
    simp only [ofSigned,decide_eq_true_eq] at hv
    exact ⟨hne,hv.2⟩
  · intro h
    obtain ⟨hne,hs⟩ := h
    exact ⟨encoded,validators,encoded,(keys _).mpr ⟨hne,rfl⟩,rfl,by simpa [ofSigned] using hs⟩

end Blst

/-- The scheme in which exactly the signatures of the log verify. -/
def SigningLog.blst (log : SigningLog) : Blst (List ValidatorPublicKey) Bytes :=
  Blst.ofSigned (log.filterMap fun p => p.2.encoded.toOption.map fun encoded => (p.1,encoded))

theorem SigningLog.blst_ideal (log : SigningLog) : log.blst.Ideal log.Signed := by
  have same : log.Signed=fun v encoded => (v,encoded) ∈
      log.filterMap fun p => p.2.encoded.toOption.map fun encoded => (p.1,encoded) := by
    funext v encoded
    have toOption : ∀ m : SignedMessage,m.encoded.toOption=some encoded ↔
        m.encoded=.ok encoded := by
      intro m
      cases m.encoded <;> simp [Except.toOption]
    simp [Signed,toOption]
  rw [same]
  exact Blst.ofSigned_ideal _

end TruthSeeker
