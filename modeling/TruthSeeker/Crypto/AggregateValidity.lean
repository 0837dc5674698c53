import TruthSeeker.Crypto.Aggregation

namespace TruthSeeker

open Outcome

variable {PublicKey BlstSignature T : Type}

namespace Blst

/-- The aggregate of one key is that key, and a key under which a signature verifies is valid and
can be aggregated. -/
structure AggregatesAlone (blst : Blst PublicKey BlstSignature) : Prop where
  same : ∀ pk single,blst.aggregateKeys [pk]=.ok single → single=pk
  verifying : ∀ pk sig encoded,blst.verify sig encoded pk=true → blst.aggregateKeys [pk]=.ok pk

variable {blst : Blst PublicKey BlstSignature}

theorem AggregatesAlone.aggregateValidatorsPk (h : blst.AggregatesAlone)
    {v : ValidatorPublicKey} {single : PublicKey} (hs : blst.aggregateValidatorsPk [v]=.ok single) :
    blst.uncompressKey v=.ok single := by
  obtain ⟨keys,parsed,aggregated⟩ := bind_eq_ok.mp hs
  rw [List.mapM_cons] at parsed
  obtain ⟨pk,hp,rest⟩ := bind_eq_ok.mp parsed
  rw [List.mapM_nil] at rest
  obtain rfl : [pk]=keys := pure_eq_ok.mp rest
  obtain rfl := h.same _ _ (fromExcept_eq_ok.mp aggregated)
  exact parseKey_eq_ok.mp hp

/-- An aggregate of one validator verifies exactly if its signature does. -/
theorem AggregatesAlone.verifyAggregate_singleton (h : blst.AggregatesAlone) [Borsh T] {msg : T}
    {signature : ValidatorSignature} :
    blst.verifyAggregate ⟨msg,⟨signature.signature,[signature.validator]⟩⟩=.ok true ↔
      blst.verifySigned ⟨msg,signature⟩=.ok true := by
  rw [verifyAggregate_eq_ok_true,verifySigned_eq_ok_true]
  constructor
  · rintro ⟨encoded,he,pk,sig,hk,hs,verified⟩
    exact ⟨pk,sig,encoded,h.aggregateValidatorsPk hk,parseSignature_eq_ok.mp hs,he,verified⟩
  · rintro ⟨pk,sig,encoded,hk,hs,he,verified⟩
    refine ⟨encoded,he,pk,sig,?_,parseSignature_eq_ok.mpr hs,verified⟩
    have parsed : [signature.validator].mapM blst.parseKey=.ok [pk] := by
      rw [List.mapM_cons,parseKey_eq_ok.mpr hk]
      rfl
    exact bind_eq_ok.mpr ⟨[pk],parsed,fromExcept_eq_ok.mpr (h.verifying _ _ _ verified)⟩

theorem ofVoters_aggregatesAlone (signed : UInt8 → Bytes → Bool) :
    (ofVoters signed).AggregatesAlone where
  same pk single h := by
    have h : Except.ok [pk].flatten=Except.ok (ε := String) single := h
    obtain rfl := Except.ok.inj h
    simp
  verifying pk sig encoded _ := by simp [ofVoters]

end Blst

namespace BlstCrypto

variable (crypto : BlstCrypto PublicKey BlstSignature) [Borsh T]

/-- Whatever is handed out as an aggregate on the message verifies. -/
def HandsOutVerified (msg : T) (votes : List (SignedByValidator T)) : Prop :=
  (∀ aggregated,crypto.aggregate msg votes=.ok aggregated →
    crypto.verifyAggregate aggregated=.ok true) ∧
  ∀ aggregated,crypto.signAggregate msg votes=.ok aggregated →
    crypto.verifyAggregate aggregated=.ok true

variable {crypto} {msg : T} {votes : List (SignedByValidator T)}
  {aggregated : Signed T AggregateSignature}

theorem msg_of_aggregate (h : crypto.aggregate msg votes=.ok aggregated) : aggregated.msg=msg := by
  match votes with
  | [] => simp [aggregate,err] at h
  | [s] =>
    obtain rfl := Except.ok.inj h
    rfl
  | s::s'::ss =>
    obtain ⟨_,_,_,_,_,_,_,_,_,rfl⟩ := aggregate_eq_ok.mp h
    rfl

theorem msg_of_signAggregate (h : crypto.signAggregate msg votes=.ok aggregated) :
    aggregated.msg=msg := by
  obtain ⟨_,_,aggregates⟩ := bind_eq_ok.mp h
  exact msg_of_aggregate aggregates

/-- Several signatures are checked together before they are handed out; one signature alone is
not checked. -/
theorem handsOutVerified_iff (hk : crypto.KeepsAggregates) (ha : crypto.AggregatesAlone)
    (hn : votes≠[]) : crypto.HandsOutVerified msg votes ↔
      ∀ vote,votes=[vote] → crypto.verifySigned ⟨msg,vote.signature⟩=.ok true := by
  constructor
  · rintro ⟨verified,_⟩ vote rfl
    exact ha.verifyAggregate_singleton.mp (verified _ rfl)
  · intro single
    refine ⟨fun aggregated h => ?_,fun aggregated h => ?_⟩
    · match votes with
      | [] => exact absurd rfl hn
      | [vote] =>
        obtain rfl := Except.ok.inj h
        exact ha.verifyAggregate_singleton.mpr (single vote rfl)
      | first::second::votes =>
        have whole : aggregated=⟨msg,aggregated.signature⟩ := by rw [← msg_of_aggregate h]
        rw [whole]
        exact verifyAggregate_of_aggregate hk h
    · have whole : aggregated=⟨msg,aggregated.signature⟩ := by rw [← msg_of_signAggregate h]
      rw [whole]
      exact (verifies_of_signAggregate hk hn h).1

end BlstCrypto

namespace OneVote

/-- Every validator signs everything. -/
def crypto : BlstCrypto Bytes Bytes := BlstCrypto.ofVoter (fun _ _ => true) 1

/-- The vote of validator 2 on 8. -/
def vote : SignedByValidator UInt64 := ⟨8,⟨Bytes.u64Bytes 8,[2]⟩⟩

end OneVote

open OneVote in
/-- A valid vote on 8 is handed out as a certificate on 9. -/
theorem not_handsOutVerified_other_message :
    crypto.verifySigned vote=.ok true ∧ ¬crypto.HandsOutVerified 9 [vote] := by
  refine ⟨by decide +kernel,?_⟩
  intro verified
  have fails : crypto.verifyAggregate ⟨(9 : UInt64),⟨Bytes.u64Bytes 8,[[2]]⟩⟩=.ok false := by
    decide +kernel
  have holds := verified.1 _ rfl
  cases fails.symm.trans holds

open OneVote in
theorem handsOutVerified_iff_one_vote : crypto.HandsOutVerified 8 [vote] ↔
    ∀ vote',[vote]=[vote'] → crypto.verifySigned ⟨(8 : UInt64),vote'.signature⟩=.ok true :=
  BlstCrypto.handsOutVerified_iff (Blst.ofVoters_keepsAggregates _)
    (Blst.ofVoters_aggregatesAlone _) (List.cons_ne_nil _ _)

end TruthSeeker
