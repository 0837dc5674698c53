import TruthSeeker.Crypto.Blst

namespace TruthSeeker

open Outcome

variable {PublicKey BlstSignature T : Type}

namespace Blst

variable (blst : Blst PublicKey BlstSignature)

/-- A signature that verifies on some bytes was made on them, by the validator of the key. -/
def Unforgeable (signed : ValidatorPublicKey → Bytes → Prop) : Prop :=
  ∀ v pk sig encoded,blst.uncompressKey v=.ok pk → blst.verify sig encoded pk=true →
    signed v encoded

/-- An aggregate that verifies on some bytes was made on them, by all of its validators. -/
def AggregatesUnforgeable (signed : ValidatorPublicKey → Bytes → Prop) : Prop :=
  ∀ aggregate encoded,blst.Verifies aggregate encoded →
    ∀ v ∈ aggregate.validators,signed v encoded

/-- Signatures on the same bytes aggregate to one that verifies under the aggregate of their
keys, also when both have been compressed. -/
def Combines : Prop :=
  ∀ (pairs : List (BlstSignature × PublicKey)) encoded,pairs≠[] →
    (∀ p ∈ pairs,blst.verify p.1 encoded p.2=true) →
    ∃ sig pk,blst.aggregateSignatures (pairs.map Prod.fst)=.ok sig ∧
      blst.aggregateKeys (pairs.map Prod.snd)=.ok pk ∧
      blst.Verifies ⟨blst.compressSignature sig,[blst.compressKey pk]⟩ encoded

/-- An aggregate of keys that is compressed, read again and aggregated alone is the same. -/
def KeepsAggregates : Prop :=
  ∀ pks pk pk' single,blst.aggregateKeys pks=.ok pk →
    blst.uncompressKey (blst.compressKey pk)=.ok pk' → blst.aggregateKeys [pk']=.ok single →
    single=pk

variable {blst}

theorem parseKey_eq_ok {v : ValidatorPublicKey} {pk : PublicKey} :
    blst.parseKey v=.ok pk ↔ blst.uncompressKey v=.ok pk := fromExcept_eq_ok

theorem parseSignature_eq_ok {s : Signature} {sig : BlstSignature} :
    blst.parseSignature s=.ok sig ↔ blst.uncompressSignature s=.ok sig := fromExcept_eq_ok

theorem verifySigned_eq_ok_true [Borsh T] {msg : SignedByValidator T} :
    blst.verifySigned msg=.ok true ↔ ∃ pk sig encoded,
      blst.uncompressKey msg.signature.validator=.ok pk ∧
      blst.uncompressSignature msg.signature.signature=.ok sig ∧
      toVec msg.msg=.ok encoded ∧ blst.verify sig encoded pk=true := by
  constructor
  · intro h
    simp only [verifySigned,bind_eq_ok,pure_eq_ok,parseKey_eq_ok,parseSignature_eq_ok] at h
    obtain ⟨pk,hk,sig,hs,encoded,he,hv⟩ := h
    exact ⟨pk,sig,encoded,hk,hs,he,hv⟩
  · intro h
    obtain ⟨pk,sig,encoded,hk,hs,he,hv⟩ := h
    simp only [verifySigned,bind_eq_ok,pure_eq_ok,parseKey_eq_ok,parseSignature_eq_ok]
    exact ⟨pk,hk,sig,hs,encoded,he,hv⟩

/-- The validators of verified signatures have signed. -/
theorem Unforgeable.signed_of_verifySigned [Borsh T] {signed : ValidatorPublicKey → Bytes → Prop}
    (hu : blst.Unforgeable signed) {msg : SignedByValidator T}
    (hv : blst.verifySigned msg=.ok true) :
    ∃ encoded,toVec msg.msg=.ok encoded ∧ signed msg.signature.validator encoded := by
  obtain ⟨pk,sig,encoded,hk,_,he,verified⟩ := verifySigned_eq_ok_true.mp hv
  exact ⟨encoded,he,hu _ _ _ _ hk verified⟩

/-- A scheme for validators that are known by one byte. A key is the list of its validators,
and the signature of a message is the message. -/
def ofVoters (signed : UInt8 → Bytes → Bool) : Blst Bytes Bytes where
  uncompressKey v := if v=[] then .error "BLST_BAD_ENCODING" else .ok v
  compressKey := id
  uncompressSignature := .ok
  compressSignature := id
  aggregateKeys keys := if keys=[] then .error "BLST_AGGR_TYPE_MISMATCH" else .ok keys.flatten
  aggregateSignatures sigs :=
    match sigs with
    | [] => .error "BLST_AGGR_TYPE_MISMATCH"
    | sig::_ => .ok sig
  verify sig encoded key := sig=encoded && key≠[] && key.all fun v => signed v encoded

theorem ofVoters_unforgeable (signed : UInt8 → Bytes → Bool) :
    (ofVoters signed).Unforgeable fun key encoded => key.all fun v => signed v encoded := by
  intro v pk sig encoded hk hv
  simp only [ofVoters] at hk hv
  split_ifs at hk
  obtain rfl := Except.ok.inj hk
  simp only [Bool.and_eq_true] at hv
  exact hv.2

theorem ofVoters_parseKeys {signed : UInt8 → Bytes → Bool}
    {validators : List ValidatorPublicKey} {keys : List Bytes}
    (h : validators.mapM (ofVoters signed).parseKey=.ok keys) : keys=validators := by
  induction validators generalizing keys with
  | nil =>
    rw [List.mapM_nil] at h
    exact (pure_eq_ok.mp h).symm
  | cons validator validators ih =>
    rw [List.mapM_cons] at h
    obtain ⟨key,hone,h⟩ := bind_eq_ok.mp h
    obtain ⟨rest,hrest,h⟩ := bind_eq_ok.mp h
    rw [parseKey_eq_ok] at hone
    simp only [ofVoters] at hone
    split_ifs at hone
    rw [← pure_eq_ok.mp h,ih hrest,Except.ok.inj hone]

theorem ofVoters_aggregatesUnforgeable (signed : UInt8 → Bytes → Bool) :
    (ofVoters signed).AggregatesUnforgeable
      fun key encoded => key.all fun v => signed v encoded := by
  intro aggregate encoded h v hv
  obtain ⟨pk,sig,hk,_,verified⟩ := h
  obtain ⟨keys,hp,hk⟩ := bind_eq_ok.mp hk
  rw [fromExcept_eq_ok] at hk
  simp only [ofVoters] at hk
  split_ifs at hk
  obtain rfl := Except.ok.inj hk
  simp only [ofVoters,Bool.and_eq_true,List.all_eq_true] at verified ⊢
  rw [ofVoters_parseKeys hp] at verified
  intro b hb
  exact verified.2 b (List.mem_flatten.mpr ⟨v,hv,hb⟩)

theorem ofVoters_aggregateValidatorsPk {signed : UInt8 → Bytes → Bool} {key : Bytes}
    (hn : key≠[]) : (ofVoters signed).aggregateValidatorsPk [key]=.ok key := by
  have parsed : (ofVoters signed).parseKey key=.ok key := by
    rw [parseKey_eq_ok]
    exact if_neg hn
  simp only [aggregateValidatorsPk,bind_eq_ok,fromExcept_eq_ok]
  refine ⟨[key],?_,by simp [ofVoters]⟩
  rw [List.mapM_cons,parsed]
  rfl

theorem ofVoters_combines (signed : UInt8 → Bytes → Bool) : (ofVoters signed).Combines := by
  intro pairs encoded hn hv
  have each : ∀ p ∈ pairs,p.1=encoded ∧ p.2≠[] ∧ ∀ v ∈ p.2,signed v encoded=true := by
    intro p hp
    have verified := hv p hp
    simp only [ofVoters,Bool.and_eq_true,decide_eq_true_eq,List.all_eq_true] at verified
    exact ⟨verified.1.1,verified.1.2,verified.2⟩
  obtain ⟨p,ps,rfl⟩ := List.exists_cons_of_ne_nil hn
  have first := each p List.mem_cons_self
  have nonempty : (p.2::ps.map Prod.snd).flatten≠[] := by
    rw [List.flatten_cons]
    exact List.append_ne_nil_of_left_ne_nil first.2.1 _
  have all : ∀ v ∈ (p.2::ps.map Prod.snd).flatten,signed v encoded=true := by
    intro v hv
    obtain ⟨key,hk,hmem⟩ := List.mem_flatten.mp hv
    rw [← List.map_cons] at hk
    obtain ⟨q,hq,rfl⟩ := List.mem_map.mp hk
    exact (each q hq).2.2 v hmem
  have keys : (ofVoters signed).aggregateKeys (p.2::ps.map Prod.snd)=
      .ok (p.2::ps.map Prod.snd).flatten := by simp [ofVoters]
  refine ⟨p.1,_,rfl,keys,_,p.1,ofVoters_aggregateValidatorsPk nonempty,rfl,?_⟩
  simp only [ofVoters,Bool.and_eq_true,decide_eq_true_eq,List.all_eq_true]
  exact ⟨⟨first.1,nonempty⟩,all⟩

theorem ofVoters_keepsAggregates (signed : UInt8 → Bytes → Bool) :
    (ofVoters signed).KeepsAggregates := by
  intro pks pk pk' single _ hk hs
  simp only [ofVoters,id_eq] at hk hs
  split_ifs at hk
  obtain rfl := Except.ok.inj hk
  simpa using hs.symm

end Blst

namespace BlstCrypto

variable (crypto : BlstCrypto PublicKey BlstSignature)

/-- What a validator signs verifies under its key. -/
def SignsValidly (T : Type) [Borsh T] : Prop :=
  ∀ (msg : T) signature,crypto.sign msg=.ok signature → crypto.verifySigned signature=.ok true

/-- The validator of one byte. -/
def ofVoter (signed : UInt8 → Bytes → Bool) (v : UInt8) : BlstCrypto Bytes Bytes :=
  { Blst.ofVoters signed with
    signBytes := id
    validatorPubkey := [v] }

variable {crypto} [Borsh T]

theorem ofVoter_signsValidly {signed : UInt8 → Bytes → Bool} {v : UInt8}
    (h : ∀ encoded,signed v encoded=true) : (ofVoter signed v).SignsValidly T := by
  intro msg signature hs
  unfold sign at hs
  obtain ⟨encoded,he,hs⟩ := bind_eq_ok.mp hs
  obtain rfl := pure_eq_ok.mp hs
  refine Blst.verifySigned_eq_ok_true.mpr ⟨[v],encoded,encoded,rfl,rfl,he,?_⟩
  simp [ofVoter,Blst.ofVoters,h]

theorem msg_of_sign {msg : T} {signature : SignedByValidator T}
    (h : crypto.sign msg=.ok signature) : signature.msg=msg := by
  unfold sign at h
  obtain ⟨encoded,_,he⟩ := bind_eq_ok.mp h
  rw [← pure_eq_ok.mp he]

theorem extractAggregates_of_verified {msg : T} {encoded : Bytes} (he : toVec msg=.ok encoded)
    {votes : List (SignedByValidator T)}
    (hv : ∀ s ∈ votes,s.msg=msg ∧ crypto.verifySigned s=.ok true) :
    ∃ pairs : List (BlstSignature × PublicKey),crypto.extractAggregates votes=
        .ok (pairs.map Prod.fst,pairs.map Prod.snd,votes.map fun s => s.signature.validator) ∧
      pairs.length=votes.length ∧ ∀ p ∈ pairs,crypto.verify p.1 encoded p.2=true := by
  induction votes with
  | nil => exact ⟨[],rfl,rfl,by simp⟩
  | cons s ss ih =>
    obtain ⟨pairs,hx,length,verified⟩ := ih fun s hs => hv s (List.mem_cons_of_mem _ hs)
    obtain ⟨same,valid⟩ := hv s List.mem_cons_self
    obtain ⟨pk,sig,bytes,hk,hs,hb,hvs⟩ := Blst.verifySigned_eq_ok_true.mp valid
    rw [same,he] at hb
    obtain rfl := Except.ok.inj hb
    refine ⟨(sig,pk)::pairs,?_,by simp [length],?_⟩
    · simp only [extractAggregates,hs,hk,hx]
      rfl
    · intro p hp
      obtain rfl|hp := List.mem_cons.mp hp
      · exact hvs
      · exact verified p hp

/-- Two signatures or more are checked together before they are handed out. -/
theorem aggregate_eq_ok {msg : T} {s s' : SignedByValidator T} {ss : List (SignedByValidator T)}
    {poda : Signed T AggregateSignature} :
    crypto.aggregate msg (s::s'::ss)=.ok poda ↔ ∃ sigs pks val pk sig,
      crypto.extractAggregates (s::s'::ss)=.ok (sigs,pks,val) ∧
      crypto.aggregateKeys pks=.ok pk ∧ crypto.aggregateSignatures sigs=.ok sig ∧
      crypto.verifyAggregate ⟨msg,⟨crypto.compressSignature sig,[crypto.compressKey pk]⟩⟩=
        .ok true ∧
      poda=⟨msg,⟨crypto.compressSignature sig,val⟩⟩ := by
  simp only [aggregate]
  constructor
  · intro h
    obtain ⟨⟨sigs,pks,val⟩,hx,h⟩ := bind_eq_ok.mp h
    obtain ⟨pk,hk,h⟩ := bind_eq_ok.mp h
    obtain ⟨sig,hs,h⟩ := bind_eq_ok.mp h
    refine ⟨sigs,pks,val,pk,sig,hx,fromExcept_eq_ok.mp hk,fromExcept_eq_ok.mp hs,?_⟩
    cases hv : crypto.verifyAggregate
        ⟨msg,⟨crypto.compressSignature sig,[crypto.compressKey pk]⟩⟩ with
    | error fault => cases fault <;> simp [hv,bind_eq_ok] at h
    | ok valid =>
      simp only [hv,bind_eq_ok,ensure_eq_ok,pure_eq_ok] at h
      obtain ⟨checked,he,_,rfl,hp⟩ := h
      exact ⟨he,hp.symm⟩
  · intro h
    obtain ⟨sigs,pks,val,pk,sig,hx,hk,hs,hv,rfl⟩ := h
    simp only [hx,hk,hs,hv,fromExcept,bind,Except.bind]
    rfl

omit [Borsh T] in
theorem extractAggregates_eq_ok {votes : List (SignedByValidator T)} {sigs : List BlstSignature}
    {pks : List PublicKey} {val : List ValidatorPublicKey}
    (h : crypto.extractAggregates votes=.ok (sigs,pks,val)) :
    val=votes.map (fun s => s.signature.validator) ∧ val.mapM crypto.parseKey=.ok pks := by
  induction votes generalizing sigs pks val with
  | nil =>
    obtain ⟨rfl,rest⟩ := Prod.mk.inj (Except.ok.inj h)
    obtain ⟨rfl,rfl⟩ := Prod.mk.inj rest
    exact ⟨rfl,rfl⟩
  | cons s ss ih =>
    unfold extractAggregates at h
    obtain ⟨sig,_,h⟩ := bind_eq_ok.mp h
    obtain ⟨pk,hk,h⟩ := bind_eq_ok.mp h
    obtain ⟨⟨sigs',pks',val'⟩,hx,h⟩ := bind_eq_ok.mp h
    obtain ⟨_,rest⟩ := Prod.mk.inj (pure_eq_ok.mp h)
    obtain ⟨rfl,rfl⟩ := Prod.mk.inj rest
    obtain ⟨rfl,parsed⟩ := ih hx
    refine ⟨rfl,?_⟩
    have key : crypto.parseKey s.signature.validator=.ok pk :=
      Blst.parseKey_eq_ok.mpr (fromExcept_eq_ok.mp hk)
    rw [List.mapM_cons,key,parsed]
    rfl

/-- An aggregate names the validators of its signatures. -/
theorem validators_of_aggregate {msg : T} {votes : List (SignedByValidator T)}
    {poda : Signed T AggregateSignature} (h : crypto.aggregate msg votes=.ok poda) :
    poda.signature.validators=votes.map fun s => s.signature.validator := by
  match votes with
  | [] => simp [aggregate] at h
  | [s] =>
    obtain rfl := Except.ok.inj h
    rfl
  | s::s'::ss =>
    obtain ⟨sigs,pks,val,pk,sig,hx,_,_,_,rfl⟩ := aggregate_eq_ok.mp h
    exact (extractAggregates_eq_ok hx).1

/-- Two signatures or more only aggregate to what verifies under the keys that it names. -/
theorem verifyAggregate_of_aggregate (hk : crypto.KeepsAggregates) {msg : T}
    {s s' : SignedByValidator T} {ss : List (SignedByValidator T)}
    {poda : Signed T AggregateSignature} (h : crypto.aggregate msg (s::s'::ss)=.ok poda) :
    crypto.verifyAggregate ⟨msg,poda.signature⟩=.ok true := by
  obtain ⟨sigs,pks,val,pk,sig,hx,hkeys,_,checked,rfl⟩ := aggregate_eq_ok.mp h
  obtain ⟨encoded,he,single,sig',hs,hsig,verified⟩ :=
    (Blst.verifyAggregate_eq_ok_true _).mp checked
  refine (Blst.verifyAggregate_eq_ok_true _).mpr ⟨encoded,he,single,sig',?_,hsig,verified⟩
  unfold Blst.aggregateValidatorsPk at hs ⊢
  obtain ⟨keys,parsed,aggregated⟩ := bind_eq_ok.mp hs
  have one : ∃ pk',crypto.uncompressKey (crypto.compressKey pk)=.ok pk' ∧ keys=[pk'] := by
    rw [List.mapM_cons] at parsed
    obtain ⟨pk',hp,rest⟩ := bind_eq_ok.mp parsed
    rw [List.mapM_nil] at rest
    exact ⟨pk',Blst.parseKey_eq_ok.mp hp,(pure_eq_ok.mp rest).symm⟩
  obtain ⟨pk',hu,rfl⟩ := one
  obtain rfl := hk _ _ _ _ hkeys hu (fromExcept_eq_ok.mp aggregated)
  exact bind_eq_ok.mpr ⟨pks,(extractAggregates_eq_ok hx).2,fromExcept_eq_ok.mpr hkeys⟩

/-- With the signer's own there are two signatures at least, which are checked together. -/
theorem verifies_of_signAggregate (hk : crypto.KeepsAggregates) {msg : T}
    {votes : List (SignedByValidator T)} {aggregated : Signed T AggregateSignature}
    (hn : votes≠[]) (h : crypto.signAggregate msg votes=.ok aggregated) :
    crypto.verifyAggregate ⟨msg,aggregated.signature⟩=.ok true ∧
      aggregated.signature.validators=
        votes.map (fun s => s.signature.validator)++[crypto.validatorPubkey] := by
  obtain ⟨selfSigned,hself,aggregates⟩ := bind_eq_ok.mp h
  have own : selfSigned.signature.validator=crypto.validatorPubkey := by
    obtain ⟨_,_,he⟩ := bind_eq_ok.mp hself
    rw [← pure_eq_ok.mp he]
  constructor
  · obtain ⟨first,others,rfl⟩ := List.exists_cons_of_ne_nil hn
    cases others with
    | nil => exact verifyAggregate_of_aggregate hk aggregates
    | cons second others => exact verifyAggregate_of_aggregate hk aggregates
  · rw [validators_of_aggregate aggregates,List.map_append,List.map_singleton,own]

/-- Verified signatures of one message always aggregate. -/
theorem aggregate_of_verified (hc : crypto.Combines) {msg : T}
    {votes : List (SignedByValidator T)} (hn : votes≠[])
    (hv : ∀ s ∈ votes,s.msg=msg ∧ crypto.verifySigned s=.ok true) :
    ∃ poda,crypto.aggregate msg votes=.ok poda ∧
      poda.signature.validators=votes.map fun s => s.signature.validator := by
  match votes with
  | [] => exact absurd rfl hn
  | [s] => exact ⟨_,rfl,rfl⟩
  | s::s'::ss =>
    obtain ⟨same,valid⟩ := hv s List.mem_cons_self
    obtain ⟨pk,sig,encoded,_,_,he,_⟩ := Blst.verifySigned_eq_ok_true.mp valid
    rw [same] at he
    obtain ⟨pairs,hx,length,verified⟩ := extractAggregates_of_verified he hv
    have nonempty : pairs≠[] := by
      intro hp
      simp [hp] at length
    obtain ⟨sig,pk,hs,hk,combined⟩ := hc pairs encoded nonempty verified
    have checked : crypto.verifyAggregate
        ⟨msg,⟨crypto.compressSignature sig,[crypto.compressKey pk]⟩⟩=.ok true :=
      (Blst.verifyAggregate_eq_ok_true _).mpr ⟨encoded,he,combined⟩
    exact ⟨_,aggregate_eq_ok.mpr ⟨_,_,_,pk,sig,hx,hk,hs,checked,rfl⟩,rfl⟩

end BlstCrypto

end TruthSeeker
