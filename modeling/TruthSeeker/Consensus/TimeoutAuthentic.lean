import TruthSeeker.Consensus.LeaderCertificates

namespace TruthSeeker

open Outcome

/-- Bonded validators with more than the given power have signed the timeout of the round. -/
def BFTRoundState.TimeoutSigned (round : BFTRoundState)
    (signed : ValidatorPublicKey → Bytes → Prop) (least : U128) : Prop :=
  ∃ encoded validators,toVec round.timeoutMessage=.ok encoded ∧
    (∀ v ∈ validators,v ∈ round.staking.bonded ∧ signed v encoded) ∧
    least< round.staking.computeVotingPower validators

namespace Consensus

variable {PublicKey BlstSignature : Type} (self : Consensus PublicKey BlstSignature)
variable (signed : ValidatorPublicKey → Bytes → Prop)

/-- The node joins a mutiny and leaves a view for timeouts that have really been signed, the
view with a certificate that `verify_tc` accepts. -/
def AuthenticTimeout (entry : Entry) : Prop :=
  (entry.deed=.joinedMutiny →
    entry.round.TimeoutSigned signed entry.round.staking.computeF) ∧
  ∀ qc kind,entry.deed=.applied (.timeoutQC qc kind) →
    self.VerifiesTc entry.round qc kind entry.round.slot entry.round.view ∧
      entry.round.TimeoutSigned signed (2*entry.round.staking.computeF)

/-- A nil proposal is signed by the validator of its timeout. -/
def NamesOne (timeout : ConsensusTimeout) : Prop :=
  ∀ signedNil,timeout.2=.nilProposal signedNil →
    signedNil.signature.validator=timeout.1.signature.validator

/-- The timeouts that are counted are signed by bonded validators, and the prepare QC that is
put into a certificate is one of the current proposal. -/
structure SoundTimeouts (node : Consensus PublicKey BlstSignature) (n : Node) : Prop where
  counted : ∀ entry ∈ n.log,∀ timeout,entry.deed=.countedTimeout timeout →
    timeout.1.signature.validator ∈ entry.round.staking.bonded ∧
      node.crypto.verifySigned timeout.1=.ok true ∧ NamesOne timeout
  prepared : ∀ entry ∈ n.log,∀ qc kind,entry.deed=.certified qc kind →
    ∀ prepareQc,entry.round.slotPrepareQc=some prepareQc →
      entry.round.currentProposal.slot=entry.round.slot ∧
        node.VerifiesPrepareQc entry.round entry.round.currentProposal prepareQc

variable {self signed} {n m : Node}

theorem SoundTimeouts.of_change (h : SoundTimeouts self m) (hc : self.Change n m) :
    SoundTimeouts self n where
  counted entry he := h.counted entry ((change_log hc).subset he)
  prepared entry he := h.prepared entry ((change_log hc).subset he)

/-- A timeout that the node holds is about its round, and signed by its validator or the
node's own. -/
structure Held (node : Consensus PublicKey BlstSignature) (round : BFTRoundState)
    (timeout : ConsensusTimeout) : Prop where
  message : timeout.1.msg=round.timeoutMessage
  bonded : timeout.1.signature.validator ∈ round.staking.bonded
  one : NamesOne timeout
  verified : timeout.1.signature.validator=node.validatorPubkey ∨
    node.crypto.verifySigned timeout.1=.ok true

section
variable {round round' : BFTRoundState} {timeout : ConsensusTimeout}

theorem Held.of_round (h : Held self round timeout)
    (hm : round'.timeoutMessage=round.timeoutMessage)
    (hs : ∀ v ∈ round.staking.bonded,v ∈ round'.staking.bonded) : Held self round' timeout :=
  ⟨h.message.trans hm.symm,hs _ h.bonded,h.one,h.verified⟩

theorem held_of_getTimeoutMessage (h : self.getTimeoutMessage round=.ok timeout)
    (hb : self.validatorPubkey ∈ round.staking.bonded) : Held self round timeout := by
  obtain ⟨named,message⟩ := validator_of_getTimeoutMessage h
  refine ⟨message,named ▸ hb,?_,Or.inl named⟩
  intro signedNil hn
  obtain ⟨metadata,hm,h⟩ := bind_eq_ok.mp h
  cases hq : round.slotPrepareQc with
  | some qc =>
    rw [hq] at h
    rw [← pure_eq_ok.mp h] at hn
    cases hn
  | none =>
    rw [hq] at h
    obtain ⟨nil,hs,h⟩ := bind_eq_ok.mp h
    obtain rfl := pure_eq_ok.mp h
    obtain rfl := TimeoutKind.nilProposal.inj hn
    obtain rfl := Except.ok.inj (hs.symm.trans hm)
    rfl

/-- The validators of nil timeouts are those of the timeouts. -/
theorem validators_of_nilTimeouts {requests : List ConsensusTimeout} {timeouts : List SignedTimeout}
    (h : nilTimeouts requests=.ok timeouts) (ho : ∀ request ∈ requests,NamesOne request) :
    timeouts.map (fun s => s.signature.validator)=
      requests.map fun request => request.1.signature.validator := by
  induction requests generalizing timeouts with
  | nil =>
    obtain rfl := Except.ok.inj h
    rfl
  | cons request requests ih =>
    obtain ⟨metadata,kind⟩ := request
    cases kind with
    | prepareQC qc proposal => cases h
    | nilProposal signedNil =>
      obtain ⟨rest,hr,h⟩ := bind_eq_ok.mp h
      obtain rfl := pure_eq_ok.mp h
      have tail := ih hr fun request hm => ho request (List.mem_cons_of_mem _ hm)
      have head := ho _ List.mem_cons_self signedNil rfl
      simp only [List.map_cons,tail,head]

theorem computeVotingPower_append_known {staking : Staking}
    {validators : List ValidatorPublicKey} {own : ValidatorPublicKey} (h : own ∈ validators) :
    staking.computeVotingPower (validators++[own])=staking.computeVotingPower validators := by
  refine staking.computeVotingPower_congr fun v => ?_
  simp only [List.mem_append,List.mem_singleton,or_iff_left_iff_imp]
  rintro rfl
  exact h

/-- The node's aggregate over the timeouts of the round is a certificate of it. -/
theorem verified_of_timeouts (keeps : self.crypto.KeepsAggregates)
    {timeouts : List SignedTimeout}
    {aggregated : Signed (Slot × View × ConsensusProposalHash × ConsensusTimeoutMarker)
      AggregateSignature}
    (h : self.crypto.signAggregate round.timeoutMessage timeouts=.ok aggregated)
    (same : timeouts.map (fun s => s.signature.validator)=timeoutValidators round)
    (bonded : ∀ v ∈ timeoutValidators round,v ∈ round.staking.bonded)
    (own : self.validatorPubkey ∈ timeoutValidators round)
    (power : 2*round.staking.computeF<timeoutPower round) :
    round.verifyQuorumCertificate self.crypto.toBlst round.timeoutMessage
      (⟨aggregated.signature,⟨⟩⟩ : TimeoutQC)=.ok () := by
  have nonempty : timeouts≠[] := by
    rintro rfl
    rw [← same] at own
    cases own
  obtain ⟨verified,validators⟩ := BlstCrypto.verifies_of_signAggregate keeps nonempty h
  rw [same] at validators
  obtain ⟨encoded,he,hv⟩ := (Blst.verifyAggregate_eq_ok_true _).mp verified
  refine (BFTRoundState.verifyQuorumCertificate_eq_ok _ _).mpr ⟨encoded,he,hv,?_,?_⟩
  · intro v hm
    rw [validators] at hm
    obtain hm|hm := List.mem_append.mp hm
    · exact bonded v hm
    · rw [List.mem_singleton.mp hm]
      exact bonded _ own
  · have counts : round.staking.computeVotingPower aggregated.signature.validators=
        timeoutPower round := by
      rw [validators]
      exact computeVotingPower_append_known own
    rw [counts]
    exact quorum_of_double power

theorem verifiesTc_of_timeoutTicket (keeps : self.crypto.KeepsAggregates) {qc : TimeoutQC}
    {kind : TCKind} (h : self.timeoutTicket round=.ok (qc,kind))
    (held : ∀ request ∈ round.timeout.requests,Held self round request)
    (own : self.validatorPubkey ∈ timeoutValidators round)
    (power : 2*round.staking.computeF<timeoutPower round)
    (prepared : ∀ prepareQc,round.slotPrepareQc=some prepareQc →
      round.currentProposal.slot=round.slot ∧
        self.VerifiesPrepareQc round round.currentProposal prepareQc) :
    self.VerifiesTc round qc kind round.slot round.view := by
  have bonded : ∀ v ∈ timeoutValidators round,v ∈ round.staking.bonded := by
    intro v hv
    obtain ⟨request,hr,rfl⟩ := List.mem_map.mp hv
    exact (held request hr).bonded
  unfold timeoutTicket at h
  cases hq : round.slotPrepareQc with
  | some prepareQc =>
    rw [hq] at h
    obtain ⟨aggregated,signs,h⟩ := bind_eq_ok.mp h
    obtain ⟨rfl,rfl⟩ := Prod.mk.inj (pure_eq_ok.mp h)
    refine ⟨verified_of_timeouts keeps signs ?_ bonded own power,prepared prepareQc hq⟩
    rw [List.map_map]
    rfl
  | none =>
    rw [hq] at h
    obtain ⟨timeouts,nils,h⟩ := bind_eq_ok.mp h
    obtain ⟨aggregated,signs,h⟩ := bind_eq_ok.mp h
    obtain ⟨rfl,rfl⟩ := Prod.mk.inj (pure_eq_ok.mp h)
    exact ⟨verified_of_timeouts keeps signs
      (validators_of_nilTimeouts nils fun request hr => (held request hr).one) bonded own power,
      trivial⟩

/-- Timeouts of others with more than f of the power are really signed. -/
theorem timeoutSigned_of_held (hu : self.crypto.Unforgeable signed)
    (held : ∀ request ∈ round.timeout.requests,Held self round request)
    (absent : self.validatorPubkey∉timeoutValidators round) {least : U128}
    (power : least<timeoutPower round) {timeout : ConsensusTimeout}
    (ht : self.getTimeoutMessage round=.ok timeout) : round.TimeoutSigned signed least := by
  obtain ⟨metadata,hm,_⟩ := bind_eq_ok.mp ht
  obtain ⟨encoded,he,_⟩ := bind_eq_ok.mp hm
  refine ⟨encoded,timeoutValidators round,he,?_,power⟩
  intro v hv
  obtain ⟨request,hr,rfl⟩ := List.mem_map.mp hv
  have kept := held request hr
  refine ⟨kept.bonded,?_⟩
  have verified := kept.verified.resolve_left fun own => absent (own ▸ hv)
  obtain ⟨bytes,hb,by_validator⟩ := hu.signed_of_verifySigned verified
  rw [kept.message,he] at hb
  obtain rfl := Except.ok.inj hb
  exact by_validator

/-- A certificate that `verify_tc` accepts is made of real signatures. -/
theorem timeoutSigned_of_verifiesTc (hu : self.crypto.AggregatesUnforgeable signed)
    {qc : TimeoutQC} {kind : TCKind}
    (h : self.VerifiesTc round qc kind round.slot round.view) :
    round.TimeoutSigned signed (2*round.staking.computeF) := by
  obtain ⟨encoded,he,hv,bonded,power⟩ :=
    (BFTRoundState.verifyQuorumCertificate_eq_ok _ _).mp h.1
  refine ⟨encoded,qc.aggregate.validators,he,?_,?_⟩
  · intro v hm
    exact ⟨bonded v hm,hu qc.aggregate encoded hv v hm⟩
  · exact double_of_quorum power

end

/-- The timeouts that are held are sound, and so are the certificates made of them. -/
structure Authentic (node : Consensus PublicKey BlstSignature)
    (signed : ValidatorPublicKey → Bytes → Prop) (n : Node) : Prop where
  held : ∀ request ∈ n.bftRoundState.timeout.requests,Held node n.bftRoundState request
  authentic : ∀ entry ∈ n.log,node.AuthenticTimeout signed entry
  certified : ∀ entry ∈ n.log,∀ qc kind,entry.deed=.certified qc kind →
    node.VerifiesTc entry.round qc kind entry.round.slot entry.round.view

/-- A deed that neither joins a mutiny nor has to do with a certificate of timeouts. -/
def Deed.Apart (deed : Deed) : Prop :=
  deed≠.joinedMutiny ∧ (∀ qc kind,deed≠.applied (.timeoutQC qc kind)) ∧
    ∀ qc kind,deed≠.certified qc kind

theorem Authentic.of_log (h : Authentic self signed n) {entries : List Entry}
    (hl : m.log=n.log++entries) (he : ∀ entry ∈ entries,Deed.Apart entry.deed)
    (held : ∀ request ∈ m.bftRoundState.timeout.requests,Held self m.bftRoundState request) :
    Authentic self signed m where
  held := held
  authentic := by
    rw [hl]
    refine List.forall_mem_append.mpr ⟨h.authentic,?_⟩
    intro entry hm
    exact ⟨fun hd => absurd hd (he entry hm).1,
      fun qc kind hd => absurd hd ((he entry hm).2.1 qc kind)⟩
  certified := by
    rw [hl]
    refine List.forall_mem_append.mpr ⟨h.certified,?_⟩
    intro entry hm qc kind hd
    exact absurd hd ((he entry hm).2.2 qc kind)

/-- A change that leaves the timeouts and what they are about alone. -/
theorem Authentic.of_round (h : Authentic self signed n) {entries : List Entry}
    (hl : m.log=n.log++entries) (he : ∀ entry ∈ entries,Deed.Apart entry.deed)
    (message : m.bftRoundState.timeoutMessage=n.bftRoundState.timeoutMessage)
    (bonded : ∀ v ∈ n.bftRoundState.staking.bonded,v ∈ m.bftRoundState.staking.bonded)
    (requests : m.bftRoundState.timeout.requests=n.bftRoundState.timeout.requests) :
    Authentic self signed m := by
  refine h.of_log hl he ?_
  rw [requests]
  intro request hr
  exact (h.held request hr).of_round message bonded

theorem mem_insertRequest {round : BFTRoundState} {request timeout : ConsensusTimeout}
    (h : request ∈ (round.insertRequest timeout).timeout.requests) :
    request ∈ round.timeout.requests ∨ request=timeout := by
  unfold BFTRoundState.insertRequest at h
  simp only at h
  split at h
  · exact Or.inl h
  · simpa using h

theorem authentic_change (keeps : self.crypto.KeepsAggregates)
    (single : self.crypto.Unforgeable signed)
    (aggregate : self.crypto.AggregatesUnforgeable signed) (hu : SoundTimeouts self m)
    (h : Authentic self signed n) (hc : self.Change n m) : Authentic self signed m := by
  cases hc with
  | countedTimeout timeout message =>
    have new := hu.counted ⟨n.bftRoundState,.countedTimeout timeout⟩
      (List.mem_append_right _ List.mem_cons_self) timeout rfl
    refine h.of_log rfl (by simp [Deed.Apart]) ?_
    intro request hr
    obtain old|rfl := mem_insertRequest hr
    · exact (h.held request old).of_round rfl fun _ => id
    · exact ⟨message,new.1,new.2.2,Or.inr new.2.1⟩
  | joinedMutiny timeout ht bonded absent power =>
    refine ⟨?_,?_,?_⟩
    · intro request hr
      obtain old|rfl := mem_insertRequest hr
      · exact (h.held request old).of_round rfl fun _ => id
      · exact (held_of_getTimeoutMessage ht bonded).of_round rfl fun _ => id
    · refine List.forall_mem_append.mpr ⟨h.authentic,?_⟩
      intro entry he
      obtain rfl := List.mem_singleton.mp he
      exact ⟨fun _ => timeoutSigned_of_held single h.held absent power ht,by simp⟩
    · refine List.forall_mem_append.mpr ⟨h.certified,?_⟩
      simp
  | certified now qc kind ht bonded own power =>
    have prepared := hu.prepared ⟨n.bftRoundState,.certified qc kind⟩
      (List.mem_append_right _ List.mem_cons_self) qc kind rfl
    refine ⟨fun request hr => (h.held request hr).of_round rfl fun _ => id,?_,?_⟩
    · refine List.forall_mem_append.mpr ⟨h.authentic,?_⟩
      simp [AuthenticTimeout]
    · refine List.forall_mem_append.mpr ⟨h.certified,?_⟩
      intro entry he qc' kind' hd
      obtain rfl := List.mem_singleton.mp he
      obtain ⟨rfl,rfl⟩ := Deed.certified.inj hd
      exact verifiesTc_of_timeoutTicket keeps ht h.held own power prepared
  | appliedTimeout qc kind none inHand =>
    have verifies : self.VerifiesTc n.bftRoundState qc kind n.bftRoundState.slot
        n.bftRoundState.view := by
      obtain verified|⟨entry,he,hd,slot,view,parent,staking⟩ := inHand
      · exact verified
      · have own := h.certified entry he qc kind hd
        rw [slot,view] at own
        exact (verifiesTc_congr staking parent).mp own
    refine ⟨?_,?_,?_⟩
    · intro request hr
      change request ∈ n.bftRoundState.timeout.requests at hr
      rw [none] at hr
      cases hr
    · refine List.forall_mem_append.mpr ⟨h.authentic,?_⟩
      intro entry he
      obtain rfl := List.mem_singleton.mp he
      refine ⟨by simp,?_⟩
      rintro qc kind ⟨⟩
      exact ⟨verifies,timeoutSigned_of_verifiesTc aggregate verifies⟩
    · refine List.forall_mem_append.mpr ⟨h.certified,?_⟩
      simp
  | appliedCommit ticket qc ends none =>
    refine h.of_log rfl ?_ ?_
    · intro entry he
      obtain rfl := List.mem_singleton.mp he
      refine ⟨by simp,?_,by simp⟩
      rintro qc kind ⟨⟩
      cases ends
    · intro request hr
      change request ∈ n.bftRoundState.timeout.requests at hr
      rw [none] at hr
      cases hr
  | reset tag =>
    refine h.of_log (List.append_nil _).symm (by simp) ?_
    intro request hr
    cases hr
  | joined qc =>
    refine h.of_log (List.append_assoc _ _ _) (by simp [Deed.Apart]) ?_
    intro request hr
    cases hr
  | followed block =>
    refine h.of_log rfl (by simp [Deed.Apart]) ?_
    intro request hr
    cases hr
  | staking staking grown =>
    exact h.of_round (List.append_nil _).symm (by simp) rfl grown rfl
  | seenPrepareQc qc proposal =>
    refine h.of_round rfl (by simp [Deed.Apart]) ?_ ?_ ?_
    · simp
    · simp
    · simp
  | candidates | schedule | retag | push | leader =>
    exact h.of_round (List.append_nil _).symm (by simp) rfl (fun _ => id) rfl
  | _ => exact h.of_round rfl (by simp [Deed.Apart]) rfl (fun _ => id) rfl

/-- In every run in which the timeouts that are counted are signed by bonded validators, a node
joins only mutinies of more than f and leaves a view only with a certificate of more than 2f. -/
theorem timeoutsAuthentic (keeps : self.crypto.KeepsAggregates)
    (single : self.crypto.Unforgeable signed)
    (aggregate : self.crypto.AggregatesUnforgeable signed) (n : Node) (run : self.Run n)
    (hu : SoundTimeouts self n) : ∀ entry ∈ n.log,self.AuthenticTimeout signed entry := by
  have all : Authentic self signed n := by
    refine run_induction (I := fun n => SoundTimeouts self n → Authentic self signed n)
      ?_ ?_ run hu
    · intro n fresh _
      refine ⟨by simp [fresh.requests],?_,?_⟩
      · intro entry he
        obtain ⟨_,sent⟩|sent := fresh.log entry he
        · simp [AuthenticTimeout,sent]
        · simp [AuthenticTimeout,sent]
      · intro entry he qc kind hd
        obtain ⟨_,sent⟩|sent := fresh.log entry he
        · simp [sent] at hd
        · simp [sent] at hd
    · intro n m _ ih hc hu
      exact authentic_change keeps single aggregate hu (ih (hu.of_change hc)) hc
  exact all.authentic

end Consensus

namespace FourValidators

open Consensus

/-- The timeout of the first view of the first slot under the name of a validator. -/
def timeoutOf (v : ValidatorPublicKey) : ConsensusInput :=
  let message : Slot × View × ConsensusProposalHash × ConsensusTimeoutMarker :=
    (1,0,Bytes.hex genesisDigest.toList,⟨⟩)
  let timeout : SignedTimeout := ⟨message,⟨(toVec message).toOption.getD [],v⟩⟩
  .netMessage v (.timeout (timeout,.nilProposal timeout)) 0

/-- The node after two timeouts, with which it leaves the view. -/
def timedOut (node : Consensus Bytes Bytes) : Node :=
  node.after (timeoutOf [3]) (node.after (timeoutOf [2]) (started node))

def soundTimeout (entry : Entry) : Bool :=
  match entry.deed with
  | .countedTimeout (timeout,.nilProposal signedNil) =>
      timeout.signature.validator ∈ entry.round.staking.bonded ∧
        (leading.crypto.verifySigned timeout).toOption=some true ∧
        signedNil.signature.validator=timeout.signature.validator
  | .countedTimeout (_,.prepareQC _ _) => false
  | .certified _ _ => entry.round.slotPrepareQc.isNone
  | _ => true

def joinsMutiny (entry : Entry) : Bool :=
  match entry.deed with
  | .joinedMutiny => true
  | _ => false

def leavesView (entry : Entry) : Bool :=
  match entry.deed with
  | .applied (.timeoutQC _ _) => true
  | _ => false

theorem times_out :
    ((leading.handle 0 (timeoutOf [2]) (started leading)).1.panics=false ∧
      (leading.handle 0 (timeoutOf [3]) (leading.after (timeoutOf [2])
        (started leading))).1.panics=false ∧
      (timedOut leading).log.all soundTimeout=true ∧
      (timedOut leading).log.any joinsMutiny=true ∧
      (timedOut leading).log.any leavesView=true) ∧
    (unsigned.handle 0 (timeoutOf [2]) (started unsigned)).1.panics=false ∧
      (unsigned.handle 0 (timeoutOf [3]) (unsigned.after (timeoutOf [2])
        (started unsigned))).1.panics=false ∧
      (timedOut unsigned).log.any joinsMutiny=true := by
  decide +kernel

theorem run_timedOut {node : Consensus Bytes Bytes}
    (start : (node.enterGenesis genesis genesisNode).1.toOption=some ())
    (first : (node.handle 0 (timeoutOf [2]) (started node)).1.panics=false)
    (second : (node.handle 0 (timeoutOf [3]) (node.after (timeoutOf [2])
      (started node))).1.panics=false) : node.Run (timedOut node) :=
  ((run_started start).after first).after second

theorem deed_of_joinsMutiny {entry : Entry} (h : joinsMutiny entry=true) :
    entry.deed=.joinedMutiny := by
  unfold joinsMutiny at h
  split at h
  · assumption
  · cases h

theorem deed_of_leavesView {entry : Entry} (h : leavesView entry=true) :
    ∃ qc kind,entry.deed=.applied (.timeoutQC qc kind) := by
  unfold leavesView at h
  split at h
  · next qc kind hd => exact ⟨qc,kind,hd⟩
  · cases h

theorem soundTimeouts_timedOut : SoundTimeouts leading (timedOut leading) := by
  have all := times_out.1.2.2.1
  rw [List.all_eq_true] at all
  constructor
  · intro entry he timeout hd
    have sound := all entry he
    obtain ⟨metadata,kind⟩ := timeout
    cases kind with
    | prepareQC qc proposal => simp [soundTimeout,hd] at sound
    | nilProposal signedNil =>
      simp only [soundTimeout,hd,decide_eq_true_eq] at sound
      obtain ⟨bonded,verified,named⟩ := sound
      refine ⟨bonded,?_,?_⟩
      · revert verified
        cases leading.crypto.verifySigned metadata <;> simp [Except.toOption]
      · rintro _ ⟨⟩
        exact named
  · intro entry he qc kind hd prepareQc held
    have sound := all entry he
    simp [soundTimeout,hd,held] at sound

/-- No signature verifies where nobody has signed. -/
theorem verify_unsigned (sig encoded key : Bytes) : unsigned.crypto.verify sig encoded key=false := by
  show (decide (sig=encoded) && decide (key≠[]) && key.all fun _ => false)=false
  cases key <;> simp

theorem unsigned_unforgeable : unsigned.crypto.Unforgeable fun _ _ => False := by
  intro v pk sig encoded _ hv
  rw [verify_unsigned] at hv
  cases hv

theorem unsigned_aggregatesUnforgeable :
    unsigned.crypto.AggregatesUnforgeable fun _ _ => False := by
  intro aggregate encoded hv
  obtain ⟨pk,sig,_,_,verified⟩ := hv
  rw [verify_unsigned] at verified
  cases verified

end FourValidators

open FourValidators in
/-- Two validators have signed timeouts. -/
theorem Consensus.timeoutsAuthentic_timedOut : leading.Run (timedOut leading) ∧
    (∃ entry ∈ (timedOut leading).log,entry.deed=.joinedMutiny) ∧
    (∃ entry ∈ (timedOut leading).log,∃ qc kind,entry.deed=.applied (.timeoutQC qc kind)) ∧
    ∀ entry ∈ (timedOut leading).log,
      leading.AuthenticTimeout (fun key _ => key.all fun _ => true) entry := by
  have facts := times_out.1
  have run := run_timedOut confirms_and_spoils.1 facts.1 facts.2.1
  obtain ⟨mutiny,hm,joins⟩ := List.any_eq_true.mp facts.2.2.2.1
  obtain ⟨left,hl,leaves⟩ := List.any_eq_true.mp facts.2.2.2.2
  exact ⟨run,⟨mutiny,hm,deed_of_joinsMutiny joins⟩,⟨left,hl,deed_of_leavesView leaves⟩,
    timeoutsAuthentic (Blst.ofVoters_keepsAggregates _) (Blst.ofVoters_unforgeable _)
      (Blst.ofVoters_aggregatesUnforgeable _) _ run soundTimeouts_timedOut⟩

open FourValidators in
/-- A node joins the mutiny of two validators that have not signed a timeout. -/
theorem Consensus.not_timeoutsAuthentic : unsigned.crypto.KeepsAggregates ∧
    unsigned.crypto.Unforgeable (fun _ _ => False) ∧
    unsigned.crypto.AggregatesUnforgeable (fun _ _ => False) ∧
    ¬∀ n : Node,unsigned.Run n →
      ∀ entry ∈ n.log,unsigned.AuthenticTimeout (fun _ _ => False) entry := by
  refine ⟨Blst.ofVoters_keepsAggregates _,unsigned_unforgeable,unsigned_aggregatesUnforgeable,?_⟩
  intro authentic
  have facts := times_out.2
  have run := run_timedOut commits_and_forces.2.1 facts.1 facts.2.1
  obtain ⟨entry,he,joins⟩ := List.any_eq_true.mp facts.2.2
  obtain ⟨_,validators,_,all,power⟩ := (authentic _ run entry he).1 (deed_of_joinsMutiny joins)
  have none : validators=[] := List.eq_nil_iff_forall_not_mem.mpr fun v hv => (all v hv).2
  rw [none] at power
  exact absurd power (BitVec.not_lt_zero)

end TruthSeeker
