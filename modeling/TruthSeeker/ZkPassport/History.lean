import TruthSeeker.Framework.Trace
import TruthSeeker.ZkPassport.Contract

namespace TruthSeeker.ZKPassport

open Bytes Borsh Sdk

def addresses (self : ZKPassport) : List String :=
  self.verifiedUsers.map VerifiedUser.userAddress

/-- The address of a verification that succeeds. -/
def verified (self : ZKPassport) (calldata : Calldata) : List String :=
  match parseRawCalldata ZKPassportAction calldata,(self.execute calldata).1 with
  | .ok (.verifyIdentity proof _,_),.ok _ => [proof.userAddress]
  | _,_ => []

def call (self : ZKPassport) (calldata : Calldata) : ZKPassport := (self.execute calldata).2

def run (calldatas : List Calldata) : ZKPassport := calldatas.foldl call default

/-- The addresses of the verifications of a run that succeeded. -/
def history (calldatas : List Calldata) : List String :=
  Trace.outputs call verified default calldatas

/-- The answer that the address is verified, with the data of its record. -/
def Positive (userAddress : String) (answer : Bytes) : Prop :=
  ∃ uniqueId verifiedAt,answer=utf8 (verifiedText userAddress uniqueId verifiedAt)

variable {self : ZKPassport} {calldata : Calldata} {proof : ZKPassportProof}

/-- The record of a proof. -/
def record (proof : ZKPassportProof) : VerifiedUser :=
  ⟨uniqueIdOf proof.userAddress,proof.userAddress,
    proof.committedInputs.compareAgeEvm.currentDate,true,
    proof.committedInputs.bindEvm.data.customData⟩

/-- A proof that the contract accepts. -/
structure Valid (proof : ZKPassportProof) : Prop where
  name : proof.name="outer_evm_count_5"
  age : 18≤proof.committedInputs.compareAgeEvm.minAge
  address : ['0','x'].isPrefixOf proof.userAddress.toList=true

instance (proof : ZKPassportProof) : Decidable (Valid proof) :=
  decidable_of_iff (proof.name="outer_evm_count_5" ∧
      18≤proof.committedInputs.compareAgeEvm.minAge ∧
      ['0','x'].isPrefixOf proof.userAddress.toList=true)
    ⟨fun ⟨name,age,address⟩ => ⟨name,age,address⟩,fun valid => ⟨valid.name,valid.age,valid.address⟩⟩

theorem verifyIdentity_cases (self : ZKPassport) (proof : ZKPassportProof)
    (hyliIdentity : String) :
    (¬Valid proof ∧ ∃ e,self.verifyIdentity proof hyliIdentity=(.error e,self)) ∨
    Valid proof ∧ ∃ text,self.verifyIdentity proof hyliIdentity=
      (.ok text,if proof.userAddress∈self.addresses then self
        else ⟨self.verifiedUsers++[record proof]⟩) := by
  unfold verifyIdentity
  by_cases name : proof.name="outer_evm_count_5"
  · by_cases young : proof.committedInputs.compareAgeEvm.minAge<18
    · refine .inl ⟨fun valid => ?_,_,by rw [if_neg (not_not.mpr name),if_pos young]⟩
      exact absurd valid.age (UInt8.not_le.mpr young)
    · by_cases address : ['0','x'].isPrefixOf proof.userAddress.toList=true
      · refine .inr ⟨⟨name,UInt8.not_lt.mp young,address⟩,?_⟩
        rw [if_neg (not_not.mpr name),if_neg young,if_neg (not_not.mpr address)]
        have listed : (self.verifiedUsers.any fun u => u.userAddress=proof.userAddress)=true ↔
            proof.userAddress∈self.addresses := by
          simp [addresses]
        by_cases known : proof.userAddress∈self.addresses
        · rw [if_pos (listed.mpr known),if_pos known]
          exact ⟨_,rfl⟩
        · rw [if_neg (fun found => known (listed.mp found)),if_neg known]
          exact ⟨_,rfl⟩
      · refine .inl ⟨fun valid => address valid.address,"Invalid user address format",?_⟩
        rw [if_neg (not_not.mpr name),if_neg young,if_pos address]
  · exact .inl ⟨fun valid => name valid.name,_,by rw [if_pos name]⟩

/-- What an execution can do: stop, answer a question, or verify a proof that is valid. -/
theorem execute_cases (self : ZKPassport) (calldata : Calldata) :
    (∃ fault,self.execute calldata=(.error fault,self) ∧ self.verified calldata=[]) ∨
    (∃ userAddress ctx answer,
      parseRawCalldata ZKPassportAction calldata=.ok (.checkVerification userAddress,ctx) ∧
      self.checkVerification userAddress=.ok answer ∧
      self.execute calldata=(.ok (answer,ctx,[]),self) ∧ self.verified calldata=[]) ∨
    ∃ proof hyliIdentity ctx out,
      parseRawCalldata ZKPassportAction calldata=.ok (.verifyIdentity proof hyliIdentity,ctx) ∧
      Valid proof ∧ self.verified calldata=[proof.userAddress] ∧
      self.execute calldata=(.ok out,if proof.userAddress∈self.addresses then self
        else ⟨self.verifiedUsers++[record proof]⟩) := by
  cases parsed : parseRawCalldata ZKPassportAction calldata with
  | error fault =>
    have stopped : self.execute calldata=(.error fault,self) := by rw [execute,parsed]
    exact .inl ⟨fault,stopped,by rw [verified,parsed]⟩
  | ok parsed_action =>
    obtain ⟨action,ctx⟩ := parsed_action
    cases action with
    | checkVerification userAddress =>
      obtain ⟨answer,answered⟩ : ∃ answer,self.checkVerification userAddress=.ok answer := by
        unfold checkVerification
        split <;> exact ⟨_,rfl⟩
      refine .inr (.inl ⟨userAddress,ctx,answer,rfl,answered,?_,?_⟩)
      · simp only [execute,parsed,runAction,answered,Except.map,Outcome.fromExcept]
      · rw [verified,parsed]
    | verifyIdentity proof hyliIdentity =>
      obtain ⟨_,e,refused⟩|⟨valid,text,accepted⟩ :=
        verifyIdentity_cases self proof hyliIdentity
      · have stopped : self.execute calldata=(.error (.err e),self) := by
          simp only [execute,parsed,runAction,refused,Except.map,Outcome.fromExcept]
        exact .inl ⟨_,stopped,by rw [verified,parsed,stopped]⟩
      · have went : self.execute calldata=(.ok (text,ctx,[]),
            if proof.userAddress∈self.addresses then self
            else ⟨self.verifiedUsers++[record proof]⟩) := by
          simp only [execute,parsed,runAction,accepted,Except.map,Outcome.fromExcept]
        exact .inr (.inr ⟨proof,hyliIdentity,ctx,_,rfl,valid,by rw [verified,parsed,went],went⟩)

instance : WritableBorsh CompareAgeEvm := writable_layout CompareAgeEvm.layout fun _ => rfl
instance : WritableBorsh BindEvmData := writable_layout BindEvmData.layout fun _ => rfl
instance : WritableBorsh BindEvm := writable_layout BindEvm.layout fun _ => rfl
instance : WritableBorsh CommittedInputs := writable_layout CommittedInputs.layout fun _ => rfl
instance : WritableBorsh ZKPassportProof := writable_layout ZKPassportProof.layout fun _ => rfl

/-- A record can be written when its strings can. -/
theorem exists_ser_user {user : VerifiedUser} : (∃ bs,ser user=some bs) ↔
    (∃ bs,ser user.uniqueId=some bs) ∧ (∃ bs,ser user.userAddress=some bs) ∧
    (∃ bs,ser user.verifiedAt=some bs) ∧ ∃ bs,ser user.customData=some bs := by
  change (∃ bs,ser (VerifiedUser.layout.fields user)=some bs) ↔ _
  rw [exists_ser_prod,exists_ser_prod,exists_ser_prod,exists_ser_prod]
  have flag : ∃ bs,ser user.ageVerified=some bs := ⟨_,rfl⟩
  simp [VerifiedUser.layout,flag]

/-- What the record takes from an action that was read can be written. -/
theorem exists_ser_record {hyliIdentity : String} {ctx : ExecutionContext}
    (h : parseRawCalldata ZKPassportAction calldata=.ok (.verifyIdentity proof hyliIdentity,ctx)) :
    ∃ bs,ser (record proof)=some bs := by
  obtain ⟨blob,_,read,_⟩ := parseRawCalldata_eq_ok.mp h
  have whole := fromSlice_eq_some.mp read
  obtain ⟨bs,rest,read⟩ : ∃ bs rest,de bs=some ((proof,hyliIdentity),rest) := by
    simp only [de] at whole
    split at whole
    · obtain ⟨⟨p,rest⟩,body,he⟩ := Option.map_eq_some_iff.mp whole
      obtain ⟨same,_⟩ := Prod.mk.inj he
      obtain ⟨rfl,rfl⟩ := ZKPassportAction.verifyIdentity.inj same
      exact ⟨_,rest,body⟩
    · obtain ⟨p,_,he⟩ := Option.map_eq_some_iff.mp whole
      cases he
    · cases whole
  have written := (exists_ser_prod.mp (WritableBorsh.exists_ser read)).1
  change ∃ bs,ser (ZKPassportProof.layout.fields proof)=some bs at written
  have inputs := (exists_ser_prod.mp (exists_ser_prod.mp (exists_ser_prod.mp
    (exists_ser_prod.mp written).2).2).2).2
  change ∃ bs,ser (CommittedInputs.layout.fields proof.committedInputs)=some bs at inputs
  obtain ⟨age,bound⟩ := exists_ser_prod.mp inputs
  change ∃ bs,ser (CompareAgeEvm.layout.fields proof.committedInputs.compareAgeEvm)=some bs at age
  change ∃ bs,ser (BindEvmData.layout.fields proof.committedInputs.bindEvm.data)=some bs at bound
  obtain ⟨address,custom⟩ := exists_ser_prod.mp bound
  have identifier : (utf8 (uniqueIdOf proof.userAddress)).length<2^32 := by
    rw [uniqueIdOf,utf8_append,List.length_append,(utf8_hex _).1,List.length_reverse,
      length_ofNatLE]
    decide
  exact exists_ser_user.mpr ⟨exists_ser_string.mpr identifier,address,
    (exists_ser_prod.mp age).1,custom⟩

/-- A state next to the addresses verified so far. -/
structure Kept (past : List String) (passport : ZKPassport) : Prop where
  distinct : passport.addresses.Nodup
  formed : ∀ userAddress ∈ passport.addresses,['0','x'].isPrefixOf userAddress.toList=true
  recorded : ∀ userAddress,userAddress∈past ↔ userAddress∈passport.addresses
  writable : ∀ user ∈ passport.verifiedUsers,∃ bs,ser user=some bs

theorem addresses_append (self : ZKPassport) (proof : ZKPassportProof) :
    (ZKPassport.mk (self.verifiedUsers++[record proof])).addresses=
      self.addresses++[proof.userAddress] := by
  simp [addresses,record]

theorem kept_call {past : List String} (h : Kept past self) (calldata : Calldata) :
    Kept (past++self.verified calldata) (self.call calldata) := by
  obtain ⟨fault,stopped,none⟩|⟨_,_,_,_,_,answered,none⟩|
    ⟨proof,hyliIdentity,ctx,out,parsed,valid,one,went⟩ := execute_cases self calldata
  · rw [call,stopped,none,List.append_nil]
    exact h
  · rw [call,answered,none,List.append_nil]
    exact h
  · rw [call,went,one]
    dsimp only
    split_ifs with known
    · refine ⟨h.distinct,h.formed,fun userAddress => ?_,h.writable⟩
      rw [List.mem_append,List.mem_singleton,h.recorded]
      constructor
      · rintro (before|rfl)
        · exact before
        · exact known
      · exact Or.inl
    · refine ⟨?_,fun userAddress listed => ?_,fun userAddress => ?_,fun user listed => ?_⟩
      · rw [addresses_append,List.nodup_append]
        refine ⟨h.distinct,List.nodup_singleton _,fun a before b last => ?_⟩
        rw [List.mem_singleton.mp last]
        exact fun same => known (same ▸ before)
      · rw [addresses_append] at listed
        obtain before|last := List.mem_append.mp listed
        · exact h.formed userAddress before
        · rw [List.mem_singleton.mp last]
          exact valid.address
      · rw [addresses_append,List.mem_append,List.mem_append,h.recorded]
      · obtain before|last := List.mem_append.mp listed
        · exact h.writable user before
        · rw [List.mem_singleton.mp last]
          exact exists_ser_record parsed

theorem kept_run (calldatas : List Calldata) : Kept (history calldatas) (run calldatas) := by
  have start : Kept [] default := by
    refine ⟨List.nodup_nil,?_,?_,?_⟩
    · simp [addresses,default]
    · simp [addresses,default]
    · simp [default]
  exact Trace.foldl_of_past (I := Kept) start fun _ _ calldata _ h => kept_call h calldata

theorem prefix_call (self : ZKPassport) (calldata : Calldata) :
    self.verifiedUsers<+:(self.call calldata).verifiedUsers := by
  obtain ⟨fault,stopped,_⟩|⟨_,_,_,_,_,answered,_⟩|⟨proof,_,_,_,_,_,_,went⟩ :=
    execute_cases self calldata
  · simp only [call,stopped,List.prefix_refl]
  · simp only [call,answered,List.prefix_refl]
  · rw [call,went]
    dsimp only
    split_ifs
    · exact List.prefix_refl _
    · exact List.prefix_append _ _

theorem prefix_run (calldatas more : List Calldata) :
    (run calldatas).verifiedUsers<+:(run (calldatas++more)).verifiedUsers := by
  rw [run,run,List.foldl_append]
  generalize calldatas.foldl call default=passport
  induction more generalizing passport with
  | nil => exact List.prefix_refl _
  | cons calldata more ih => exact (prefix_call passport calldata).trans (ih _)

/-- The two answers differ right after the address. -/
theorem not_positive (userAddress : String) :
    ¬Positive userAddress (utf8 ("User "++userAddress++" is not verified")) := by
  rintro ⟨uniqueId,verifiedAt,same⟩
  have texts := congrArg String.toList (utf8_injective same)
  simp only [verifiedText,String.toList_append,List.append_assoc] at texts
  have tails := List.append_cancel_left (List.append_cancel_left texts)
  simp at tails

theorem checkVerification_positive {past : List String} {userAddress : String} {answer : Bytes}
    (h : Kept past self) (answered : self.checkVerification userAddress=.ok answer) :
    Positive userAddress answer ↔ userAddress∈past := by
  rw [h.recorded]
  cases found : self.getVerifiedUser userAddress with
  | none =>
    simp only [checkVerification,found,Except.ok.injEq] at answered
    subst answered
    have absent : userAddress∉self.addresses := by
      simp only [getVerifiedUser,List.find?_eq_none,decide_eq_true_eq] at found
      simpa [addresses] using found
    exact iff_of_false (not_positive userAddress) absent
  | some user =>
    simp only [checkVerification,found,Except.ok.injEq] at answered
    subst answered
    have same : user.userAddress=userAddress := by
      simpa using List.find?_some found
    have listed := List.mem_map_of_mem (f := VerifiedUser.userAddress)
      (List.mem_of_find?_eq_some found)
    rw [same] at listed ⊢
    exact iff_of_true ⟨user.uniqueId,user.verifiedAt,rfl⟩ listed

theorem exists_commit_iff {past : List String} (h : Kept past self) :
    (∃ commitment,self.commit=.ok commitment) ↔ self.verifiedUsers.length<2^32 := by
  simp only [commit,Outcome.fromOption_eq_ok]
  change (∃ bs,ser self.verifiedUsers=some bs) ↔ _
  rw [exists_ser_list]
  exact and_iff_left h.writable

/-- A registry over its whole history: it only grows, holds each address once and in form,
answers for the addresses that were verified, keeps its state over failures and is recovered
from its commitment, which it can write up to 2^32-1 entries. -/
theorem run_history (calldatas : List Calldata) :
    (run calldatas).addresses.Nodup ∧
    (∀ user ∈ (run calldatas).verifiedUsers,['0','x'].isPrefixOf user.userAddress.toList=true) ∧
    (∀ more,(run calldatas).verifiedUsers<+:(run (calldatas++more)).verifiedUsers) ∧
    (∀ calldata userAddress ctx,
      parseRawCalldata ZKPassportAction calldata=.ok (.checkVerification userAddress,ctx) →
      ∃ answer,((run calldatas).execute calldata).1=.ok (answer,ctx,[]) ∧
        (Positive userAddress answer ↔ userAddress∈history calldatas)) ∧
    (∀ calldata fault,((run calldatas).execute calldata).1=.error fault →
      ((run calldatas).execute calldata).2=run calldatas ∧
      ((run calldatas).execute calldata).2.commit=(run calldatas).commit) ∧
    (∀ commitment,(run calldatas).commit=.ok commitment →
      fromCommitment commitment=.ok (run calldatas)) ∧
    ((∃ commitment,(run calldatas).commit=.ok commitment) ↔
      (run calldatas).verifiedUsers.length<2^32) := by
  have kept := kept_run calldatas
  refine ⟨kept.distinct,fun user listed => kept.formed _ (List.mem_map_of_mem listed),
    prefix_run calldatas,?_,?_,?_,exists_commit_iff kept⟩
  · intro calldata userAddress ctx parsed
    obtain ⟨fault,stopped,_⟩|⟨other,_,answer,read,answered,went,_⟩|
      ⟨proof,_,_,_,read,_⟩ := execute_cases (run calldatas) calldata
    · exfalso
      obtain ⟨answer,answered⟩ :
          ∃ answer,(run calldatas).checkVerification userAddress=.ok answer := by
        unfold checkVerification
        split <;> exact ⟨_,rfl⟩
      simp [execute,parsed,runAction,answered,Except.map,Outcome.fromExcept] at stopped
    · rw [parsed] at read
      obtain ⟨same,rfl⟩ := Prod.mk.inj (Except.ok.inj read)
      obtain rfl := ZKPassportAction.checkVerification.inj same
      exact ⟨answer,by rw [went],checkVerification_positive kept answered⟩
    · rw [parsed] at read
      cases read
  · intro calldata fault failed
    obtain ⟨other,stopped,_⟩|⟨_,_,_,_,_,went,_⟩|⟨_,_,_,_,_,_,_,went⟩ :=
      execute_cases (run calldatas) calldata
    · rw [stopped]
      exact ⟨rfl,rfl⟩
    · rw [went] at failed
      cases failed
    · rw [went] at failed
      cases failed
  · intro commitment written
    have encoded := Outcome.fromOption_eq_ok.mp written
    rw [fromCommitment,fromSlice_ser encoded]
    rfl

/-- What a verification does is decided by its proof alone: neither the identity that comes
with it nor the caller is read. -/
theorem execute_verifyIdentity (self : ZKPassport) (calldata : Calldata) {hyliIdentity : String}
    {ctx : ExecutionContext}
    (h : parseRawCalldata ZKPassportAction calldata=.ok (.verifyIdentity proof hyliIdentity,ctx)) :
    ((∃ out,(self.execute calldata).1=.ok out) ↔ Valid proof) ∧
    (self.execute calldata).2=
      if Valid proof ∧ proof.userAddress∉self.addresses
      then ⟨self.verifiedUsers++[record proof]⟩ else self := by
  obtain ⟨invalid,e,refused⟩|⟨valid,text,accepted⟩ := verifyIdentity_cases self proof hyliIdentity
  · have stopped : self.execute calldata=(.error (.err e),self) := by
      simp only [execute,h,runAction,refused,Except.map,Outcome.fromExcept]
    rw [stopped,if_neg fun fresh => invalid fresh.1]
    refine ⟨iff_of_false ?_ invalid,rfl⟩
    rintro ⟨out,ok⟩
    cases ok
  · have went : self.execute calldata=(.ok (text,ctx,[]),
        if proof.userAddress∈self.addresses then self
        else ⟨self.verifiedUsers++[record proof]⟩) := by
      simp only [execute,h,runAction,accepted,Except.map,Outcome.fromExcept]
    rw [went]
    refine ⟨iff_of_true ⟨_,rfl⟩ valid,?_⟩
    dsimp only
    by_cases known : proof.userAddress∈self.addresses
    · rw [if_pos known,if_neg fun fresh => fresh.2 known]
    · rw [if_neg known,if_pos ⟨valid,known⟩]

section Examples

/-- A proof bound to the address of `alice`. -/
def aliceProof : ZKPassportProof :=
  ⟨"proof","vkey","outer_evm_count_5","0.5.0",⟨⟨"2026-01-01",18,0⟩,⟨⟨"0xa11ce",""⟩⟩⟩⟩

/-- `mallory` sends the proof with the identity of `alice`. -/
def relayed : Calldata where
  txHash := ""
  identity := "mallory@hydentity"
  blobs := [(0,⟨"zkpassport",
    (Borsh.ser (ZKPassportAction.verifyIdentity aliceProof "alice@hydentity")).getD []⟩)]
  txBlobCount := 1
  index := 0
  txCtx := none
  privateInput := []

theorem parse_relayed : parseRawCalldata ZKPassportAction relayed=
    .ok (.verifyIdentity aliceProof "alice@hydentity",⟨[],"mallory@hydentity","zkpassport"⟩) := by
  decide +kernel

theorem execute_relayed : ∃ out,(default.execute relayed).1=.ok out :=
  (execute_verifyIdentity default relayed parse_relayed).1.mpr ⟨rfl,by decide,by decide +kernel⟩

theorem not_identity_bound : ¬∀ (self : ZKPassport) (calldata : Calldata)
    (proof : ZKPassportProof) (hyliIdentity : String) (ctx : ExecutionContext)
    (out : Bytes × ExecutionContext × List OnchainEffect),
    parseRawCalldata ZKPassportAction calldata=.ok (.verifyIdentity proof hyliIdentity,ctx) →
    (self.execute calldata).1=.ok out → hyliIdentity=calldata.identity := by
  intro bound
  have accepted : (default.execute relayed).1=.ok
      (utf8 "Successfully verified user 0xa11ce with ID zkp_0000000000000007",
        ⟨[],"mallory@hydentity","zkpassport"⟩,[]) := by
    decide +kernel
  exact absurd (bound _ _ _ _ _ _ parse_relayed accepted) (by decide)

end Examples

end TruthSeeker.ZKPassport
