import TruthSeeker.ZkPassport.History

namespace TruthSeeker.ZKPassport

open Bytes Borsh Sdk

/-- The calldata carries a proof for the address that the contract accepts. -/
def Verifies (calldata : Calldata) (userAddress : String) : Prop :=
  ∃ proof hyliIdentity ctx,
    parseRawCalldata ZKPassportAction calldata=.ok (.verifyIdentity proof hyliIdentity,ctx) ∧
    Valid proof ∧ proof.userAddress=userAddress

/-- Different users have different identifiers. -/
def IdsUnique (self : ZKPassport) : Prop :=
  ∀ u ∈ self.verifiedUsers,∀ v ∈ self.verifiedUsers,
    u.userAddress≠v.userAddress → u.uniqueId≠v.uniqueId

section Ids
variable {self : ZKPassport} {calldata : Calldata}

/-- Every record has the identifier of its address. -/
def Identified (self : ZKPassport) : Prop :=
  ∀ user ∈ self.verifiedUsers,user.uniqueId=uniqueIdOf user.userAddress

theorem identified_call (h : Identified self) : Identified (self.call calldata) := by
  obtain ⟨fault,stopped,_⟩|⟨_,_,_,_,_,answered,_⟩|⟨proof,_,_,_,_,_,_,went⟩ :=
    execute_cases self calldata
  · rw [call,stopped]
    exact h
  · rw [call,answered]
    exact h
  · rw [call,went]
    dsimp only
    split_ifs with known
    · exact h
    · intro user listed
      obtain before|last := List.mem_append.mp listed
      · exact h user before
      · rw [List.mem_singleton.mp last]
        rfl

theorem identified_run (calldatas : List Calldata) : Identified (run calldatas) := by
  refine List.foldlRecOn (motive := Identified) calldatas call ?_ ?_
  · intro user listed
    cases listed
  · intro passport h calldata _
    exact identified_call h

theorem mem_verified {userAddress : String} :
    userAddress∈self.verified calldata ↔ Verifies calldata userAddress := by
  obtain ⟨fault,stopped,none⟩|⟨_,_,_,parsed,_,_,none⟩|
    ⟨proof,hyliIdentity,ctx,out,parsed,valid,one,_⟩ := execute_cases self calldata
  · rw [none]
    refine iff_of_false List.not_mem_nil ?_
    rintro ⟨proof,hyliIdentity,ctx,parsed,valid,_⟩
    obtain ⟨out,ok⟩ := (execute_verifyIdentity self calldata parsed).1.mpr valid
    rw [stopped] at ok
    cases ok
  · rw [none]
    refine iff_of_false List.not_mem_nil ?_
    rintro ⟨proof,hyliIdentity,ctx,read,_⟩
    rw [parsed] at read
    cases read
  · rw [one,List.mem_singleton]
    constructor
    · rintro rfl
      exact ⟨proof,hyliIdentity,ctx,parsed,valid,rfl⟩
    · rintro ⟨other,_,_,read,_,rfl⟩
      rw [parsed] at read
      obtain ⟨same,_⟩ := Prod.mk.inj (Except.ok.inj read)
      rw [(ZKPassportAction.verifyIdentity.inj same).1]

/-- The registry holds the addresses for which the run has a valid proof. -/
theorem mem_addresses_run {calldatas : List Calldata} {userAddress : String} :
    userAddress∈(run calldatas).addresses ↔ ∃ calldata ∈ calldatas,Verifies calldata userAddress := by
  rw [← (kept_run calldatas).recorded]
  have all : ∀ passport : ZKPassport,userAddress∈Trace.outputs call verified passport calldatas ↔
      ∃ calldata ∈ calldatas,Verifies calldata userAddress := by
    induction calldatas with
    | nil => simp [Trace.outputs]
    | cons calldata calldatas ih =>
      intro passport
      rw [Trace.outputs,List.mem_append,mem_verified,ih,List.exists_mem_cons_iff]
  exact all default

/-- An address that was read has a length that the identifier holds in full. -/
theorem length_of_mem_addresses {calldatas : List Calldata} {userAddress : String}
    (h : userAddress∈(run calldatas).addresses) : (utf8 userAddress).length<2^64 := by
  obtain ⟨user,listed,rfl⟩ := List.mem_map.mp h
  obtain ⟨_,address,_⟩ := exists_ser_user.mp ((kept_run calldatas).writable user listed)
  have short := exists_ser_string.mp address
  omega

theorem uniqueIdOf_eq_iff {a b : String} (ha : (utf8 a).length<2^64)
    (hb : (utf8 b).length<2^64) : uniqueIdOf a=uniqueIdOf b ↔ (utf8 a).length=(utf8 b).length := by
  constructor
  · intro same
    have digits := congrArg String.toList same
    simp only [uniqueIdOf,String.toList_append] at digits
    have bytes := hex_injective (String.toList_inj.mp (List.append_cancel_left digits))
    exact ofNatLE_injective 8 _ _ ha hb (List.reverse_injective bytes)
  · intro same
    rw [uniqueIdOf,uniqueIdOf,same]

end Ids

/-- The identifiers are those of the lengths: they are unique in a run without valid proofs for
two addresses of one length. -/
theorem idsUnique_run_iff (calldatas : List Calldata) : IdsUnique (run calldatas) ↔
    ∀ a b,(∃ calldata ∈ calldatas,Verifies calldata a) →
      (∃ calldata ∈ calldatas,Verifies calldata b) →
      (utf8 a).length=(utf8 b).length → a=b := by
  have identified := identified_run calldatas
  constructor
  · intro unique a b ha hb same
    by_contra different
    have listedA := mem_addresses_run.mpr ha
    have listedB := mem_addresses_run.mpr hb
    obtain ⟨u,hu,rfl⟩ := List.mem_map.mp listedA
    obtain ⟨v,hv,rfl⟩ := List.mem_map.mp listedB
    apply unique u hu v hv different
    rw [identified u hu,identified v hv]
    exact (uniqueIdOf_eq_iff (length_of_mem_addresses listedA)
      (length_of_mem_addresses listedB)).mpr same
  · intro lengths u hu v hv different same
    have listedU := List.mem_map_of_mem (f := VerifiedUser.userAddress) hu
    have listedV := List.mem_map_of_mem (f := VerifiedUser.userAddress) hv
    rw [identified u hu,identified v hv,uniqueIdOf_eq_iff (length_of_mem_addresses listedU)
      (length_of_mem_addresses listedV)] at same
    exact different (lengths _ _ (mem_addresses_run.mp listedU) (mem_addresses_run.mp listedV) same)

section Twins

/-- The verification of an address, as its user sends it. -/
def verification (userAddress : String) : Calldata where
  txHash := ""
  identity := "user@hydentity"
  blobs := [(0,⟨"zkpassport",(ser (ZKPassportAction.verifyIdentity
    ⟨"proof","vkey","outer_evm_count_5","0.5.0",⟨⟨"2026-01-01",18,0⟩,⟨⟨userAddress,""⟩⟩⟩⟩
    "user@hydentity")).getD []⟩)]
  txBlobCount := 1
  index := 0
  txCtx := none
  privateInput := []

theorem not_idsUnique_run : ¬IdsUnique (run [verification "0xa11ce",verification "0xb0bby"]) := by
  have users : (run [verification "0xa11ce",verification "0xb0bby"]).verifiedUsers=
      [⟨"zkp_0000000000000007","0xa11ce","2026-01-01",true,""⟩,
        ⟨"zkp_0000000000000007","0xb0bby","2026-01-01",true,""⟩] := by
    decide +kernel
  intro unique
  unfold IdsUnique at unique
  rw [users] at unique
  have different := unique _ List.mem_cons_self _ (List.mem_cons_of_mem _ List.mem_cons_self)
    (by decide)
  exact different rfl

end Twins

end TruthSeeker.ZKPassport
