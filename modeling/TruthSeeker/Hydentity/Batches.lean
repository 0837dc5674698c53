import TruthSeeker.Hydentity.Commitment

namespace TruthSeeker

open Sdk Borsh Bytes

namespace Sdk

open Outcome

variable {Action : Type} [Borsh Action] {calldata : Calldata}

theorem quiet_parseRawCalldata : Quiet (parseRawCalldata Action calldata) := by
  unfold parseRawCalldata
  refine Quiet.fromOption.bind ?_
  intro blob _
  refine Quiet.fromOption.bind ?_
  intro parameters _
  exact Quiet.of_ok

omit [Borsh Action] in
theorem quiet_checkCallerCallees {parameters : StructuredBlob Action} :
    Quiet (checkCallerCallees calldata parameters) := by
  unfold checkCallerCallees
  extract_lets callerOf
  have quiet : ∀ u,Quiet (callerOf u) := by
    intro u
    dsimp only [callerOf]
    split
    · refine Quiet.ensure.bind fun _ _ => Quiet.fromOption.bind fun callerBlob _ => ?_
      refine Quiet.fromOption.bind fun callerStructuredBlob _ => ?_
      refine Quiet.fromOption.bind fun callerCallees _ => Quiet.ensure.bind fun _ _ => ?_
      exact Quiet.of_ok
    · exact Quiet.ensure.bind fun _ _ => Quiet.of_ok
  split
  · exact Quiet.ensure.bind fun _ _ => quiet ()
  · exact quiet ()

theorem quiet_parseCalldata : Quiet (parseCalldata Action calldata) := by
  unfold parseCalldata
  refine Quiet.fromOption.bind ?_
  intro parsed _
  refine quiet_checkCallerCallees.bind ?_
  intro caller _
  exact Quiet.of_ok

theorem quiet_fromExcept {α : Type} {x : Except String α} : Quiet (fromExcept x .err) := by
  intro m
  cases x <;> simp [fromExcept]

end Sdk

namespace Hyllar

variable {sha256 : Bytes → H256} {quote : String → String} {self : Hyllar} {calldata : Calldata}

/-- An action that is refused has changed nothing. -/
theorem executeTokenAction_of_error {action : HyllarAction} {ctx : ExecutionContext} {e : String}
    (h : (self.executeTokenAction action ctx).1=.error e) :
    (self.executeTokenAction action ctx).2=self := by
  cases action with
  | totalSupply => cases h
  | balanceOf account => rfl
  | approve spender amount => cases h
  | allowance owner spender => cases h
  | transfer recipient amount =>
    simp only [executeTokenAction,transfer] at h ⊢
    cases hb : self.balanceOf ctx.caller with
    | error e => rfl
    | ok balance =>
      simp only [hb] at h ⊢
      split_ifs at h ⊢
      · rfl
      · cases h
  | transferFrom owner recipient amount =>
    simp only [executeTokenAction,transferFrom] at h ⊢
    cases hb : self.balanceOf owner with
    | error e => rfl
    | ok balance =>
      simp only [hb] at h ⊢
      split_ifs at h ⊢
      · rfl
      · rfl
      · cases h

theorem not_spills : ¬(hyllar sha256).Spills self calldata := by
  intro spills
  obtain ⟨⟨m,failed⟩,changed⟩ := spills
  apply changed
  show (self.execute calldata).2=self
  change (self.execute calldata).1=.error (.err m) at failed
  unfold execute at failed ⊢
  cases hp : parseCalldata HyllarAction calldata with
  | error fault => rfl
  | ok parsed =>
    simp only [hp] at failed ⊢
    apply executeTokenAction_of_error (e := m)
    cases hx : (self.executeTokenAction parsed.1 parsed.2).1 with
    | ok text => simp [hx,Except.map,Outcome.fromExcept] at failed
    | error e => simpa [hx,Except.map,Outcome.fromExcept] using failed

theorem calm : (hyllar sha256).Calm := by
  intro self calldata m
  show (self.execute calldata).1≠_
  unfold execute
  cases hp : parseCalldata HyllarAction calldata with
  | error fault =>
    intro h
    have quiet : Outcome.Quiet (parseCalldata HyllarAction calldata) := quiet_parseCalldata
    exact quiet m (hp.trans (congrArg Except.error (Except.error.inj h)))
  | ok parsed => exact quiet_fromExcept m

/-- A batch of the token in one proof, from the state that its executor starts with. -/
theorem execute_eq_outputs {metadata : Bytes} (hm : toVec self=.ok metadata)
    (batch : List Calldata) :
    Guest.execute (hyllar sha256).fullStateRevert quote metadata batch=
      (hyllar sha256).outputs quote self batch := by
  rw [Guest.execute_started (Z := (hyllar sha256).fullStateRevert)
    (fromSlice_ser (toVec_eq_ok.mp hm)) rfl]
  exact (ZkContract.turns_eq_outputs_iff calm
    (ZkContract.tells_of_not_spills (fun _ _ => not_spills) self batch)).mpr
      (ZkContract.restores_of_not_spills (fun _ _ => not_spills) self batch)

end Hyllar

namespace Hydentity

variable {sha256 : Bytes → H256} {toJson : AccountInfo → String} {quote : String → String}
  {self : Hydentity} {calldata : Calldata}

theorem calm : (hydentity sha256 toJson).Calm := by
  intro self calldata m
  show (self.execute sha256 toJson calldata).1≠_
  unfold execute
  cases hp : parseRawCalldata HydentityAction calldata with
  | error fault =>
    intro h
    have quiet : Outcome.Quiet (parseRawCalldata HydentityAction calldata) :=
      quiet_parseRawCalldata
    exact quiet m (hp.trans (congrArg Except.error (Except.error.inj h)))
  | ok parsed =>
    cases String.fromUTF8? ⟨calldata.privateInput.toArray⟩ with
    | none => simp
    | some privateInput => exact quiet_fromExcept m

theorem spills_iff :
    (hydentity sha256 toJson).Spills self calldata ↔ self.Overwrites sha256 calldata := by
  have atomic := @atomic_iff sha256 toJson id self calldata
  rw [Sdk.atomic_iff] at atomic
  constructor
  · intro spills
    obtain ⟨⟨m,failed⟩,changed⟩ := spills
    by_contra clean
    exact changed (atomic.mpr clean m failed _ rfl)
  · intro overwrites
    by_contra kept
    refine atomic.mp ?_ overwrites
    intro m failed _ _
    by_contra changed
    exact kept ⟨⟨m,failed⟩,changed⟩

/-- What the executor and the circuit hash over a batch. -/
def preimages (sha256 : Bytes → H256) (toJson : AccountInfo → String) (self : Hydentity) :
    List Calldata → List Bytes
  | [] => [self.preimage]
  | calldata::rest =>
      self.preimage::(self.execute sha256 toJson calldata).2.preimage::
        preimages sha256 toJson (self.step sha256 toJson calldata) rest

/-- The entry that a spill replaces, by one that is formed as a registration forms it. -/
theorem execute_of_overwrites (h : self.Overwrites sha256 calldata) :
    ∃ name privateInput info,credential name privateInput ∈ credentials calldata ∧
      ':'∉name.toList ∧ self.identities[name]?=some info ∧
      info≠⟨hashed sha256 name privateInput,0⟩ ∧ (self.execute sha256 toJson calldata).2=
        ⟨self.identities.insert name ⟨hashed sha256 name privateInput,0⟩⟩ := by
  obtain ⟨registration,ctx,privateInput,name,hash,others,info,parsed,text,split,checks,stored,
    differs⟩ := h
  have asked : request calldata=some (.registerIdentity registration,privateInput) := by
    simp only [request,parsed,text]
  have named : (HydentityAction.registerIdentity registration).account=name := by
    rw [HydentityAction.account,split]
    rfl
  have known : self.identities.contains name := by
    rw [Std.ExtTreeMap.contains_eq_isSome_getElem?,stored]
    rfl
  have register := registerIdentity_of_pieces self split checks
  rw [if_pos known] at register
  refine ⟨name,privateInput,info,?_,?_,stored,checks ▸ differs,?_⟩
  · simp [credentials,asked,named]
  · rw [← named]
    exact colon_not_mem_account
  · rw [← checks]
    simp only [execute,parsed,text,executeIdentityAction,register]

theorem formed_insert {S : Set Bytes} {identities : Std.ExtTreeMap String AccountInfo}
    {name : String} {info : AccountInfo} (h : ∀ entry ∈ identities.toList,Formed sha256 S entry)
    (hn : Formed sha256 S (name,info)) :
    ∀ entry ∈ (identities.insert name info).toList,Formed sha256 S entry := by
  intro entry listed
  obtain ⟨account,found⟩ := entry
  rw [Std.ExtTreeMap.mem_toList_iff_getElem?_eq_some,Std.ExtTreeMap.getElem?_insert] at listed
  split_ifs at listed with here
  · obtain rfl := Std.LawfulEqOrd.compare_eq_iff_eq.mp here
    obtain rfl := Option.some.inj listed
    exact hn
  · exact h _ (Std.ExtTreeMap.mem_toList_iff_getElem?_eq_some.mpr listed)

/-- What a registration spills into the state of a run can be told from the commitment. -/
theorem commit_ne_of_spills {earlier : List Calldata} {S : Set Bytes}
    (hs : ∀ bs ∈ (earlier++[calldata]).flatMap credentials,bs ∈ S)
    (hi : Set.InjOn sha256 (S∪{(run sha256 toJson earlier).preimage,
      ((run sha256 toJson earlier).execute sha256 toJson calldata).2.preimage}))
    (h : (hydentity sha256 toJson).Spills (run sha256 toJson earlier) calldata) :
    ((run sha256 toJson earlier).execute sha256 toJson calldata).2.commit sha256≠
      (run sha256 toJson earlier).commit sha256 := by
  intro same
  have bytes := hi (Set.mem_union_right _ (by simp)) (Set.mem_union_right _ (by simp))
    (ByteVec.toList_injective same)
  obtain ⟨name,privateInput,info,asked,colon,stored,_,next⟩ :=
    @execute_of_overwrites _ toJson _ _ (spills_iff.mp h)
  have formed : ∀ entry ∈ (run sha256 toJson earlier).identities.toList,Formed sha256 S entry :=
    formed_run fun bs hb => hs bs (by rw [List.flatMap_append]; exact List.mem_append_left _ hb)
  have replaced : Formed sha256 S (name,⟨hashed sha256 name privateInput,0⟩) :=
    ⟨colon,privateInput,hs _ (by simp [asked]),rfl⟩
  apply h.2
  show ((run sha256 toJson earlier).execute sha256 toJson calldata).2=_
  rw [next] at bytes ⊢
  have identities := Maps.toList_injective (entries_injective (hi.mono Set.subset_union_left)
    (formed_insert formed replaced) formed bytes)
  rw [identities]

theorem run_append_singleton (earlier : List Calldata) (calldata : Calldata) :
    run sha256 toJson (earlier++[calldata])=
      (run sha256 toJson earlier).step sha256 toJson calldata := by
  rw [run,List.foldl_append]
  rfl

theorem tells_run {earlier batch : List Calldata}
    (hi : Set.InjOn sha256 {bs | bs ∈ (earlier++batch).flatMap credentials++
      preimages sha256 toJson (run sha256 toJson earlier) batch}) :
    (hydentity sha256 toJson).Tells (run sha256 toJson earlier) batch := by
  induction batch generalizing earlier with
  | nil => trivial
  | cons calldata rest ih =>
    constructor
    · refine commit_ne_of_spills (S := {bs | bs ∈ (earlier++calldata::rest).flatMap credentials})
        ?_ (hi.mono ?_)
      · intro bs hb
        simp only [List.flatMap_append,List.flatMap_cons,List.flatMap_nil,List.append_nil,
          Set.mem_ofPred_eq,List.mem_append] at hb ⊢
        tauto
      · rintro bs (listed|rfl|rfl)
        · exact List.mem_append_left _ listed
        · exact List.mem_append_right _ List.mem_cons_self
        · exact List.mem_append_right _ (List.mem_cons_of_mem _ List.mem_cons_self)
    · have later := @ih (earlier++[calldata]) (hi.mono ?_)
      · rw [run_append_singleton] at later
        exact later
      · rw [run_append_singleton,List.append_assoc]
        intro bs hb
        obtain listed|hashed := List.mem_append.mp hb
        · exact List.mem_append_left _ listed
        · exact List.mem_append_right _ (List.mem_cons_of_mem _ (List.mem_cons_of_mem _ hashed))

theorem restores_run_iff {earlier batch : List Calldata} :
    (hydentity sha256 toJson).Restores (run sha256 toJson earlier) batch ↔
      ∀ before calldata after,batch=before++calldata::after → after≠[] →
        ¬(run sha256 toJson (earlier++before)).Overwrites sha256 calldata := by
  induction batch generalizing earlier with
  | nil => simp [ZkContract.Restores]
  | cons first rest ih =>
    have later := @ih (earlier++[first])
    rw [run_append_singleton] at later
    show (rest≠[] → ¬(hydentity sha256 toJson).Spills (run sha256 toJson earlier) first) ∧
      (hydentity sha256 toJson).Restores
        ((run sha256 toJson earlier).step sha256 toJson first) rest ↔ _
    rw [later,spills_iff]
    constructor
    · intro h before calldata after split more
      cases before with
      | nil =>
        obtain ⟨rfl,rfl⟩ := List.cons.inj split
        rw [List.append_nil]
        exact h.1 more
      | cons head before =>
        obtain ⟨rfl,tail⟩ := List.cons.inj split
        have clean := h.2 before calldata after tail more
        rw [List.append_assoc] at clean
        exact clean
    · intro h
      refine ⟨?_,?_⟩
      · intro more
        have clean := h [] first rest rfl more
        rw [List.append_nil] at clean
        exact clean
      · intro before calldata after split more
        rw [List.append_assoc]
        exact h (first::before) calldata after (congrArg (first::·) split) more

/-- One proof of a batch has the outputs that the executor gave: always for Hyllar, and for
Hydentity exactly if no call but the last one registers an account that exists with another
entry than a fresh one. -/
theorem batches_agree (sha256 : Bytes → H256) (toJson : AccountInfo → String)
    (quote : String → String) (token : Hyllar) (calls earlier batch : List Calldata)
    (tokenMetadata metadata : Bytes) (ht : toVec token=.ok tokenMetadata)
    (hm : toVec (run sha256 toJson earlier)=.ok metadata)
    (hi : Set.InjOn sha256 {bs | bs ∈ (earlier++batch).flatMap credentials++
      preimages sha256 toJson (run sha256 toJson earlier) batch}) :
    Guest.execute (hyllar sha256).fullStateRevert quote tokenMetadata calls=
      (hyllar sha256).outputs quote token calls ∧
    (Guest.execute (hydentity sha256 toJson).fullStateRevert quote metadata batch=
        (hydentity sha256 toJson).outputs quote (run sha256 toJson earlier) batch ↔
      ∀ before calldata after,batch=before++calldata::after → after≠[] →
        ¬(run sha256 toJson (earlier++before)).Overwrites sha256 calldata) := by
  refine ⟨Hyllar.execute_eq_outputs ht calls,?_⟩
  rw [← @restores_run_iff _ toJson,
    Guest.execute_started (Z := (hydentity sha256 toJson).fullStateRevert)
      (fromSlice_ser (toVec_eq_ok.mp hm)) rfl]
  exact ZkContract.turns_eq_outputs_iff calm (tells_run hi)

section Examples

/-- `bob` has registered and has been verified once. -/
def verified : List Calldata := enrolment++[owner]

/-- The registration is sent again, and somebody asks for the account. -/
def repeated : List Calldata := [bobCalldata registration "pw",stranger]

/-- With SHA-256 of the state of `bob` after a verification. -/
def verifiedDigests : List (Bytes × H256) :=
  knownDigests++stateDigests++[((run knownSha256 noJson verified).preimage,ByteVec.ofNat 32
    0x3ee88464b0e4a2d70543bbee2bf621f6dd30fc0bd0c1c5bd2454d069bc95bb96)]

def verifiedSha256 : Bytes → H256 := ByteVec.lookup verifiedDigests

theorem injOn_verifiedSha256 {bytes : List Bytes}
    (h : ∀ bs ∈ bytes,bs ∈ verifiedDigests.map Prod.fst) :
    Set.InjOn verifiedSha256 {bs | bs ∈ bytes} :=
  (ByteVec.lookup_injOn verifiedDigests (by decide +kernel)).mono h

/-- The registration resets the nonce of the executor alone. -/
theorem batches_agree_repeated :
    Guest.execute (hydentity verifiedSha256 noJson).fullStateRevert id
        ((Borsh.ser (run verifiedSha256 noJson verified)).getD []) repeated≠
      (hydentity verifiedSha256 noJson).outputs id (run verifiedSha256 noJson verified)
        repeated := by
  have written : ∀ {α : Type} [Borsh α] (a : α),(Borsh.ser a).isSome=true →
      toVec a=.ok ((Borsh.ser a).getD []) := by
    intro α _ a writes
    obtain ⟨bytes,hb⟩ := Option.isSome_iff_exists.mp writes
    rw [toVec_eq_ok,hb]
    rfl
  have agree := batches_agree verifiedSha256 noJson id Hyllar.default [] verified repeated _ _
    (written Hyllar.default (by decide +kernel)) (written _ (by decide +kernel))
    (injOn_verifiedSha256 (by decide +kernel))
  rw [ne_eq,agree.2]
  intro clean
  have spills : (run verifiedSha256 noJson verified).Overwrites verifiedSha256
      (bobCalldata registration "pw") := by
    rw [← @spills_iff _ noJson]
    refine ⟨⟨"Failed to register identity: Identity already exists",by decide +kernel⟩,?_⟩
    intro same
    have kept := congrArg (fun self : Hydentity => self.identities["bob@hydentity"]?) same
    exact absurd kept (by decide +kernel)
  refine clean [] _ [stranger] rfl (List.cons_ne_nil _ _) ?_
  rw [List.append_nil]
  exact spills

end Examples

end Hydentity

end TruthSeeker
