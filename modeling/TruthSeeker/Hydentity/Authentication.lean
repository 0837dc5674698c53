import TruthSeeker.Framework.Trace
import TruthSeeker.Hydentity.Executor

namespace TruthSeeker

/-- The account that an action names. -/
def HydentityAction.account : HydentityAction → String
  | .registerIdentity registration => (Hydentity.pieces registration).headD ""
  | .verifyIdentity account _ => account
  | .getIdentityInfo account => account

namespace Hydentity

open Sdk Bytes

variable (sha256 : Bytes → H256) (toJson : AccountInfo → String)

/-- An action that goes through with a private input, and the state it leaves. -/
inductive Accepts (self : Hydentity) (privateInput : String) : HydentityAction → Hydentity → Prop
  | register (registration name hash : String) (others : List String)
      (split : pieces registration=name::hash::others)
      (checks : hash=hashed sha256 name privateInput) (fresh : self.identities[name]?=none) :
      Accepts self privateInput (.registerIdentity registration)
        ⟨self.identities.insert name ⟨hash,0⟩⟩
  | verify (account : String) (info : AccountInfo) (stored : self.identities[account]?=some info)
      (checks : info.hash=hashed sha256 account privateInput) :
      Accepts self privateInput (.verifyIdentity account info.nonce)
        ⟨self.identities.insert account ⟨info.hash,info.nonce+1⟩⟩
  | read (account : String) (info : AccountInfo) (stored : self.identities[account]?=some info) :
      Accepts self privateInput (.getIdentityInfo account) self

/-- The action of a blob with the private input. -/
def request (calldata : Calldata) : Option (HydentityAction × String) :=
  match parseRawCalldata HydentityAction calldata,
      String.fromUTF8? ⟨calldata.privateInput.toArray⟩ with
  | .ok (action,_),some privateInput => some (action,privateInput)
  | _,_ => none

/-- The contract after one blob in the circuit: a failure is reverted. -/
def step (self : Hydentity) (calldata : Calldata) : Hydentity :=
  match (self.execute sha256 toJson calldata).1 with
  | .ok _ => (self.execute sha256 toJson calldata).2
  | .error _ => self

def run (calldatas : List Calldata) : Hydentity := calldatas.foldl (step sha256 toJson) default

/-- The request of a blob that succeeds. -/
def granted (self : Hydentity) (calldata : Calldata) : List (HydentityAction × String) :=
  match request calldata,(self.execute sha256 toJson calldata).1 with
  | some request,.ok _ => [request]
  | _,_ => []

/-- The requests of a run that succeeded. -/
def history (calldatas : List Calldata) : List (HydentityAction × String) :=
  Trace.outputs (step sha256 toJson) (granted sha256 toJson) default calldatas

/-- The accounts registered, with the private inputs they were registered with. -/
def registrations (requests : List (HydentityAction × String)) : List (String × String) :=
  requests.filterMap fun request => match request.1 with
    | .registerIdentity _ => some (request.1.account,request.2)
    | _ => none

/-- The nonces that were accepted for an account. -/
def nonces (account : String) (requests : List (HydentityAction × String)) : List UInt32 :=
  requests.filterMap fun request => match request.1 with
    | .verifyIdentity other nonce => if other=account then some nonce else none
    | _ => none

variable {sha256 toJson} {self next : Hydentity} {calldata : Calldata}

/-- An execution succeeds exactly when its action goes through. -/
theorem execute_ok_iff {out : Bytes × ExecutionContext × List OnchainEffect}
    (h : (self.execute sha256 toJson calldata).1=.ok out) :
    ∃ action privateInput,request calldata=some (action,privateInput) ∧
      Accepts sha256 self privateInput action (self.execute sha256 toJson calldata).2 := by
  cases parsed : parseRawCalldata HydentityAction calldata with
  | error fault => simp [execute,parsed] at h
  | ok parsed_action =>
    obtain ⟨action,ctx⟩ := parsed_action
    cases text : String.fromUTF8? ⟨calldata.privateInput.toArray⟩ with
    | none => simp [execute,parsed,text] at h
    | some privateInput =>
      refine ⟨action,privateInput,by simp only [request,parsed,text],?_⟩
      simp only [execute,parsed,text] at h ⊢
      cases action with
      | getIdentityInfo account =>
        cases stored : self.identities[account]? with
        | none =>
          simp [executeIdentityAction,getIdentityInfo,stored,Except.map,Outcome.fromExcept] at h
        | some info =>
          simp only [executeIdentityAction,getIdentityInfo,stored]
          exact .read account info stored
      | verifyIdentity account nonce =>
        obtain ⟨e,refused⟩|refused|⟨info,stored,rfl,checks,went⟩ :=
          verifyIdentity_cases self sha256 account nonce privateInput
        · simp [executeIdentityAction,refused,Except.map,Outcome.fromExcept] at h
        · simp [executeIdentityAction,refused,Except.map,Outcome.fromExcept] at h
        · simp only [executeIdentityAction,went]
          exact .verify account info stored checks
      | registerIdentity registration =>
        obtain ⟨e,refused⟩|⟨name,hash,others,split,checks⟩ :=
          registerIdentity_cases self sha256 registration privateInput
        · simp [executeIdentityAction,refused,Except.map,Outcome.fromExcept] at h
        · have register := registerIdentity_of_pieces self split checks
          by_cases known : self.identities.contains name
          · rw [if_pos known] at register
            simp [executeIdentityAction,register,Except.map,Outcome.fromExcept] at h
          · rw [if_neg known] at register
            simp only [executeIdentityAction,register]
            have fresh : self.identities[name]?=none := by
              rw [Std.ExtTreeMap.contains_eq_isSome_getElem?] at known
              simpa using known
            exact .register registration name hash others split checks fresh

/-- An action that goes through makes the execution succeed. -/
theorem execute_of_accepts (toJson : AccountInfo → String) {action : HydentityAction} {privateInput : String}
    (hr : request calldata=some (action,privateInput))
    (ha : Accepts sha256 self privateInput action next) :
    ∃ out,self.execute sha256 toJson calldata=(.ok out,next) := by
  obtain ⟨ctx,parsed,text⟩ : ∃ ctx,parseRawCalldata HydentityAction calldata=.ok (action,ctx) ∧
      String.fromUTF8? ⟨calldata.privateInput.toArray⟩=some privateInput := by
    unfold request at hr
    split at hr
    · rename_i parsed text
      obtain ⟨rfl,rfl⟩ := Prod.mk.inj (Option.some.inj hr)
      exact ⟨_,parsed,text⟩
    · cases hr
  cases ha with
  | register registration name hash others split checks fresh =>
    have known : ¬self.identities.contains name := by
      rw [Std.ExtTreeMap.contains_eq_isSome_getElem?,fresh]
      simp
    have register := registerIdentity_of_pieces self split checks
    rw [if_neg known] at register
    exact ⟨_,by simp only [execute,parsed,text,executeIdentityAction,register,Except.map,
      Outcome.fromExcept]; rfl⟩
  | verify account info stored checks =>
    have went : self.verifyIdentity sha256 account info.nonce privateInput=
        (.ok true,⟨self.identities.insert account ⟨info.hash,info.nonce+1⟩⟩) := by
      simp only [verifyIdentity,stored,ne_eq,not_true,if_false,checks]
    exact ⟨_,by simp only [execute,parsed,text,executeIdentityAction,went,Except.map,
      Outcome.fromExcept]; rfl⟩
  | read account info stored =>
    exact ⟨_,by simp only [execute,parsed,text,executeIdentityAction,getIdentityInfo,stored,
      Except.map,Outcome.fromExcept]; rfl⟩

/-- One blob: it is refused and nothing changes, or its action goes through. -/
theorem step_cases (sha256 : Bytes → H256) (toJson : AccountInfo → String) (self : Hydentity)
    (calldata : Calldata) :
    (self.step sha256 toJson calldata=self ∧ self.granted sha256 toJson calldata=[]) ∨
    ∃ action privateInput,request calldata=some (action,privateInput) ∧
      self.granted sha256 toJson calldata=[(action,privateInput)] ∧
      Accepts sha256 self privateInput action (self.step sha256 toJson calldata) := by
  cases result : (self.execute sha256 toJson calldata).1 with
  | error fault =>
    refine .inl ⟨by simp only [step,result],?_⟩
    simp only [granted,result]
    split <;> simp_all
  | ok out =>
    obtain ⟨action,privateInput,asked,accepts⟩ := execute_ok_iff result
    refine .inr ⟨action,privateInput,asked,by simp only [granted,asked,result],?_⟩
    simpa only [step,result] using accepts

theorem getElem?_insert {name account : String} {info : AccountInfo} :
    (self.identities.insert name info)[account]?=
      if name=account then some info else self.identities[account]? := by
  rw [Std.ExtTreeMap.getElem?_insert]
  simp only [Std.LawfulEqOrd.compare_eq_iff_eq]

/-- No action that goes through changes the hash of an account. -/
theorem hash_of_accepts {action : HydentityAction} {privateInput account : String}
    {info : AccountInfo} (ha : Accepts sha256 self privateInput action next)
    (stored : self.identities[account]?=some info) :
    ∃ later,next.identities[account]?=some later ∧ later.hash=info.hash := by
  cases ha with
  | register registration name hash others split checks fresh =>
    have apart : name≠account := by
      rintro rfl
      rw [fresh] at stored
      cases stored
    exact ⟨info,by rw [getElem?_insert,if_neg apart,stored],rfl⟩
  | verify other known found checks =>
    by_cases same : other=account
    · subst same
      obtain rfl := Option.some.inj (found.symm.trans stored)
      exact ⟨⟨known.hash,known.nonce+1⟩,by rw [getElem?_insert,if_pos rfl],rfl⟩
    · exact ⟨info,by rw [getElem?_insert,if_neg same,stored],rfl⟩
  | read other known found => exact ⟨info,stored,rfl⟩

/-- The accounts of a state next to the requests granted so far. The stored nonces count the
verifications, up to the wrap of their 32 bits. -/
structure Known (sha256 : Bytes → H256) (requests : List (HydentityAction × String))
    (state : Hydentity) : Prop where
  stored : ∀ account privateInput,(account,privateInput)∈registrations requests →
    ∃ info,state.identities[account]?=some info ∧ info.hash=hashed sha256 account privateInput
  registered : ∀ account info,state.identities[account]?=some info →
    ∃ privateInput,(account,privateInput)∈registrations requests ∧
      info.hash=hashed sha256 account privateInput
  counted : ∀ account info,state.identities[account]?=some info →
    info.nonce.toNat=(nonces account requests).length%2^32
  unknown : ∀ account,state.identities[account]?=none → nonces account requests=[]
  serial : ∀ account,(nonces account requests).map UInt32.toNat=
    (List.range (nonces account requests).length).map (·%2^32)

theorem registrations_append {requests : List (HydentityAction × String)}
    {request : HydentityAction × String} :
    registrations (requests++[request])=registrations requests++registrations [request] :=
  List.filterMap_append

theorem nonces_append {account : String} {requests : List (HydentityAction × String)}
    {request : HydentityAction × String} :
    nonces account (requests++[request])=nonces account requests++nonces account [request] :=
  List.filterMap_append

theorem nonces_verify {account other privateInput : String} {nonce : UInt32} :
    nonces account [(.verifyIdentity other nonce,privateInput)]=
      if other=account then [nonce] else [] := by
  by_cases same : other=account
  · simp [nonces,same]
  · simp [nonces,same]

theorem Known.accepts {requests : List (HydentityAction × String)} {action : HydentityAction}
    {privateInput : String} (h : Known sha256 requests self)
    (ha : Accepts sha256 self privateInput action next) :
    Known sha256 (requests++[(action,privateInput)]) next := by
  cases ha with
  | read account info found =>
    have quiet : registrations (requests++[(.getIdentityInfo account,privateInput)])=
        registrations requests := by
      rw [registrations_append]
      exact List.append_nil _
    have idle (other : String) : nonces other
        (requests++[(.getIdentityInfo account,privateInput)])=nonces other requests := by
      rw [nonces_append]
      exact List.append_nil _
    refine ⟨?_,?_,?_,?_,?_⟩
    · simpa only [quiet] using h.stored
    · simpa only [quiet] using h.registered
    · simpa only [idle] using h.counted
    · simpa only [idle] using h.unknown
    · simpa only [idle] using h.serial
  | register registration name hash others split checks fresh =>
    have entered : registrations (requests++[(.registerIdentity registration,privateInput)])=
        registrations requests++[(name,privateInput)] := by
      rw [registrations_append]
      simp [registrations,HydentityAction.account,split]
    have idle (other : String) : nonces other
        (requests++[(.registerIdentity registration,privateInput)])=nonces other requests := by
      rw [nonces_append]
      exact List.append_nil _
    refine ⟨fun account password listed => ?_,fun account info found => ?_,
      fun account info found => ?_,fun account absent => ?_,?_⟩
    · rw [entered,List.mem_append,List.mem_singleton,Prod.mk.injEq] at listed
      obtain before|⟨rfl,rfl⟩ := listed
      · obtain ⟨info,found,same⟩ := h.stored account password before
        have apart : name≠account := by
          rintro rfl
          rw [fresh] at found
          cases found
        exact ⟨info,by rw [getElem?_insert,if_neg apart,found],same⟩
      · exact ⟨_,by rw [getElem?_insert,if_pos rfl],checks⟩
    · rw [getElem?_insert] at found
      rw [entered]
      split_ifs at found with here
      · subst here
        obtain rfl := Option.some.inj found
        exact ⟨privateInput,List.mem_append_right _ List.mem_cons_self,checks⟩
      · obtain ⟨password,listed,same⟩ := h.registered account info found
        exact ⟨password,List.mem_append_left _ listed,same⟩
    · rw [getElem?_insert] at found
      rw [idle]
      split_ifs at found with here
      · subst here
        obtain rfl := Option.some.inj found
        rw [h.unknown name fresh]
        rfl
      · exact h.counted account info found
    · rw [getElem?_insert] at absent
      rw [idle]
      split_ifs at absent with here
      exact h.unknown account absent
    · simpa only [idle] using h.serial
  | verify account info found checks =>
    have quiet : registrations (requests++[(.verifyIdentity account info.nonce,privateInput)])=
        registrations requests := by
      rw [registrations_append]
      exact List.append_nil _
    have count := h.counted account info found
    refine ⟨fun other password listed => ?_,fun other later here => ?_,fun other later here => ?_,
      fun other absent => ?_,fun other => ?_⟩
    · rw [quiet] at listed
      obtain ⟨old,held,same⟩ := h.stored other password listed
      obtain ⟨later,now,kept⟩ := hash_of_accepts
        (@Accepts.verify sha256 _ privateInput account info found checks) held
      exact ⟨later,now,kept.trans same⟩
    · rw [quiet]
      rw [getElem?_insert] at here
      split_ifs at here with same
      · subst same
        obtain rfl := Option.some.inj here
        exact h.registered account info found
      · exact h.registered other later here
    · rw [getElem?_insert] at here
      rw [nonces_append,nonces_verify]
      split_ifs at here ⊢ with same
      · subst same
        obtain rfl := Option.some.inj here
        rw [List.length_append,List.length_singleton,UInt32.toNat_add,count]
        change (_%2^32+1)%2^32=_
        omega
      · rw [List.append_nil]
        exact h.counted other later here
    · rw [getElem?_insert] at absent
      rw [nonces_append,nonces_verify]
      split_ifs at absent ⊢ with same
      rw [List.append_nil]
      exact h.unknown other absent
    · rw [nonces_append,nonces_verify]
      split_ifs with same
      · subst same
        rw [List.map_append,h.serial,List.length_append,List.length_singleton,List.range_succ,
          List.map_append,List.map_singleton,List.map_singleton,count]
      · rw [List.append_nil]
        exact h.serial other

theorem known_run (sha256 : Bytes → H256) (toJson : AccountInfo → String)
    (calldatas : List Calldata) :
    Known sha256 (history sha256 toJson calldatas) (run sha256 toJson calldatas) := by
  have none (account : String) : default.identities[account]?=none :=
    Std.ExtTreeMap.getElem?_empty
  have start : Known sha256 [] default := by
    refine ⟨?_,?_,?_,?_,?_⟩
    · simp [registrations]
    · simp [none]
    · simp [none]
    · simp [nonces]
    · simp [nonces]
  refine Trace.foldl_of_past (I := Known sha256) start ?_
  intro requests self calldata _ h
  obtain ⟨kept,refused⟩|⟨action,privateInput,_,one,accepts⟩ :=
    step_cases sha256 toJson self calldata
  · rw [kept,refused,List.append_nil]
    exact h
  · rw [one]
    exact h.accepts accepts

/-- What a blob could hash. -/
def credentials (calldata : Calldata) : List Bytes :=
  match request calldata with
  | some (action,privateInput) => [credential action.account privateInput]
  | none => []

/-- A success names the caller and was given the private input of the caller's registration. -/
def Attests (sha256 : Bytes → H256) (toJson : AccountInfo → String) (before : List Calldata)
    (calldata : Calldata) : Prop :=
  ∀ out,((run sha256 toJson before).execute sha256 toJson calldata).1=.ok out →
    ∃ action privateInput,request calldata=some (action,privateInput) ∧
      action.account=calldata.identity ∧
      (calldata.identity,privateInput)∈
        registrations (history sha256 toJson (before++[calldata]))

/-- The account of a request is the caller, unless the request fails on the stored accounts;
a read comes with the password of the account. -/
def Owned (sha256 : Bytes → H256) (self : Hydentity) (calldata : Calldata) : Prop :=
  ∀ action privateInput,request calldata=some (action,privateInput) →
    match action with
    | .registerIdentity registration => ∀ name hash others,
        pieces registration=name::hash::others → hash=hashed sha256 name privateInput →
        self.identities[name]?=none → name=calldata.identity
    | .verifyIdentity account nonce => ∀ info,self.identities[account]?=some info →
        info.nonce=nonce → info.hash=hashed sha256 account privateInput →
        account=calldata.identity
    | .getIdentityInfo account => ∀ info,self.identities[account]?=some info →
        account=calldata.identity ∧ info.hash=hashed sha256 account privateInput

/-- A registration of a run hashed the credential that it checked. -/
theorem mem_credentials {calldatas : List Calldata} {account privateInput : String}
    (h : (account,privateInput)∈registrations (history sha256 toJson calldatas)) :
    credential account privateInput∈calldatas.flatMap credentials := by
  obtain ⟨⟨action,password⟩,listed,entered⟩ := List.mem_filterMap.mp h
  have asked : ∀ asked ∈ history sha256 toJson calldatas,
      ∃ calldata ∈ calldatas,request calldata=some asked := by
    refine Trace.forall_mem_outputs (I := fun _ => True) trivial (fun _ _ _ _ => trivial) ?_
    intro self calldata here _ asked ha
    obtain ⟨_,refused⟩|⟨action,password,found,one,_⟩ :=
      step_cases sha256 toJson self calldata
    · rw [refused] at ha
      cases ha
    · rw [one,List.mem_singleton] at ha
      exact ⟨calldata,here,ha ▸ found⟩
  obtain ⟨calldata,here,found⟩ := asked _ listed
  rw [List.mem_flatMap]
  refine ⟨calldata,here,?_⟩
  cases action with
  | registerIdentity registration =>
    obtain ⟨rfl,rfl⟩ := Prod.mk.inj (Option.some.inj entered)
    rw [credentials,found]
    exact List.mem_cons_self
  | verifyIdentity account nonce => cases entered
  | getIdentityInfo account => cases entered

theorem credential_injective {name password other : String}
    (h : credential name password=credential name other) : password=other := by
  have texts := congrArg String.toList (utf8_injective h)
  simp only [String.toList_append,List.append_assoc] at texts
  have tails := List.append_cancel_left (List.append_cancel_left texts)
  exact String.toList_inj.mp tails

theorem hashed_injective {S : Set Bytes} (hi : Set.InjOn sha256 S) {name password other : String}
    (hp : credential name password∈S) (ho : credential name other∈S)
    (h : hashed sha256 name password=hashed sha256 name other) : password=other := by
  have digests := ByteVec.toList_injective (hex_injective h)
  exact credential_injective (hi hp ho digests)

theorem history_append (before : List Calldata) (calldata : Calldata) :
    history sha256 toJson (before++[calldata])=
      history sha256 toJson before++(run sha256 toJson before).granted sha256 toJson calldata := by
  rw [history,Trace.outputs_append]
  exact congrArg _ (List.append_nil _)

theorem granted_of_ok {action : HydentityAction} {privateInput : String}
    {out : Bytes × ExecutionContext × List OnchainEffect}
    (asked : request calldata=some (action,privateInput))
    (h : (self.execute sha256 toJson calldata).1=.ok out) :
    self.granted sha256 toJson calldata=[(action,privateInput)] := by
  simp only [granted,asked,h]

/-- A caller is attested with its own password exactly on the requests it owns. -/
theorem attests_iff {before : List Calldata}
    (hi : Set.InjOn sha256 {bs | bs∈(before++[calldata]).flatMap credentials}) :
    Attests sha256 toJson before calldata ↔
      Owned sha256 (run sha256 toJson before) calldata := by
  have known := known_run sha256 toJson before
  rw [List.flatMap_append,List.flatMap_singleton] at hi
  have agree {account info password : String}
      (registered : (account,info)∈registrations (history sha256 toJson before))
      (asked : credential account password∈credentials calldata)
      (same : hashed sha256 account password=hashed sha256 account info) : password=info :=
    hashed_injective hi (List.mem_append_right _ asked)
      (List.mem_append_left _ (mem_credentials registered)) same
  constructor
  · intro attests action privateInput asked
    have names {next : Hydentity}
        (accepts : Accepts sha256 (run sha256 toJson before) privateInput action next) :
        action.account=calldata.identity ∧ (calldata.identity,privateInput)∈
          registrations (history sha256 toJson (before++[calldata])) := by
      obtain ⟨out,went⟩ := execute_of_accepts toJson asked accepts
      obtain ⟨other,password,found,named,listed⟩ := attests out (by rw [went])
      obtain ⟨rfl,rfl⟩ := Prod.mk.inj (Option.some.inj (asked.symm.trans found))
      exact ⟨named,listed⟩
    cases action with
    | registerIdentity registration =>
      intro name hash others split checks fresh
      have named := (names (.register registration name hash others split checks fresh)).1
      rwa [HydentityAction.account,split] at named
    | verifyIdentity account nonce =>
      rintro info stored rfl checks
      exact (names (.verify account info stored checks)).1
    | getIdentityInfo account =>
      intro info stored
      obtain ⟨named,listed⟩ := names (.read account info stored)
      obtain ⟨out,went⟩ := execute_of_accepts toJson asked (.read account info stored)
      rw [history_append,granted_of_ok asked (by rw [went]),registrations_append] at listed
      have earlier := (List.mem_append.mp listed).resolve_right List.not_mem_nil
      have same : account=calldata.identity := named
      rw [← same] at earlier
      obtain ⟨other,found,hash⟩ := known.stored account privateInput earlier
      obtain rfl := Option.some.inj (found.symm.trans stored)
      exact ⟨same,hash⟩
  · intro owned out ok
    obtain ⟨action,privateInput,asked,accepts⟩ := execute_ok_iff ok
    have mine := owned action privateInput asked
    have hashes : credential action.account privateInput∈credentials calldata := by
      rw [credentials,asked]
      exact List.mem_cons_self
    refine ⟨action,privateInput,asked,?_⟩
    rw [history_append,granted_of_ok asked ok,registrations_append]
    generalize (execute sha256 toJson (run sha256 toJson before) calldata).2=next at accepts
    cases accepts with
    | register registration name hash others split checks fresh =>
      have named : name=calldata.identity := mine name hash others split checks fresh
      have account : (HydentityAction.registerIdentity registration).account=name := by
        rw [HydentityAction.account,split]
        rfl
      refine ⟨account.trans named,List.mem_append_right _ ?_⟩
      rw [← named,← account]
      exact List.mem_cons_self
    | verify account info stored checks =>
      have named : account=calldata.identity := mine info stored rfl checks
      obtain ⟨password,listed,hash⟩ := known.registered account info stored
      obtain rfl := agree listed hashes (checks.symm.trans hash)
      exact ⟨named,List.mem_append_left _ (named ▸ listed)⟩
    | read account info stored =>
      obtain ⟨named,checks⟩ := mine info stored
      obtain ⟨password,listed,hash⟩ := known.registered account info stored
      obtain rfl := agree listed hashes (checks.symm.trans hash)
      exact ⟨named,List.mem_append_left _ (named ▸ listed)⟩

theorem hash_run (before more : List Calldata) {account : String} {info : AccountInfo}
    (stored : (run sha256 toJson before).identities[account]?=some info) :
    ∃ later,(run sha256 toJson (before++more)).identities[account]?=some later ∧
      later.hash=info.hash := by
  rw [run] at stored
  rw [run,List.foldl_append]
  generalize before.foldl (step sha256 toJson) default=self at stored ⊢
  induction more generalizing self info with
  | nil => exact ⟨info,stored,rfl⟩
  | cons calldata more ih =>
    obtain ⟨next,found,same⟩ : ∃ next,(self.step sha256 toJson calldata).identities[account]?=
        some next ∧ next.hash=info.hash := by
      obtain ⟨kept,_⟩|⟨action,privateInput,_,_,accepts⟩ :=
        step_cases sha256 toJson self calldata
      · exact ⟨info,by rw [kept,stored],rfl⟩
      · exact hash_of_accepts accepts stored
    obtain ⟨later,last,kept⟩ := ih _ found
    exact ⟨later,last,kept.trans same⟩

/-- Counting modulo `m` counts as long as it stays below. -/
theorem range_mod_eq_iff {n m : Nat} (hm : 0< m) :
    (List.range n).map (·%m)=List.range n ↔ n≤ m := by
  constructor
  · intro same
    by_contra more
    have wrapped := congrArg (·[m]?) same
    have inside : m<n := by omega
    simp only [List.getElem?_map,List.getElem?_range inside,Option.map_some,Nat.mod_self,
      Option.some.injEq] at wrapped
    omega
  · intro fits
    have small : ∀ k ∈ List.range n,k%m=id k := by
      intro k listed
      have below := List.mem_range.mp listed
      exact Nat.mod_eq_of_lt (by omega)
    rw [List.map_congr_left small,List.map_id]

/-- Hydentity over a run: one more execution attests the caller exactly if the caller owns the
request, no hash ever changes, and the nonces accepted for an account are 0, 1, 2, … up to 2^32
of them. -/
theorem run_authenticates (before : List Calldata) (calldata : Calldata)
    (hi : Set.InjOn sha256 {bs | bs∈(before++[calldata]).flatMap credentials}) :
    (Attests sha256 toJson before calldata ↔
      Owned sha256 (run sha256 toJson before) calldata) ∧
    (∀ (more : List Calldata) (account : String) (info : AccountInfo),
      (run sha256 toJson before).identities[account]?=some info →
      ∃ later : AccountInfo,
        (run sha256 toJson (before++more)).identities[account]?=some later ∧
        later.hash=info.hash) ∧
    ∀ account,(nonces account (history sha256 toJson before)).map UInt32.toNat=
        List.range (nonces account (history sha256 toJson before)).length ↔
      (nonces account (history sha256 toJson before)).length≤2^32 := by
  refine ⟨attests_iff hi,fun more account info => hash_run before more,fun account => ?_⟩
  rw [(known_run sha256 toJson before).serial account]
  exact range_mod_eq_iff (by norm_num)

section Examples

/-- Anyone asks for the account of `bob` in the name of `bob`, without a password. -/
def stranger : Calldata := bobCalldata (.getIdentityInfo "bob@hydentity") ""

def owner : Calldata := bobCalldata (.verifyIdentity "bob@hydentity" 0) "pw"

def noJson : AccountInfo → String := fun _ => ""

def enrolment : List Calldata := [bobCalldata registration "pw"]

theorem injOn_knownSha256 (calldata : Calldata)
    (h : ∀ bs ∈ (enrolment++[calldata]).flatMap credentials,bs∈knownDigests.map Prod.fst) :
    Set.InjOn knownSha256 {bs | bs∈(enrolment++[calldata]).flatMap credentials} :=
  (ByteVec.lookup_injOn knownDigests (by decide +kernel)).mono h

theorem run_authenticates_owner : Attests knownSha256 noJson enrolment owner := by
  have authenticates := @run_authenticates knownSha256 noJson enrolment owner
    (injOn_knownSha256 owner (by decide +kernel))
  refine authenticates.1.mpr ?_
  have asked : request owner=some (.verifyIdentity "bob@hydentity" 0,"pw") := by decide +kernel
  intro action privateInput found
  obtain ⟨rfl,rfl⟩ := Prod.mk.inj (Option.some.inj (asked.symm.trans found))
  exact fun _ _ _ _ => rfl

theorem not_attests_stranger : ¬Attests knownSha256 noJson enrolment stranger := by
  intro attests
  have ok : ((run knownSha256 noJson enrolment).execute knownSha256 noJson stranger).1=
      .ok (utf8 "Retrieved identity info for account: bob@hydentity: ",
        ⟨[],"bob@hydentity","hydentity"⟩,[]) := by
    decide +kernel
  have asked : request stranger=some (.getIdentityInfo "bob@hydentity","") := by decide +kernel
  have registered : registrations (history knownSha256 noJson (enrolment++[stranger]))=
      [("bob@hydentity","pw")] := by
    decide +kernel
  obtain ⟨action,privateInput,found,_,listed⟩ := attests _ ok
  obtain ⟨rfl,rfl⟩ := Prod.mk.inj (Option.some.inj (asked.symm.trans found))
  rw [registered] at listed
  exact absurd listed (by decide)

end Examples

end Hydentity

end TruthSeeker
