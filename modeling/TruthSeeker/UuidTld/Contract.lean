import TruthSeeker.Framework.Trace
import TruthSeeker.Model.Actions
import TruthSeeker.Sdk.Guest

namespace TruthSeeker

open Sdk Borsh Bytes Outcome

inductive UuidTldAction where
  | claim
  deriving DecidableEq

instance : Borsh UuidTldAction where
  ser | .claim => some [0]
  de | 0::bs => some (.claim,bs)
     | _ => none

/-- UUIDs as the crates draw, print and read them. -/
structure Uuids where
  /-- From a generator that is seeded with a commitment, a transaction, a block and a time. -/
  draw : Bytes → Bytes → Bytes → TimestampMs → U128
  text : U128 → String
  parse : String → Option U128

/-- The identities that claimed a UUID. -/
structure UuidTld where
  registeredContracts : Std.ExtTreeMap U128 String

def UuidTld.layout : Borsh.Layout UuidTld (Std.ExtTreeMap U128 String) where
  fields u := u.registeredContracts
  make registeredContracts := ⟨registeredContracts⟩
  make_fields _ := rfl

instance : Borsh UuidTld := UuidTld.layout.borsh
instance : LawfulBorsh UuidTld := UuidTld.layout.lawful

namespace UuidTld

def default : UuidTld := ⟨∅⟩

/-- The part of a contract name before its first dot. -/
def firstLabel (name : ContractName) : String :=
  String.ofList ((name.toList.splitOn '.').headD [])

section
variable (uuids : Uuids) (self : UuidTld) (calldata : Calldata)

def commit : Outcome StateCommitment :=
  fromOption (Borsh.ser self) (.panic "called `Result::unwrap()` on an `Err` value")

def claimContract : Outcome U128 × UuidTld :=
  match calldata.txCtx with
  | none => (err "Missing tx context",self)
  | some txCtx =>
      match self.commit with
      | .error fault => (.error fault,self)
      | .ok commitment =>
          let id := uuids.draw commitment (utf8 calldata.txHash) (utf8 txCtx.blockHash)
            txCtx.timestamp
          if self.registeredContracts.contains id then (err "Contract already registered",self)
          else (.ok id,⟨self.registeredContracts.insert id calldata.identity⟩)

def registerContract (uuid : U128) (identity : String) : Outcome Unit :=
  match self.registeredContracts[uuid]? with
  | some claimer =>
      if claimer=identity then .ok () else err "UUID claimed by different identity"
  | none => err "UUID not claimed"

/-- The identity is one that this very contract would have to vouch for. -/
def selfAttested (blob : Blob) : Bool :=
  ("@"++blob.contractName).toList.isSuffixOf calldata.identity.toList

def register (action : RegisterContractAction) (execCtx : ExecutionContext) :
    Outcome (Bytes × ExecutionContext × List OnchainEffect) := do
  let uuid ← fromOption (uuids.parse (firstLabel action.contractName))
    (.err "Invalid UUID in contract name")
  self.registerContract uuid calldata.identity
  return (utf8 s!"registered {uuids.text uuid} ({uuid.toNat})",execCtx,
    [.registerContract action.effect])

def execute : Outcome (Bytes × ExecutionContext × List OnchainEffect) × UuidTld :=
  match calldata.blobs.get calldata.index with
  | none => (Outcome.panic "called `Option::unwrap()` on a `None` value",self)
  | some blob =>
      if selfAttested calldata blob then (err "Invalid identity",self)
      else
        match parseRawCalldata UuidTldAction calldata with
        | .ok (.claim,execCtx) =>
            let (claimed,next) := self.claimContract uuids calldata
            (claimed.map fun id => (utf8 s!"claimed {uuids.text id}",execCtx,[]),next)
        | .error _ =>
            match parseCalldata RegisterContractAction calldata with
            | .ok (action,execCtx) => (self.register uuids calldata action execCtx,self)
            | .error _ => (err "Unknown action",self)

end

section Runs
variable (uuids : Uuids)

/-- The claim of a call that succeeds. -/
def claimed (self : UuidTld) (calldata : Calldata) : List (U128 × Identity) :=
  match parseRawCalldata UuidTldAction calldata,(self.claimContract uuids calldata).1,
      (self.execute uuids calldata).1 with
  | .ok _,.ok id,.ok _ => [(id,calldata.identity)]
  | _,_,_ => []

def step (self : UuidTld) (calldata : Calldata) : UuidTld := (self.execute uuids calldata).2

def run (calldatas : List Calldata) : UuidTld := calldatas.foldl (step uuids) default

/-- The claims of a run, in order. -/
def claims (calldatas : List Calldata) : List (U128 × Identity) :=
  Trace.outputs (step uuids) (claimed uuids) default calldatas

variable {uuids} {self : UuidTld} {calldata : Calldata}

theorem claimContract_cases (uuids : Uuids) (self : UuidTld) (calldata : Calldata) :
    (∃ fault,self.claimContract uuids calldata=(.error fault,self)) ∨
    ∃ id,self.registeredContracts[id]?=none ∧ self.claimContract uuids calldata=
      (.ok id,⟨self.registeredContracts.insert id calldata.identity⟩) := by
  unfold claimContract
  cases calldata.txCtx with
  | none => exact .inl ⟨_,rfl⟩
  | some txCtx =>
    cases self.commit with
    | error fault => exact .inl ⟨_,rfl⟩
    | ok commitment =>
      dsimp only
      split_ifs with known
      · exact .inl ⟨_,rfl⟩
      · refine .inr ⟨_,?_,rfl⟩
        rw [Std.ExtTreeMap.contains_eq_isSome_getElem?,Bool.not_eq_true,
          Option.isSome_eq_false_iff,Option.isNone_iff_eq_none] at known
        exact known

theorem registerContract_eq_ok {id : U128} {identity : String} :
    self.registerContract id identity=.ok () ↔ self.registeredContracts[id]?=some identity := by
  unfold registerContract
  cases self.registeredContracts[id]? with
  | none => simp
  | some claimer =>
    dsimp only
    split_ifs with own
    · simp [own]
    · simp [own]

/-- What a call can do: it fails and changes nothing, it claims a new UUID for its identity, or
it registers a contract under a UUID of its identity. -/
theorem execute_cases (uuids : Uuids) (self : UuidTld) (calldata : Calldata) :
    ((∃ fault,self.execute uuids calldata=(.error fault,self)) ∧ self.claimed uuids calldata=[]) ∨
    (∃ id out,self.registeredContracts[id]?=none ∧ out.2.2=[] ∧
      self.claimed uuids calldata=[(id,calldata.identity)] ∧ self.execute uuids calldata=
        (.ok out,⟨self.registeredContracts.insert id calldata.identity⟩)) ∨
    ∃ action ctx id text,parseCalldata RegisterContractAction calldata=.ok (action,ctx) ∧
      uuids.parse (firstLabel action.contractName)=some id ∧
      self.registeredContracts[id]?=some calldata.identity ∧ self.claimed uuids calldata=[] ∧
      self.execute uuids calldata=(.ok (text,ctx,[.registerContract action.effect]),self) := by
  have failed : ∀ fault,self.execute uuids calldata=(.error fault,self) →
      self.claimed uuids calldata=[] := by
    intro fault h
    unfold claimed
    rw [h]
    split
    · next ok => cases ok
    · rfl
  have fails : ∀ fault,self.execute uuids calldata=(.error fault,self) →
      (∃ fault,self.execute uuids calldata=(.error fault,self)) ∧
        self.claimed uuids calldata=[] := fun fault h => ⟨⟨fault,h⟩,failed fault h⟩
  cases hb : calldata.blobs.get calldata.index with
  | none => exact .inl (fails _ (by simp only [execute,hb]; rfl))
  | some blob =>
    by_cases attested : selfAttested calldata blob=true
    · exact .inl (fails (.err "Invalid identity") (by simp only [execute,hb,attested]; rfl))
    cases hr : parseRawCalldata UuidTldAction calldata with
    | ok parsed =>
      obtain ⟨action,ctx⟩ := parsed
      cases action
      obtain ⟨fault,refused⟩|⟨id,fresh,went⟩ := claimContract_cases uuids self calldata
      · refine .inl (fails fault ?_)
        simp only [execute,hb,attested,hr,refused]
        rfl
      · have executed : self.execute uuids calldata=
            (.ok (utf8 s!"claimed {uuids.text id}",ctx,[]),
              ⟨self.registeredContracts.insert id calldata.identity⟩) := by
          simp only [execute,hb,attested,hr,went]
          rfl
        refine .inr (.inl ⟨id,_,fresh,?_,?_,executed⟩)
        · rfl
        · simp only [claimed,hr,went,executed]
    | error fault =>
      cases hp : parseCalldata RegisterContractAction calldata with
      | error other =>
        exact .inl (fails (.err "Unknown action") (by simp only [execute,hb,attested,hr,hp]; rfl))
      | ok parsed =>
        obtain ⟨action,ctx⟩ := parsed
        have executed : self.execute uuids calldata=
            (self.register uuids calldata action ctx,self) := by
          simp only [execute,hb,attested,hr,hp]
          rfl
        cases registered : self.register uuids calldata action ctx with
        | error fault => exact .inl (fails fault (by rw [executed,registered]))
        | ok out =>
          refine .inr (.inr ?_)
          have went := registered
          rw [register] at registered
          obtain ⟨id,parsed,registered⟩ := bind_eq_ok.mp registered
          obtain ⟨_,owned,registered⟩ := bind_eq_ok.mp registered
          obtain rfl := pure_eq_ok.mp registered
          refine ⟨action,ctx,id,_,rfl,fromOption_eq_ok.mp parsed,
            registerContract_eq_ok.mp owned,?_,executed.trans (by rw [went])⟩
          simp only [claimed,hr]

/-- The registry is the record of the claims, each UUID once. -/
structure Recorded (past : List (U128 × Identity)) (registry : UuidTld) : Prop where
  once : (past.map Prod.fst).Nodup
  owner : ∀ id identity,registry.registeredContracts[id]?=some identity ↔ (id,identity) ∈ past

theorem Recorded.step {past : List (U128 × Identity)} (h : Recorded past self)
    (calldata : Calldata) :
    Recorded (past++self.claimed uuids calldata) (self.step uuids calldata) := by
  unfold UuidTld.step
  obtain ⟨⟨fault,failed⟩,none⟩|⟨id,out,fresh,_,one,claims⟩|
      ⟨_,_,_,_,_,_,_,none,registers⟩ := execute_cases uuids self calldata
  · rw [failed,none,List.append_nil]
    exact h
  · have unknown : ∀ identity,(id,identity)∉past := by
      intro identity listed
      rw [(h.owner id identity).mpr listed] at fresh
      cases fresh
    rw [one,claims]
    constructor
    · rw [List.map_append,List.nodup_append]
      refine ⟨h.once,List.nodup_singleton id,?_⟩
      intro other ho last hl same
      obtain ⟨⟨_,identity⟩,listed,rfl⟩ := List.mem_map.mp ho
      obtain rfl := List.mem_singleton.mp hl
      subst same
      exact unknown identity listed
    · intro other identity
      rw [Std.ExtTreeMap.getElem?_insert,List.mem_append,List.mem_singleton]
      split_ifs with here
      · obtain rfl := Std.LawfulEqOrd.compare_eq_iff_eq.mp here
        simp [unknown identity,eq_comm]
      · have apart : other≠id := by
          rintro rfl
          exact here Std.ReflOrd.compare_self
        rw [h.owner other identity]
        simp [apart]
  · rw [registers,none,List.append_nil]
    exact h

theorem recorded_run (calldatas : List Calldata) :
    Recorded (claims uuids calldatas) (run uuids calldatas) := by
  have start : Recorded [] default := by
    constructor
    · exact List.nodup_nil
    · intro id identity
      simp [default]
  have all : Recorded ([]++claims uuids calldatas) (run uuids calldatas) :=
    Trace.foldl_of_past start fun past self calldata _ h => h.step calldata
  rwa [List.nil_append] at all

/-- Over every run, the registry holds the claims made so far, each UUID for the one identity
that claimed it first. A call that fails changes nothing, and one that registers a contract
names it after a UUID that the same identity has claimed before. -/
theorem run_registry (calldatas : List Calldata) :
    ((claims uuids calldatas).map Prod.fst).Nodup ∧
    (∀ id identity,(run uuids calldatas).registeredContracts[id]?=some identity ↔
      (id,identity) ∈ claims uuids calldatas) ∧
    ∀ before calldata after,calldatas=before++calldata::after →
      ((∀ out,((run uuids before).execute uuids calldata).1≠.ok out) →
        run uuids (before++[calldata])=run uuids before) ∧
      ∀ out,((run uuids before).execute uuids calldata).1=.ok out → ∀ effect ∈ out.2.2,
        ∃ action ctx id,parseCalldata RegisterContractAction calldata=.ok (action,ctx) ∧
          effect=.registerContract action.effect ∧
          uuids.parse (firstLabel action.contractName)=some id ∧
          (id,calldata.identity) ∈ claims uuids before := by
  have recorded : Recorded (claims uuids calldatas) (run uuids calldatas) :=
    recorded_run calldatas
  refine ⟨recorded.once,recorded.owner,?_⟩
  intro before calldata after _
  have last : run uuids (before++[calldata])=(run uuids before).step uuids calldata := by
    rw [run,List.foldl_append]
    rfl
  obtain ⟨⟨fault,failed⟩,_⟩|⟨id,made,_,empty,_,claims⟩|⟨action,ctx,id,text,parsed,named,owned,_,
      registers⟩ := execute_cases uuids (run uuids before) calldata
  · refine ⟨fun _ => ?_,?_⟩
    · rw [last,step,failed]
    · intro out ok
      rw [failed] at ok
      cases ok
  · refine ⟨fun fails => absurd (by rw [claims]) (fails made),?_⟩
    intro out ok effect listed
    rw [claims] at ok
    obtain rfl := Except.ok.inj ok
    rw [empty] at listed
    cases listed
  · refine ⟨fun fails => absurd (by rw [registers]) (fails _),?_⟩
    intro out ok effect listed
    rw [registers] at ok
    obtain rfl := Except.ok.inj ok
    obtain rfl := List.mem_singleton.mp listed
    exact ⟨action,ctx,id,parsed,rfl,named,((recorded_run before).owner id _).mp owned⟩

end Runs

end UuidTld

end TruthSeeker
