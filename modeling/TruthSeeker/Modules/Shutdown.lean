import Mathlib.Data.List.Nodup
import Mathlib.Data.List.Perm.Subperm
import Mathlib.Logic.Relation

namespace TruthSeeker.Modules

/-- All modules but the one that makes the genesis block and ends. -/
def longRunningModule (name : String) : Bool := !(["hyle::genesis::Genesis"].contains name)

/-- The long running modules that were started and are not shut, and those that are. -/
structure ModulesHandler where
  startedModules : List String
  shutModules : List String
  deriving DecidableEq

namespace ModulesHandler

def startModules (modules : List String) : ModulesHandler :=
  ⟨modules.filter longRunningModule,[]⟩

section Code
variable (self : ModulesHandler)

/-- The signal to the last module that was started, unless it is shut already. -/
def shutdownNextModule : List String × ModulesHandler :=
  match self.startedModules.getLast? with
  | none => ([],self)
  | some name =>
      (if self.shutModules.contains name then [] else [name],
        { self with startedModules := self.startedModules.dropLast })

/-- Whether the loop is left, and the signal to the next module if it is not. -/
def onShutdownCompleted (name : String) : Bool × List String × ModulesHandler :=
  if longRunningModule name && !self.shutModules.contains name then
    let self : ModulesHandler :=
      ⟨self.startedModules.filter (·≠name),self.shutModules++[name]⟩
    if self.startedModules.isEmpty then (true,[],self) else (false,self.shutdownNextModule)
  else (false,[],self)

/-- No module was shut for a while. -/
def onTimeout : List String × ModulesHandler :=
  if self.shutModules.isEmpty then ([],self) else self.shutdownNextModule

end Code

end ModulesHandler

/-- How far the process is: it waits in the first loop for a module to end or for a signal of the
system, and in the last one for the modules that it shuts. -/
inductive Stage where
  | started
  | watching
  | closing
  | closed
  | lastWatching
  | exited
  deriving DecidableEq

/-- Where a loop leads to. -/
def Stage.afterLoop : Stage → Option Stage
  | .watching => some .closing
  | .lastWatching => some .exited
  | _ => none

structure Process where
  handler : ModulesHandler
  stage : Stage
  /-- The tasks that have not ended. -/
  running : List String
  /-- The modules that were told to shut down. -/
  signals : List String
  /-- The modules whose end the loop has yet to hear of. -/
  inbox : List String
  deriving DecidableEq

inductive Event where
  | ends (name : String)
  | watch
  | receive
  | timeout
  | interrupt
  | shutdown
  deriving DecidableEq

namespace Process

def start (modules : List String) : Process := ⟨.startModules modules,.started,modules,[],[]⟩

section Code
variable (self : Process)

def signal (next : List String × ModulesHandler) : Process :=
  { self with handler := next.2, signals := self.signals++next.1 }

/-- Only who has subscribed hears of the end of a module. -/
def ends (name : String) : Option Process :=
  if name∈self.running then
    let inbox := if self.stage=.watching ∨ self.stage=.lastWatching then self.inbox++[name]
      else self.inbox
    some { self with running := self.running.erase name, inbox := inbox }
  else none

/-- The loop is entered with no messages, unless there is nothing to wait for. -/
def watch : Option Process :=
  match self.stage with
  | .started =>
      if self.handler.startedModules.isEmpty then some { self with stage := .closing }
      else some { self with stage := .watching, inbox := [] }
  | .closed =>
      if self.handler.startedModules.isEmpty then some { self with stage := .exited }
      else some { self with stage := .lastWatching, inbox := [] }
  | _ => none

def receive : Option Process :=
  match self.stage.afterLoop,self.inbox with
  | some left,name::inbox =>
      let (done,next) := self.handler.onShutdownCompleted name
      some { self.signal next with
        stage := if done then left else self.stage, inbox := inbox }
  | _,_ => none

def step : Event → Option Process
  | .ends name => self.ends name
  | .watch => self.watch
  | .receive => self.receive
  | .timeout =>
      if self.stage=.watching ∨ self.stage=.lastWatching then
        some (self.signal self.handler.onTimeout)
      else none
  | .interrupt =>
      if self.stage=.started ∨ self.stage=.watching then some { self with stage := .closing }
      else none
  | .shutdown =>
      if self.stage=.closing then
        some { self.signal self.handler.shutdownNextModule with stage := .closed }
      else none

end Code

/-- The states of a process whose steps are all allowed. -/
inductive Reaches (allowed : Process → Event → Prop) (modules : List String) : Process → Prop
  | start : Reaches allowed modules (start modules)
  | step {p q : Process} {e : Event} (hp : Reaches allowed modules p) (ha : allowed p e)
      (hq : p.step e=some q) : Reaches allowed modules q

end Process

namespace ModulesHandler
variable {self : ModulesHandler} {name : String}

theorem shutdownNextModule_cases (self : ModulesHandler) :
    (self.startedModules=[] ∧ self.shutdownNextModule=([],self)) ∨
    ∃ started name,self.startedModules=started++[name] ∧
      self.shutdownNextModule=
        (if self.shutModules.contains name then [] else [name],⟨started,self.shutModules⟩) := by
  unfold shutdownNextModule
  cases hl : self.startedModules.getLast? with
  | none => exact .inl ⟨List.getLast?_eq_none_iff.mp hl,rfl⟩
  | some name =>
    obtain ⟨started,eq⟩ := List.getLast?_eq_some_iff.mp hl
    refine .inr ⟨started,name,eq,?_⟩
    rw [eq,List.dropLast_concat]

/-- The handler without the module that is shut. -/
def retain (self : ModulesHandler) (name : String) : ModulesHandler :=
  ⟨self.startedModules.filter (·≠name),self.shutModules++[name]⟩

theorem onShutdownCompleted_cases (self : ModulesHandler) (name : String) :
    (¬(longRunningModule name=true ∧ name∉self.shutModules) ∧
      self.onShutdownCompleted name=(false,[],self)) ∨
    (longRunningModule name=true ∧ name∉self.shutModules ∧
      (((self.retain name).startedModules=[] ∧
        self.onShutdownCompleted name=(true,[],self.retain name)) ∨
      ((self.retain name).startedModules≠[] ∧
        self.onShutdownCompleted name=(false,(self.retain name).shutdownNextModule)))) := by
  unfold onShutdownCompleted
  by_cases fresh : longRunningModule name=true ∧ name∉self.shutModules
  · refine .inr ⟨fresh.1,fresh.2,?_⟩
    rw [if_pos (by simpa using fresh)]
    by_cases last : (self.retain name).startedModules=[]
    · exact .inl ⟨last,if_pos (List.isEmpty_iff.mpr last)⟩
    · exact .inr ⟨last,if_neg fun empty => last (List.isEmpty_iff.mp empty)⟩
  · exact .inl ⟨fresh,if_neg (by simpa using fresh)⟩

end ModulesHandler

namespace Process
variable {p q : Process}

theorem step_ends {name : String} (hq : p.step (.ends name)=some q) : name∈p.running ∧
    ((q=⟨p.handler,p.stage,p.running.erase name,p.signals,p.inbox++[name]⟩ ∧
        (p.stage=.watching ∨ p.stage=.lastWatching)) ∨
      (q=⟨p.handler,p.stage,p.running.erase name,p.signals,p.inbox⟩ ∧
        ¬(p.stage=.watching ∨ p.stage=.lastWatching))) := by
  simp only [step,ends] at hq
  split_ifs at hq with runs heard
  · exact ⟨runs,.inl ⟨(Option.some.inj hq).symm,heard⟩⟩
  · exact ⟨runs,.inr ⟨(Option.some.inj hq).symm,heard⟩⟩

theorem step_watch (hq : p.step .watch=some q) :
    (p.stage=.started ∧ p.handler.startedModules=[] ∧ q={ p with stage := .closing }) ∨
    (p.stage=.started ∧ p.handler.startedModules≠[] ∧
      q={ p with stage := .watching, inbox := [] }) ∨
    (p.stage=.closed ∧ p.handler.startedModules=[] ∧ q={ p with stage := .exited }) ∨
    (p.stage=.closed ∧ p.handler.startedModules≠[] ∧
      q={ p with stage := .lastWatching, inbox := [] }) := by
  simp only [step,watch] at hq
  cases hs : p.stage with
  | started =>
    simp only [hs] at hq
    split_ifs at hq with empty
    · exact .inl ⟨rfl,List.isEmpty_iff.mp empty,(Option.some.inj hq).symm⟩
    · exact .inr (.inl ⟨rfl,fun none => empty (List.isEmpty_iff.mpr none),
        (Option.some.inj hq).symm⟩)
  | closed =>
    simp only [hs] at hq
    split_ifs at hq with empty
    · exact .inr (.inr (.inl ⟨rfl,List.isEmpty_iff.mp empty,(Option.some.inj hq).symm⟩))
    · exact .inr (.inr (.inr ⟨rfl,fun none => empty (List.isEmpty_iff.mpr none),
        (Option.some.inj hq).symm⟩))
  | watching => simp [hs] at hq
  | closing => simp [hs] at hq
  | lastWatching => simp [hs] at hq
  | exited => simp [hs] at hq

/-- A message is passed over, ends the loop or calls for the next module to be shut. -/
theorem step_receive (hq : p.step .receive=some q) : ∃ left name inbox,
    p.stage.afterLoop=some left ∧ p.inbox=name::inbox ∧
    ((¬(longRunningModule name=true ∧ name∉p.handler.shutModules) ∧
      q={ p with inbox := inbox }) ∨
    (longRunningModule name=true ∧ name∉p.handler.shutModules ∧
      (p.handler.retain name).startedModules=[] ∧
      q={ p with handler := p.handler.retain name, stage := left, inbox := inbox }) ∨
    (longRunningModule name=true ∧ name∉p.handler.shutModules ∧
      (p.handler.retain name).startedModules≠[] ∧
      q={ p.signal (p.handler.retain name).shutdownNextModule with inbox := inbox })) := by
  simp only [step,receive] at hq
  cases hs : p.stage.afterLoop with
  | none => simp [hs] at hq
  | some left =>
    cases hi : p.inbox with
    | nil => simp [hi] at hq
    | cons name inbox =>
      refine ⟨left,name,inbox,rfl,rfl,?_⟩
      simp only [hs,hi] at hq
      obtain ⟨old,eq⟩|⟨long,fresh,⟨last,eq⟩|⟨more,eq⟩⟩ :=
        p.handler.onShutdownCompleted_cases name
      · rw [eq] at hq
        refine .inl ⟨old,?_⟩
        simpa [signal] using hq.symm
      · rw [eq] at hq
        refine .inr (.inl ⟨long,fresh,last,?_⟩)
        simpa [signal] using hq.symm
      · rw [eq] at hq
        refine .inr (.inr ⟨long,fresh,more,?_⟩)
        simpa [signal] using hq.symm

theorem step_timeout (hq : p.step .timeout=some q) :
    (p.stage=.watching ∨ p.stage=.lastWatching) ∧
    ((p.handler.shutModules=[] ∧ q=p) ∨
      (p.handler.shutModules≠[] ∧ q=p.signal p.handler.shutdownNextModule)) := by
  simp only [step,ModulesHandler.onTimeout] at hq
  split_ifs at hq with looping none
  · refine ⟨looping,.inl ⟨List.isEmpty_iff.mp none,?_⟩⟩
    simpa [signal] using hq.symm
  · exact ⟨looping,.inr ⟨fun empty => none (List.isEmpty_iff.mpr empty),
      (Option.some.inj hq).symm⟩⟩

theorem step_interrupt (hq : p.step .interrupt=some q) :
    (p.stage=.started ∨ p.stage=.watching) ∧ q={ p with stage := .closing } := by
  simp only [step] at hq
  split_ifs at hq with waits
  exact ⟨waits,(Option.some.inj hq).symm⟩

theorem step_shutdown (hq : p.step .shutdown=some q) : p.stage=.closing ∧
    q={ p.signal p.handler.shutdownNextModule with stage := .closed } := by
  simp only [step] at hq
  split_ifs at hq with closing
  exact ⟨closing,(Option.some.inj hq).symm⟩

end Process

section Told
variable {modules signals : List String} {h : ModulesHandler}

/-- The modules are told in the reverse order of their start. Each waits for its turn, has been
told or is shut. -/
structure Told (modules signals : List String) (h : ModulesHandler) : Prop where
  ordered : (signals++h.startedModules.reverse).Sublist modules.reverse
  covered : ∀ name ∈ modules,name∈h.startedModules ∨ name∈signals ∨ name∈h.shutModules
  apart : ∀ name ∈ h.startedModules,name∉h.shutModules

theorem Told.signal_eq (ht : Told modules signals h) :
    (h.startedModules=[] ∧ h.shutdownNextModule=([],h)) ∨
    ∃ started name,h.startedModules=started++[name] ∧
      h.shutdownNextModule=([name],⟨started,h.shutModules⟩) := by
  obtain none|⟨started,name,eq,next⟩ := h.shutdownNextModule_cases
  · exact .inl none
  · have fresh := ht.apart name (by simp [eq])
    exact .inr ⟨started,name,eq,by simpa [fresh] using next⟩

theorem Told.shutdownNextModule (ht : Told modules signals h) :
    Told modules (signals++h.shutdownNextModule.1) h.shutdownNextModule.2 := by
  obtain ⟨_,next⟩|⟨started,name,eq,next⟩ := ht.signal_eq
  · rw [next,List.append_nil]
    exact ht
  · rw [next]
    constructor
    · have ordered := ht.ordered
      rw [eq,List.reverse_append] at ordered
      simpa using ordered
    · intro other ho
      have covered := ht.covered other ho
      rw [eq] at covered
      simp only [List.mem_append,List.mem_singleton] at covered ⊢
      tauto
    · intro other ho
      exact ht.apart other (by simp [eq,ho])

theorem Told.retain (ht : Told modules signals h) (name : String) :
    Told modules signals (h.retain name) := by
  constructor
  · have fewer : (h.startedModules.filter (·≠name)).Sublist h.startedModules :=
      List.filter_sublist
    exact ((List.Sublist.refl signals).append fewer.reverse).trans ht.ordered
  · intro other ho
    have covered := ht.covered other ho
    by_cases same : other=name
    · exact .inr (.inr (by simp [ModulesHandler.retain,same]))
    · simp only [ModulesHandler.retain,List.mem_filter,List.mem_append]
      have apart : decide (other≠name)=true := decide_eq_true same
      tauto
  · intro other ho
    obtain ⟨waits,apart⟩ := List.mem_filter.mp ho
    have old := ht.apart other waits
    simp only [decide_eq_true_eq] at apart
    simp [ModulesHandler.retain,old,apart]

end Told

namespace Process
variable {modules : List String} {p q : Process} {allowed : Process → Event → Prop}

theorem Reaches.told (hp : Reaches allowed modules p) :
    Told (modules.filter longRunningModule) p.signals p.handler := by
  induction hp with
  | start => exact ⟨by simp [Process.start,ModulesHandler.startModules],
      fun name hn => .inl hn,fun name _ => by simp [Process.start,ModulesHandler.startModules]⟩
  | @step p q e hp _ hq ih =>
    cases e with
    | ends name =>
      obtain ⟨_,⟨rfl,_⟩|⟨rfl,_⟩⟩ := step_ends hq
      · exact ih
      · exact ih
    | watch =>
      obtain ⟨_,_,rfl⟩|⟨_,_,rfl⟩|⟨_,_,rfl⟩|⟨_,_,rfl⟩ := step_watch hq
      all_goals exact ih
    | receive =>
      obtain ⟨left,name,inbox,_,_,⟨_,rfl⟩|⟨_,_,_,rfl⟩|⟨_,_,_,rfl⟩⟩ := step_receive hq
      · exact ih
      · exact ih.retain name
      · exact (ih.retain name).shutdownNextModule
    | timeout =>
      obtain ⟨_,⟨_,rfl⟩|⟨_,rfl⟩⟩ := step_timeout hq
      · exact ih
      · exact ih.shutdownNextModule
    | interrupt =>
      obtain ⟨_,rfl⟩ := step_interrupt hq
      exact ih
    | shutdown =>
      obtain ⟨_,rfl⟩ := step_shutdown hq
      exact ih.shutdownNextModule

theorem shutModules_shutdownNextModule (h : ModulesHandler) :
    h.shutdownNextModule.2.shutModules=h.shutModules := by
  obtain ⟨_,next⟩|⟨started,name,_,next⟩ := h.shutdownNextModule_cases
  · rw [next]
  · rw [next]

/-- There are no more tasks of a module than were started, and fewer once its end is heard of. -/
structure Ended (modules : List String) (p : Process) : Prop where
  few : ∀ name,p.running.count name≤ modules.count name
  heard : ∀ name,name∈p.handler.shutModules ∨ name∈p.inbox →
    p.running.count name< modules.count name

theorem Ended.mono {q : Process} (hp : Ended modules p) (same : q.running=p.running)
    (fewer : ∀ name,name∈q.handler.shutModules ∨ name∈q.inbox →
      name∈p.handler.shutModules ∨ name∈p.inbox) : Ended modules q := by
  constructor
  · intro name
    rw [same]
    exact hp.few name
  · intro name hn
    rw [same]
    exact hp.heard name (fewer name hn)

theorem Ended.erase {name : String} {q : Process} (hp : Ended modules p) (hr : name∈p.running)
    (gone : q.running=p.running.erase name) (same : q.handler=p.handler)
    (fewer : ∀ other ∈ q.inbox,other∈p.inbox ∨ other=name) : Ended modules q := by
  have most : ∀ other,q.running.count other≤p.running.count other := by
    intro other
    rw [gone]
    exact (List.erase_sublist ..).count_le other
  constructor
  · intro other
    exact Nat.le_trans (most other) (hp.few other)
  · intro other ho
    by_cases this : other=name
    · subst this
      have less : q.running.count other=p.running.count other-1 := by
        rw [gone,List.count_erase_self]
      have some := List.count_pos_iff.mpr hr
      have few := hp.few other
      omega
    · rw [same] at ho
      have old : other∈p.handler.shutModules ∨ other∈p.inbox := by
        obtain shut|heard := ho
        · exact .inl shut
        · obtain old|new := fewer other heard
          · exact .inr old
          · exact absurd new this
      exact Nat.lt_of_le_of_lt (most other) (hp.heard other old)

theorem Reaches.ended (hp : Reaches allowed modules p) : Ended modules p := by
  induction hp with
  | start => exact ⟨fun name => Nat.le_refl _,by simp [Process.start,ModulesHandler.startModules]⟩
  | @step p q e hp _ hq ih =>
    cases e with
    | ends name =>
      obtain ⟨runs,⟨rfl,_⟩|⟨rfl,_⟩⟩ := step_ends hq
      · refine ih.erase runs rfl rfl ?_
        intro other ho
        simpa using ho
      · exact ih.erase runs rfl rfl fun other ho => .inl ho
    | watch =>
      obtain ⟨_,_,rfl⟩|⟨_,_,rfl⟩|⟨_,_,rfl⟩|⟨_,_,rfl⟩ := step_watch hq
      · exact ih.mono rfl fun name hn => hn
      · exact ih.mono rfl fun name hn => .inl (by simpa using hn)
      · exact ih.mono rfl fun name hn => hn
      · exact ih.mono rfl fun name hn => .inl (by simpa using hn)
    | receive =>
      obtain ⟨left,name,inbox,_,hi,⟨_,rfl⟩|⟨_,_,_,rfl⟩|⟨_,_,_,rfl⟩⟩ := step_receive hq
      · refine ih.mono rfl fun other ho => ?_
        rw [hi]
        exact ho.imp_right (List.mem_cons_of_mem _)
      · refine ih.mono rfl fun other ho => ?_
        rw [hi]
        simp only [ModulesHandler.retain,List.mem_append,List.mem_singleton] at ho
        simp only [List.mem_cons]
        tauto
      · refine ih.mono rfl fun other ho => ?_
        rw [hi]
        simp only [signal,shutModules_shutdownNextModule,ModulesHandler.retain,List.mem_append,
          List.mem_singleton] at ho
        simp only [List.mem_cons]
        tauto
    | timeout =>
      obtain ⟨_,⟨_,rfl⟩|⟨_,rfl⟩⟩ := step_timeout hq
      · exact ih
      · refine ih.mono rfl fun name hn => ?_
        simpa [signal,shutModules_shutdownNextModule] using hn
    | interrupt =>
      obtain ⟨_,rfl⟩ := step_interrupt hq
      exact ih.mono rfl fun name hn => hn
    | shutdown =>
      obtain ⟨_,rfl⟩ := step_shutdown hq
      refine ih.mono rfl fun name hn => ?_
      simpa [signal,shutModules_shutdownNextModule] using hn

/-- The process ends with no module left to tell. -/
theorem Reaches.startedModules_eq_nil (hp : Reaches allowed modules p) (hs : p.stage=.exited) :
    p.handler.startedModules=[] := by
  induction hp with
  | start => cases hs
  | @step p q e hp _ hq ih =>
    cases e with
    | ends name =>
      obtain ⟨_,⟨rfl,_⟩|⟨rfl,_⟩⟩ := step_ends hq
      · exact ih hs
      · exact ih hs
    | watch =>
      obtain ⟨_,_,rfl⟩|⟨_,_,rfl⟩|⟨_,empty,rfl⟩|⟨_,_,rfl⟩ := step_watch hq
      · cases hs
      · cases hs
      · exact empty
      · cases hs
    | receive =>
      obtain ⟨left,name,inbox,after,_,⟨_,rfl⟩|⟨_,_,last,rfl⟩|⟨_,_,_,rfl⟩⟩ := step_receive hq
      · exact ih hs
      · exact last
      · have loop : p.stage=.exited := hs
        rw [loop] at after
        cases after
    | timeout =>
      obtain ⟨loop,⟨_,rfl⟩|⟨_,rfl⟩⟩ := step_timeout hq
      · exact ih hs
      · have exited : p.stage=.exited := hs
        rw [exited] at loop
        simp at loop
    | interrupt =>
      obtain ⟨_,rfl⟩ := step_interrupt hq
      cases hs
    | shutdown =>
      obtain ⟨_,rfl⟩ := step_shutdown hq
      cases hs

/-- Whatever the order of what happens, the modules are told to shut down in the reverse order of
their start, a module that is taken for shut has ended, and the process only ends when each
module has been told or has ended. -/
theorem shutdown_run (hp : Reaches (fun _ _ => True) modules p) :
    (p.signals++p.handler.startedModules.reverse).Sublist
      (modules.filter longRunningModule).reverse ∧
    (∀ name ∈ p.handler.shutModules,p.running.count name< modules.count name) ∧
    (p.stage=.exited → ∀ name ∈ modules,longRunningModule name=true →
      name∈p.signals ∨ p.running.count name< modules.count name) := by
  refine ⟨hp.told.ordered,fun name hn => hp.ended.heard name (.inl hn),?_⟩
  intro hs name hn long
  have covered := hp.told.covered name (List.mem_filter.mpr ⟨hn,long⟩)
  rw [hp.startedModules_eq_nil hs] at covered
  obtain none|told|shut := covered
  · cases none
  · exact .inl told
  · exact .inr (hp.ended.heard name (.inl shut))

/-- The second of three modules fails, so that the last one is told to shut down. -/
theorem reaches_failed : Reaches (fun _ _ => True) ["a","b","c"]
    ⟨⟨["a"],["b"]⟩,.watching,["a","c"],["c"],[]⟩ := by
  have watching : Reaches (fun _ _ => True) ["a","b","c"]
      ⟨⟨["a","b","c"],[]⟩,.watching,["a","b","c"],[],[]⟩ :=
    Reaches.start.step (e := .watch) trivial (by decide)
  have ended : Reaches (fun _ _ => True) ["a","b","c"]
      ⟨⟨["a","b","c"],[]⟩,.watching,["a","c"],[],["b"]⟩ :=
    watching.step (e := .ends "b") trivial (by decide)
  exact ended.step (e := .receive) trivial (by decide)

theorem shutdown_run_failed :
    (["c"]++["a"].reverse).Sublist (["a","b","c"].filter longRunningModule).reverse :=
  (shutdown_run reaches_failed).1

/-- No module ends before it is told to, and none takes so long that the loop tells the next. -/
def Orderly (p : Process) : Event → Prop
  | .ends name => longRunningModule name=true → name∈p.signals
  | .timeout => p.handler.shutModules=[]
  | _ => True

/-- Up to which module the process has come at each stage: one is told at a time. -/
def Turn (modules : List String) (p : Process) : Prop :=
  match p.stage with
  | .started | .watching | .closing =>
      p.signals=[] ∧ p.handler=⟨modules,[]⟩
  | .closed =>
      (modules=[] ∧ p.signals=[] ∧ p.handler=⟨[],[]⟩) ∨
      ∃ started name,modules=started++[name] ∧ p.signals=[name] ∧ p.handler=⟨started,[]⟩
  | .lastWatching => ∃ name,p.signals=p.handler.shutModules++[name]
  | .exited =>
      p.signals=p.handler.shutModules ∨
      ∃ name,modules=[name] ∧ p.signals=[name] ∧ p.handler=⟨[],[]⟩

/-- Only modules that were told are heard of. -/
def Expected (p : Process) : Prop :=
  ∀ name ∈ p.inbox,longRunningModule name=true → name∈p.signals

theorem Reaches.expected (hp : Reaches Orderly modules p) : Expected p := by
  induction hp with
  | start => simp [Expected,Process.start]
  | @step p q e hp ha hq ih =>
    cases e with
    | ends name =>
      obtain ⟨runs,⟨rfl,_⟩|⟨rfl,_⟩⟩ := step_ends hq
      · intro other ho long
        obtain old|new := List.mem_append.mp ho
        · exact ih other old long
        · rw [List.mem_singleton.mp new] at long ⊢
          exact ha long
      · exact ih
    | watch =>
      obtain ⟨_,_,rfl⟩|⟨_,_,rfl⟩|⟨_,_,rfl⟩|⟨_,_,rfl⟩ := step_watch hq
      · exact ih
      · simp [Expected]
      · exact ih
      · simp [Expected]
    | receive =>
      obtain ⟨left,name,inbox,_,hi,rest⟩ := step_receive hq
      have old : ∀ name ∈ inbox,longRunningModule name=true → name∈p.signals :=
        fun other ho => ih other (by simp [hi,ho])
      obtain ⟨_,rfl⟩|⟨_,_,_,rfl⟩|⟨_,_,_,rfl⟩ := rest
      · exact old
      · exact old
      · exact fun other ho long => List.mem_append_left _ (old other ho long)
    | timeout =>
      obtain ⟨_,⟨_,rfl⟩|⟨_,rfl⟩⟩ := step_timeout hq
      · exact ih
      · exact fun other ho long => List.mem_append_left _ (ih other ho long)
    | interrupt =>
      obtain ⟨_,rfl⟩ := step_interrupt hq
      exact ih
    | shutdown =>
      obtain ⟨_,rfl⟩ := step_shutdown hq
      exact fun other ho long => List.mem_append_left _ (ih other ho long)

theorem Reaches.turn (hp : Reaches Orderly modules p) :
    Turn (modules.filter longRunningModule) p := by
  induction hp with
  | start => exact ⟨rfl,rfl⟩
  | @step p q e hp ha hq ih =>
    cases e with
    | ends name =>
      obtain ⟨runs,⟨rfl,_⟩|⟨rfl,_⟩⟩ := step_ends hq
      · exact ih
      · exact ih
    | watch =>
      obtain ⟨hs,_,rfl⟩|⟨hs,_,rfl⟩|⟨hs,empty,rfl⟩|⟨hs,more,rfl⟩ := step_watch hq
      · simpa [Turn,hs] using ih
      · simpa [Turn,hs] using ih
      · simp only [Turn,hs] at ih
        obtain ⟨_,signals,handler⟩|⟨started,name,eq,signals,handler⟩ := ih
        · exact .inl (by rw [signals,handler])
        · rw [handler] at empty
          obtain rfl : started=[] := empty
          exact .inr ⟨name,eq,signals,handler⟩
      · simp only [Turn,hs] at ih
        obtain ⟨_,signals,handler⟩|⟨started,name,eq,signals,handler⟩ := ih
        · exact absurd (by rw [handler]) more
        · exact ⟨name,by rw [signals,handler]; rfl⟩
    | receive =>
      obtain ⟨left,name,inbox,after,hi,rest⟩ := step_receive hq
      have told := hp.expected name (by simp [hi])
      cases hs : p.stage with
      | watching =>
        simp only [Turn,hs] at ih
        obtain ⟨_,rfl⟩|⟨long,_,_,_⟩|⟨long,_,_,_⟩ := rest
        · simpa [Turn,hs] using ih
        · have impossible := told long
          rw [ih.1] at impossible
          cases impossible
        · have impossible := told long
          rw [ih.1] at impossible
          cases impossible
      | lastWatching =>
        rw [hs] at after
        obtain rfl := Option.some.inj after
        simp only [Turn,hs] at ih
        obtain ⟨last,signals⟩ := ih
        have this : longRunningModule name=true → name∉p.handler.shutModules → name=last := by
          intro long fresh
          have listed := told long
          rw [signals] at listed
          simpa [fresh] using listed
        obtain ⟨_,rfl⟩|⟨long,fresh,_,rfl⟩|⟨long,fresh,more,rfl⟩ := rest
        · simp only [Turn,hs]
          exact ⟨last,signals⟩
        · rw [this long fresh]
          exact .inl signals
        · obtain ⟨none,_⟩|⟨started,next,_,eq⟩ := (hp.told.retain name).signal_eq
          · exact absurd none more
          · simp only [Turn,hs,signal,eq]
            refine ⟨next,?_⟩
            rw [signals,this long fresh]
            rfl
      | started => rw [hs] at after; cases after
      | closing => rw [hs] at after; cases after
      | closed => rw [hs] at after; cases after
      | exited => rw [hs] at after; cases after
    | timeout =>
      obtain ⟨_,⟨_,rfl⟩|⟨some,_⟩⟩ := step_timeout hq
      · exact ih
      · exact absurd ha some
    | interrupt =>
      obtain ⟨before|before,rfl⟩ := step_interrupt hq
      · simpa [Turn,before] using ih
      · simpa [Turn,before] using ih
    | shutdown =>
      obtain ⟨hs,rfl⟩ := step_shutdown hq
      simp only [Turn,hs] at ih
      obtain ⟨signals,handler⟩ := ih
      simp only [Turn,signal,signals,List.nil_append]
      obtain ⟨none,eq⟩|⟨started,name,started_eq,eq⟩ := hp.told.signal_eq
      · rw [handler] at none
        rw [eq,handler]
        exact .inl ⟨none,rfl,congrArg (ModulesHandler.mk · []) none⟩
      · rw [handler] at started_eq
        rw [eq,handler]
        exact .inr ⟨started,name,started_eq,rfl,rfl⟩

theorem Reaches.mem_modules (hp : Reaches allowed modules p) {n : String}
    (hn : n∈p.signals) : n∈modules.filter longRunningModule := by
  have listed := hp.told.ordered.subset (List.mem_append_left _ hn)
  exact List.mem_reverse.mp listed

section Rounds
variable {h : ModulesHandler} {running : List String} {last : String}

/-- The module that was told ends, and the loop hears of it. -/
theorem Reaches.round
    (hp : Reaches Orderly modules ⟨h,.lastWatching,running,h.shutModules++[last],[]⟩)
    (fresh : last∉h.shutModules) (runs : last∈running) :
    longRunningModule last=true ∧
    (((h.retain last).startedModules=[] ∧
      Reaches Orderly modules
        ⟨h.retain last,.exited,running.erase last,h.shutModules++[last],[]⟩) ∨
    ∃ started next,(h.retain last).startedModules=started++[next] ∧
      Reaches Orderly modules ⟨⟨started,h.shutModules++[last]⟩,.lastWatching,running.erase last,
        h.shutModules++[last]++[next],[]⟩) := by
  have listed := hp.mem_modules (n := last) (by simp)
  have long := (List.mem_filter.mp listed).2
  have ended : Reaches Orderly modules
      ⟨h,.lastWatching,running.erase last,h.shutModules++[last],[last]⟩ :=
    hp.step (e := .ends last) (fun _ => by simp) (by simp [Process.step,ends,runs])
  refine ⟨long,?_⟩
  obtain ⟨old,_⟩|⟨_,_,⟨none,eq⟩|⟨more,eq⟩⟩ := h.onShutdownCompleted_cases last
  · exact absurd ⟨long,fresh⟩ old
  · refine .inl ⟨none,ended.step (e := .receive) trivial ?_⟩
    simp [Process.step,receive,Stage.afterLoop,eq,signal]
  · obtain ⟨none,_⟩|⟨started,next,started_eq,next_eq⟩ := (hp.told.retain last).signal_eq
    · exact absurd none more
    · refine .inr ⟨started,next,started_eq,ended.step (e := .receive) trivial ?_⟩
      rw [next_eq] at eq
      simp [Process.step,receive,Stage.afterLoop,eq,signal,ModulesHandler.retain]

/-- The modules that are not shut yet end one after another, and then the process does. -/
theorem Reaches.exists_exited
    (hp : Reaches Orderly modules ⟨h,.lastWatching,running,h.shutModules++[last],[]⟩)
    (fresh : (h.shutModules++[last]).Nodup)
    (runs : ∀ name ∈ modules.filter longRunningModule,name∉h.shutModules → name∈running) :
    ∃ q,Reaches Orderly modules q ∧ q.stage=.exited ∧ q.signals.Nodup ∧
      q.running.countP longRunningModule+q.signals.length=
        running.countP longRunningModule+h.shutModules.length := by
  induction waits : h.startedModules.length using Nat.strongRecOn
    generalizing h running last with
  | _ n ih =>
    have apart : last∉h.shutModules := by
      intro shut
      exact (List.nodup_append.mp fresh).2.2 last shut last (List.mem_singleton_self _) rfl
    have listed := hp.mem_modules (n := last) (by simp)
    have here := runs last listed apart
    obtain ⟨long,rest⟩ := hp.round apart here
    have count : running.countP longRunningModule=
        (running.erase last).countP longRunningModule+1 := by
      rw [(List.perm_cons_erase here).countP_eq,List.countP_cons_of_pos long]
    obtain ⟨_,ended⟩|⟨started,next,started_eq,later⟩ := rest
    · refine ⟨_,ended,rfl,fresh,?_⟩
      simp only [List.length_append,List.length_singleton]
      omega
    · have fewer : started.length<n := by
        have kept := List.length_filter_le (·≠last) h.startedModules
        have split := congrArg List.length started_eq
        simp only [ModulesHandler.retain,List.length_append,List.length_singleton] at split
        omega
      have apart : next∉h.shutModules++[last] :=
        (hp.told.retain last).apart next (by simp [started_eq])
      have nodup : (h.shutModules++[last]++[next]).Nodup := by
        rw [List.nodup_append]
        refine ⟨fresh,List.nodup_singleton _,?_⟩
        intro name hn other ho same
        rw [List.mem_singleton.mp ho] at same
        exact apart (same ▸ hn)
      have others : ∀ name ∈ modules.filter longRunningModule,name∉h.shutModules++[last] →
          name∈running.erase last := by
        intro name hn open_
        simp only [List.mem_append,List.mem_singleton,not_or] at open_
        exact (List.mem_erase_of_ne open_.2).mpr (runs name hn open_.1)
      obtain ⟨q,hq,exited,distinct,total⟩ := ih started.length fewer later nodup others rfl
      refine ⟨q,hq,exited,distinct,?_⟩
      simp only [List.length_append,List.length_singleton] at total
      omega

end Rounds

/-- The state of an orderly shutdown once the first loop is interrupted and the last module of
the list is told. -/
theorem reaches_closed {started : List String} {last : String}
    (hm : modules.filter longRunningModule=started++[last]) :
    Reaches Orderly modules ⟨⟨started,[]⟩,.closed,modules,[last],[]⟩ := by
  have interrupted : Reaches Orderly modules
      ⟨.startModules modules,.closing,modules,[],[]⟩ :=
    Reaches.start.step (e := .interrupt) trivial rfl
  refine interrupted.step (e := .shutdown) trivial ?_
  simp [step,signal,ModulesHandler.shutdownNextModule,ModulesHandler.startModules,hm]

/-- An orderly shutdown waits for all modules exactly if there is not just one of them and no two
have the same name. -/
theorem waits_for_all_iff (modules : List String) :
    (∀ p,Reaches Orderly modules p → p.stage=.exited →
        ∀ name ∈ p.running,longRunningModule name=false) ↔
      (modules.filter longRunningModule).Nodup ∧
        (modules.filter longRunningModule).length≠1 := by
  constructor
  · intro waits
    obtain none|⟨started,last,hm⟩ := List.eq_nil_or_concat' (modules.filter longRunningModule)
    · simp [none]
    · have closed := reaches_closed hm
      by_cases single : started=[]
      · subst single
        have exited : Reaches Orderly modules ⟨⟨[],[]⟩,.exited,modules,[last],[]⟩ :=
          closed.step (e := .watch) trivial rfl
        have listed : last∈modules.filter longRunningModule := by simp [hm]
        obtain ⟨member,long⟩ := List.mem_filter.mp listed
        have ended := waits _ exited rfl last member
        rw [long] at ended
        cases ended
      · have watching : Reaches Orderly modules
            ⟨⟨started,[]⟩,.lastWatching,modules,[last],[]⟩ :=
          closed.step (e := .watch) trivial (by simp [step,watch,single])
        obtain ⟨q,hq,exited,distinct,total⟩ := Reaches.exists_exited watching
          (List.nodup_singleton last) fun name hn _ => (List.mem_filter.mp hn).1
        have none : q.running.countP longRunningModule=0 := by
          rw [List.countP_eq_zero]
          intro name hn
          rw [waits q hq exited name hn]
          decide
        have all : (modules.filter longRunningModule).length≤q.signals.length := by
          rw [← List.countP_eq_length_filter]
          simp only [List.length_nil] at total
          omega
        have within := List.subperm_of_subset distinct fun name hn => hq.mem_modules hn
        have same := within.perm_of_length_le all
        refine ⟨same.nodup_iff.mp distinct,?_⟩
        rw [hm,List.length_append,List.length_singleton]
        have some := List.length_pos_iff.mpr single
        omega
  · rintro ⟨distinct,several⟩ p hp hs name hn
    by_contra long
    rw [Bool.not_eq_false] at long
    have running := List.count_pos_iff.mpr hn
    have few := hp.ended.few name
    have listed : name∈modules.filter longRunningModule :=
      List.mem_filter.mpr ⟨List.count_pos_iff.mp (Nat.lt_of_lt_of_le running few),long⟩
    have once := List.nodup_iff_count_le_one.mp distinct name
    rw [List.count_filter long] at once
    have shut : name∈p.handler.shutModules := by
      have turn := hp.turn
      simp only [Turn,hs] at turn
      obtain same|⟨only,single,_⟩ := turn
      · have covered := hp.told.covered name listed
        rw [hp.startedModules_eq_nil hs,same] at covered
        simpa using covered
      · rw [single] at several
        exact absurd rfl several
    have heard := hp.ended.heard name (.inl shut)
    omega

/-- The last loop waits for a module that has ended already. -/
structure Hangs (last : String) (p : Process) : Prop where
  stage : p.stage=.lastWatching
  signals : p.signals=[last]
  shut : p.handler.shutModules=[]
  gone : last∉p.running
  silent : ∀ name ∈ p.inbox,longRunningModule name=false

theorem Hangs.step {last : String} {e : Event} (hp : Hangs last p) (ha : Orderly p e)
    (hq : p.step e=some q) : Hangs last q := by
  cases e with
  | ends name =>
    obtain ⟨runs,⟨rfl,_⟩|⟨rfl,_⟩⟩ := step_ends hq
    all_goals
      have apart : name≠last := fun same => hp.gone (same ▸ runs)
      have short : longRunningModule name=false := by
        by_contra long
        rw [Bool.not_eq_false] at long
        have told := ha long
        rw [hp.signals] at told
        exact apart (List.mem_singleton.mp told)
      refine ⟨hp.stage,hp.signals,hp.shut,fun h => hp.gone (List.mem_of_mem_erase h),?_⟩
    · intro other ho
      obtain old|new := List.mem_append.mp ho
      · exact hp.silent other old
      · rw [List.mem_singleton.mp new]
        exact short
    · exact hp.silent
  | watch =>
    have loop := hp.stage
    obtain ⟨hs,_⟩|⟨hs,_⟩|⟨hs,_⟩|⟨hs,_⟩ := step_watch hq
    all_goals
      rw [loop] at hs
      cases hs
  | receive =>
    obtain ⟨left,name,inbox,_,hi,rest⟩ := step_receive hq
    have short := hp.silent name (by simp [hi])
    obtain ⟨_,rfl⟩|⟨long,_⟩|⟨long,_⟩ := rest
    · refine ⟨hp.stage,hp.signals,hp.shut,hp.gone,?_⟩
      intro other ho
      exact hp.silent other (by simp [hi,ho])
    · rw [short] at long
      cases long
    · rw [short] at long
      cases long
  | timeout =>
    obtain ⟨_,⟨_,rfl⟩|⟨some,_⟩⟩ := step_timeout hq
    · exact hp
    · exact absurd hp.shut some
  | interrupt =>
    have loop := hp.stage
    obtain ⟨hs|hs,_⟩ := step_interrupt hq
    all_goals
      rw [loop] at hs
      cases hs
  | shutdown =>
    have loop := hp.stage
    obtain ⟨hs,_⟩ := step_shutdown hq
    rw [loop] at hs
    cases hs

variable (modules) in
/-- A module that ends before the last loop has subscribed is never heard of. The process waits
for it for ever, as the timer tells the next module only if some module is shut. -/
theorem exists_hanging (started : List String) (last : String)
    (hm : modules.filter longRunningModule=started++[last]) (several : started≠[])
    (alone : modules.count last=1) :
    ∃ p,Reaches Orderly modules p ∧ p.stage=.lastWatching ∧
      ∀ q,Relation.ReflTransGen (fun p q => ∃ e,Orderly p e ∧ p.step e=some q) p q →
        q.stage=.lastWatching := by
  have listed : last∈modules.filter longRunningModule := by simp [hm]
  have member := (List.mem_filter.mp listed).1
  have ended : Reaches Orderly modules
      ⟨⟨started,[]⟩,.closed,modules.erase last,[last],[]⟩ :=
    (reaches_closed hm).step (e := .ends last) (fun _ => by simp) (by simp [step,ends,member])
  have watching : Reaches Orderly modules
      ⟨⟨started,[]⟩,.lastWatching,modules.erase last,[last],[]⟩ :=
    ended.step (e := .watch) trivial (by simp [step,watch,several])
  refine ⟨_,watching,rfl,?_⟩
  intro q hq
  have gone : last∉modules.erase last := by
    rw [← List.count_eq_zero,List.count_erase_self]
    omega
  have hangs : Hangs last q := by
    induction hq with
    | refl => exact ⟨rfl,rfl,rfl,gone,by simp⟩
    | tail _ hstep ih =>
      obtain ⟨e,ha,hq⟩ := hstep
      exact ih.step ha hq
  exact hangs.stage

theorem exists_hanging_two : ∃ p,Reaches Orderly ["a","b"] p ∧ p.stage=.lastWatching ∧
    ∀ q,Relation.ReflTransGen (fun p q => ∃ e,Orderly p e ∧ p.step e=some q) p q →
      q.stage=.lastWatching :=
  exists_hanging ["a","b"] ["a"] "b" (by decide) (by decide) (by decide)

end Process

end TruthSeeker.Modules
