import TruthSeeker.Framework.HandlerPanics

namespace TruthSeeker

/-- A part of an input that is read from its front: the inputs on which the reading of it
panics, and what it leaves of the others. Where it does neither, it returns an error. -/
structure Section (σ : Type) where
  breaks : σ → Prop
  leaves : σ → σ → Prop

namespace Section

variable {σ ε α : Type}

def nothing : Section σ where
  breaks _ := False
  leaves s t := t=s

/-- The part panics, or what comes after it does. -/
def orLater (part : Section σ) (later : σ → Prop) (s : σ) : Prop :=
  part.breaks s ∨ ∃ t,part.leaves s t ∧ later t

def andThen (first second : Section σ) : Section σ where
  breaks := first.orLater second.breaks
  leaves s u := ∃ t,first.leaves s t ∧ second.leaves t u

def times (part : Section σ) : Nat → Section σ
  | 0 => nothing
  | n+1 => part.andThen (times part n)

def panicIf (c : Prop) : Section σ where
  breaks _ := c
  leaves s t := ¬c ∧ t=s

def errorIf (c : Prop) : Section σ where
  breaks _ := False
  leaves s t := ¬c ∧ t=s

/-- One field that must be readable. -/
def item (read : ε → Except String α) : Section (List ε) where
  breaks s := s=[]
  leaves s t := ∃ f a,s=f::t ∧ read f=.ok a

/-- A field on whose value depends what follows. -/
def given (read : ε → Except String α) (rest : α → Section (List ε)) : Section (List ε) where
  breaks s := s=[] ∨ ∃ f t a,s=f::t ∧ read f=.ok a ∧ (rest a).breaks t
  leaves s u := ∃ f t a,s=f::t ∧ read f=.ok a ∧ (rest a).leaves t u

/-- The fields at the front of the list, which must all be readable. -/
def items (read : ε → Except String α) (n : Nat) : Section (List ε) where
  breaks s := s.length<n ∧ ∃ l,s.mapM read=.ok l
  leaves s t := n≤ s.length ∧ (∃ l,(s.take n).mapM read=.ok l) ∧ t=s.drop n

end Section

namespace Handler

open Outcome

variable {σ ε α β : Type}

/-- The call panics and returns a value as the section says. -/
structure Reads (call : Handler σ α) (part : Section σ) : Prop where
  breaks : ∀ s,(call s).1.Fails (fun _ => True) ↔ part.breaks s
  leaves : ∀ s t,(∃ a,call s=(.ok a,t)) ↔ part.leaves s t

/-- The calls one after the other, with the values that they return. -/
def collect (one : Nat → Handler σ α) : Nat → Nat → Handler σ (List α)
  | _,0 => pure []
  | i,n+1 => do
      let a ← one i
      let as ← collect one (i+1) n
      return a::as

/-- The call takes the first field of a list and reads it. -/
structure TakesItem (call : Handler (List ε) α) (read : ε → Except String α) : Prop where
  empty : (call []).1.Fails fun _ => True
  first : ∀ f s,(call (f::s)).1.Fails (fun _ => True) ↔ False
  value : ∀ f s a t,call (f::s)=(.ok a,t) ↔ read f=.ok a ∧ t=s

section Reads
variable {call : Handler σ α} {next : α → Handler σ β} {first second : Section σ}

/-- After a part that is read, it depends on what it leaves whether the call panics. -/
theorem Reads.fails_bind {later : σ → Prop} {s : σ} (h : Reads call first)
    (hn : ∀ a t,((next a) t).1.Fails (fun _ => True) ↔ later t) :
    ((call >>= next) s).1.Fails (fun _ => True) ↔ first.orLater later s := by
  rw [Handler.fails_bind,h.breaks]
  refine or_congr_right ?_
  constructor
  · rintro ⟨a,t,hc,fails⟩
    exact ⟨t,(h.leaves s t).mp ⟨a,hc⟩,(hn a t).mp fails⟩
  · rintro ⟨t,leaves,fails⟩
    obtain ⟨a,hc⟩ := (h.leaves s t).mpr leaves
    exact ⟨a,t,hc,(hn a t).mpr fails⟩

theorem Reads.bind (h : Reads call first) (hn : ∀ a,Reads (next a) second) :
    Reads (call >>= next) (first.andThen second) where
  breaks s := h.fails_bind fun a => (hn a).breaks
  leaves s u := by
    constructor
    · rintro ⟨b,hb⟩
      obtain ⟨a,t,hc,hnext⟩ := bind_eq_ok.mp hb
      exact ⟨t,(h.leaves s t).mp ⟨a,hc⟩,((hn a).leaves t u).mp ⟨b,hnext⟩⟩
    · rintro ⟨t,leaves,later⟩
      obtain ⟨a,hc⟩ := (h.leaves s t).mpr leaves
      obtain ⟨b,hb⟩ := ((hn a).leaves t u).mpr later
      exact ⟨b,bind_eq_ok.mpr ⟨a,t,hc,hb⟩⟩

theorem reads_pure (a : α) : Reads (pure a : Handler σ α) Section.nothing where
  breaks s := fails_ok
  leaves s t := by
    constructor
    · rintro ⟨b,hb⟩
      exact (Prod.mk.inj hb).2.symm
    · rintro rfl
      exact ⟨a,rfl⟩

/-- What is made of the value in the end does not matter. -/
theorem Reads.bind_pure (h : Reads call first) (f : α → β) :
    Reads (call >>= fun a => pure (f a)) first where
  breaks s := by
    rw [h.fails_bind fun a t => (reads_pure (f a)).breaks t]
    simp [Section.orLater,Section.nothing]
  leaves s t := by
    rw [← h.leaves]
    constructor
    · rintro ⟨b,hb⟩
      obtain ⟨a,u,hc,hp⟩ := bind_eq_ok.mp hb
      obtain rfl := (Prod.mk.inj hp).2
      exact ⟨a,hc⟩
    · rintro ⟨a,hc⟩
      exact ⟨f a,bind_eq_ok.mpr ⟨a,t,hc,rfl⟩⟩

theorem reads_panicUnless (c : Prop) [Decidable c] (message : String) :
    Reads (lift (Outcome.panicUnless c message) : Handler σ Unit) (Section.panicIf ¬c) where
  breaks s := by
    unfold lift Outcome.panicUnless Section.panicIf
    by_cases hc : c <;> simp [hc]
  leaves s t := by
    unfold lift Outcome.panicUnless Section.panicIf
    by_cases hc : c <;> simp [hc,Outcome.panic,eq_comm]

/-- An early return with an error. -/
theorem Reads.errorIf {c : Prop} [Decidable c] {message : String} (h : ¬c → Reads call first) :
    Reads (if c then fail message else call) ((Section.errorIf c).andThen first) := by
  by_cases hc : c
  · rw [if_pos hc]
    constructor
    · intro s
      simp [fail,lift,Section.andThen,Section.orLater,Section.errorIf,hc]
    · intro s t
      simp [fail,lift,Section.andThen,Section.errorIf,hc,Outcome.err]
  · rw [if_neg hc]
    constructor
    · intro s
      rw [(h hc).breaks]
      simp [Section.andThen,Section.orLater,Section.errorIf,hc]
    · intro s t
      rw [(h hc).leaves]
      simp [Section.andThen,Section.errorIf,hc]

theorem Reads.collect {one : Nat → Handler σ α} (h : ∀ i,Reads (one i) first) (i n : Nat) :
    Reads (Handler.collect one i n) (first.times n) := by
  induction n generalizing i with
  | zero => exact reads_pure []
  | succ n ih => exact (h i).bind fun a => (ih (i+1)).bind_pure (a::·)

end Reads

section Items
variable {read : ε → Except String α} {call : Handler (List ε) α} {next : α → Handler (List ε) β}

theorem TakesItem.eq_ok (h : TakesItem call read) {s t : List ε} {a : α} :
    call s=(.ok a,t) ↔ ∃ f,s=f::t ∧ read f=.ok a := by
  cases s with
  | nil =>
    obtain ⟨m,hm,_⟩ := h.empty
    constructor
    · intro ha
      rw [ha] at hm
      cases hm
    · rintro ⟨f,eq,_⟩
      cases eq
  | cons f s =>
    rw [h.value]
    constructor
    · rintro ⟨value,rfl⟩
      exact ⟨f,rfl,value⟩
    · rintro ⟨_,eq,value⟩
      obtain ⟨rfl,rfl⟩ := List.cons.inj eq
      exact ⟨value,rfl⟩

theorem TakesItem.reads (h : TakesItem call read) : Reads call (Section.item read) where
  breaks s := by
    cases s with
    | nil => exact iff_of_true h.empty rfl
    | cons f s => exact (h.first f s).trans (by simp [Section.item])
  leaves s t := by
    simp only [h.eq_ok]
    exact exists_comm

theorem TakesItem.bind {rest : α → Section (List ε)} (h : TakesItem call read)
    (hn : ∀ a,Reads (next a) (rest a)) : Reads (call >>= next) (Section.given read rest) where
  breaks s := by
    rw [Handler.fails_bind,h.reads.breaks]
    refine or_congr_right ?_
    constructor
    · rintro ⟨a,t,hc,fails⟩
      obtain ⟨f,rfl,value⟩ := h.eq_ok.mp hc
      exact ⟨f,t,a,rfl,value,((hn a).breaks t).mp fails⟩
    · rintro ⟨f,t,a,rfl,value,breaks⟩
      exact ⟨a,t,h.eq_ok.mpr ⟨f,rfl,value⟩,((hn a).breaks t).mpr breaks⟩
  leaves s u := by
    constructor
    · rintro ⟨b,hb⟩
      obtain ⟨a,t,hc,later⟩ := bind_eq_ok.mp hb
      obtain ⟨f,rfl,value⟩ := h.eq_ok.mp hc
      exact ⟨f,t,a,rfl,value,((hn a).leaves t u).mp ⟨b,later⟩⟩
    · rintro ⟨f,t,a,rfl,value,leaves⟩
      obtain ⟨b,hb⟩ := ((hn a).leaves t u).mpr leaves
      exact ⟨b,bind_eq_ok.mpr ⟨a,t,h.eq_ok.mpr ⟨f,rfl,value⟩,hb⟩⟩

/-- An error text in front does not change what is read. -/
theorem TakesItem.context (h : TakesItem call read) (message : String) :
    TakesItem (Handler.context message call) read where
  empty := fails_context.mpr h.empty
  first f s := fails_context.trans (h.first f s)
  value f s a t := context_eq_ok.trans (h.value f s a t)

variable {one : Nat → Handler (List ε) α}

theorem collect_eq_ok (h : ∀ i,TakesItem (one i) read) {i n : Nat} {s t : List ε} {l : List α} :
    Handler.collect one i n s=(.ok l,t) ↔
      n≤ s.length ∧ (s.take n).mapM read=.ok l ∧ t=s.drop n := by
  induction n generalizing i s l with
  | zero =>
    constructor
    · intro hl
      obtain ⟨value,rfl⟩ := Prod.mk.inj hl
      obtain rfl := Except.ok.inj value
      exact ⟨Nat.zero_le _,rfl,rfl⟩
    · rintro ⟨_,value,rfl⟩
      obtain rfl := Except.ok.inj value
      rfl
  | succ n ih =>
    unfold Handler.collect
    constructor
    · intro hl
      obtain ⟨a,u,hc,later⟩ := bind_eq_ok.mp hl
      obtain ⟨f,rfl,value⟩ := (h i).eq_ok.mp hc
      obtain ⟨as,_,hcol,hp⟩ := bind_eq_ok.mp later
      obtain ⟨same,rfl⟩ := Prod.mk.inj hp
      obtain rfl := Except.ok.inj same
      obtain ⟨len,values,rfl⟩ := ih.mp hcol
      refine ⟨Nat.succ_le_succ len,?_,rfl⟩
      rw [List.take_succ_cons,List.mapM_cons,value]
      exact Outcome.bind_eq_ok.mpr ⟨a,rfl,Outcome.bind_eq_ok.mpr ⟨as,values,rfl⟩⟩
    · rintro ⟨len,values,rfl⟩
      cases s with
      | nil => cases len
      | cons f s =>
        rw [List.take_succ_cons,List.mapM_cons] at values
        obtain ⟨a,value,later⟩ := Outcome.bind_eq_ok.mp values
        obtain ⟨as,rest,same⟩ := Outcome.bind_eq_ok.mp later
        obtain rfl := Except.ok.inj same
        refine bind_eq_ok.mpr ⟨a,s,(h i).eq_ok.mpr ⟨f,rfl,value⟩,?_⟩
        exact bind_eq_ok.mpr ⟨as,_,ih.mpr ⟨Nat.le_of_succ_le_succ len,rest,rfl⟩,rfl⟩

/-- A row of fields panics where it has too few, and all of them can be read. -/
theorem fails_collect (h : ∀ i,TakesItem (one i) read) {i n : Nat} {s : List ε} :
    (Handler.collect one i n s).1.Fails (fun _ => True) ↔ (Section.items read n).breaks s := by
  induction n generalizing i s with
  | zero =>
    refine iff_of_false fails_ok.mp ?_
    rintro ⟨less,_⟩
    cases less
  | succ n ih =>
    unfold Handler.collect
    have rest : ∀ a t,((Handler.collect one (i+1) n >>= fun as => pure (a::as)) t).1.Fails
        (fun _ => True) ↔ (Section.items read n).breaks t := by
      intro a t
      rw [Handler.fails_bind,ih]
      refine or_iff_left ?_
      rintro ⟨_,_,_,fails⟩
      exact fails_ok.mp fails
    rw [((h i).reads).fails_bind rest]
    cases s with
    | nil => exact iff_of_true (Or.inl rfl) ⟨Nat.succ_pos n,[],rfl⟩
    | cons f s =>
      constructor
      · rintro (empty|⟨t,⟨g,a,eq,value⟩,less,l,values⟩)
        · cases empty
        · obtain ⟨rfl,rfl⟩ := List.cons.inj eq
          refine ⟨Nat.succ_lt_succ less,a::l,?_⟩
          rw [List.mapM_cons,value]
          exact Outcome.bind_eq_ok.mpr ⟨a,rfl,Outcome.bind_eq_ok.mpr ⟨l,values,rfl⟩⟩
      · rintro ⟨less,l,values⟩
        rw [List.mapM_cons] at values
        obtain ⟨a,value,later⟩ := Outcome.bind_eq_ok.mp values
        obtain ⟨as,rest,_⟩ := Outcome.bind_eq_ok.mp later
        exact Or.inr ⟨s,⟨f,a,rfl,value⟩,Nat.lt_of_succ_lt_succ less,as,rest⟩

theorem reads_collect (h : ∀ i,TakesItem (one i) read) (i n : Nat) :
    Reads (Handler.collect one i n) (Section.items read n) where
  breaks _ := fails_collect h
  leaves s t := by
    simp only [collect_eq_ok h]
    constructor
    · rintro ⟨l,len,values,rest⟩
      exact ⟨len,⟨l,values⟩,rest⟩
    · rintro ⟨len,⟨l,values⟩,rest⟩
      exact ⟨l,len,values,rest⟩

end Items

end Handler

end TruthSeeker
