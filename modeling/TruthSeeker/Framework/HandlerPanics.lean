import TruthSeeker.Framework.Handler

namespace TruthSeeker

open Outcome

/-- The call ends in a panic of the kind. -/
def Outcome.Fails {α : Type} (bad : String → Prop) (x : Outcome α) : Prop :=
  ∃ m,x=.error (.panic m) ∧ bad m

namespace Outcome

variable {α β : Type} {bad : String → Prop} {x : Outcome α} {f : α → Outcome β}

@[simp] theorem fails_ok {a : α} : Fails bad (.ok a : Outcome α) ↔ False := by
  simp [Fails]

@[simp] theorem fails_err {m : String} : Fails bad (err m : Outcome α) ↔ False := by
  simp [Fails,err]

@[simp] theorem fails_panic {m : String} : Fails bad (panic m : Outcome α) ↔ bad m := by
  simp [Fails,panic]

theorem Quiet.not_fails (h : Quiet x) : ¬Fails bad x := by
  rintro ⟨m,hm,_⟩
  exact h m hm

instance [DecidablePred bad] : Decidable (Fails bad x) :=
  match x with
  | .ok _ => isFalse fails_ok.mp
  | .error (.err _) => isFalse fails_err.mp
  | .error (.panic m) => decidable_of_iff (bad m) fails_panic.symm

end Outcome

namespace Handler

variable {σ α β : Type} {bad : String → Prop} {call : Handler σ α} {next : α → Handler σ β}
  {s : σ}

/-- A sequence fails in its first part, or where the second part starts. -/
theorem fails_bind : ((call >>= next) s).1.Fails bad ↔
    (call s).1.Fails bad ∨ ∃ a t,call s=(.ok a,t) ∧ (next a t).1.Fails bad := by
  rw [bind_apply]
  rcases call s with ⟨result,t⟩
  cases result with
  | error fault => simp [Fails]
  | ok a =>
    simp only [fails_ok,false_or]
    constructor
    · intro h
      exact ⟨a,t,rfl,h⟩
    · rintro ⟨_,_,same,h⟩
      cases same
      exact h

theorem fails_bind_of_ok {a : α} {t : σ} (h : call s=(.ok a,t)) :
    ((call >>= next) s).1.Fails bad ↔ (next a t).1.Fails bad := by
  rw [bind_of_ok h]

theorem fails_read_bind {f : σ → α} : ((Handler.read f >>= next) s).1.Fails bad ↔
    (next (f s) s).1.Fails bad := Iff.rfl

theorem fails_ensure_bind {c : Prop} [Decidable c] {message : String} {next : Unit → Handler σ β} :
    ((Handler.lift (ensure c message) >>= next) s).1.Fails bad ↔ c ∧ (next () s).1.Fails bad := by
  by_cases hc : c
  · have passes : (Handler.lift (ensure c message) : Handler σ Unit) s=(.ok (),s) := by
      rw [Handler.lift,ensure,if_pos hc]
    rw [fails_bind_of_ok passes,and_iff_right hc]
  · have stops : (Handler.lift (ensure c message) : Handler σ Unit) s=(err message,s) := by
      rw [Handler.lift,ensure,if_neg hc]
    have whole : (Handler.lift (ensure c message) >>= next) s=(err message,s) :=
      bind_of_error stops
    rw [whole]
    exact ⟨fun h => absurd h fails_err.mp,fun h => absurd h.1 hc⟩

theorem fails_context {message : String} :
    ((Handler.context message call) s).1.Fails bad ↔ (call s).1.Fails bad := by
  unfold Handler.context
  rcases call s with ⟨(_ | _) | _,t⟩ <;> simp [Fails]

/-- The text in front of an error leaves a value as it is. -/
theorem context_eq_ok {message : String} {a : α} {t : σ} :
    Handler.context message call s=(.ok a,t) ↔ call s=(.ok a,t) := by
  unfold Handler.context
  rcases call s with ⟨(_ | _) | _,u⟩ <;> simp

theorem exists_eq_ok {a : α} : (∃ t,call s=(.ok a,t)) ↔ (call s).1=.ok a := by
  rcases call s with ⟨result,t⟩
  simp

/-- Both parts of a sequence return if the whole does. -/
theorem fst_bind_eq_ok {call : Handler σ Unit} {next : Unit → Handler σ β} {b : β} :
    ((call >>= next) s).1=.ok b ↔ (call s).1=.ok () ∧ (next () (call s).2).1=.ok b := by
  rw [bind_apply]
  rcases call s with ⟨_ | _,t⟩ <;> simp

/-- The call does not end in a panic of the kind, and a value that it returns meets the
postcondition. -/
structure Avoids (bad : String → Prop) (s : σ) (call : Handler σ α) (Q : α → σ → Prop) : Prop where
  safe : ¬(call s).1.Fails bad
  value : ∀ a t,call s=(.ok a,t) → Q a t

namespace Avoids

variable {P : α → σ → Prop} {Q : β → σ → Prop}

theorem pure {a : α} (h : P a s) : Avoids bad s (Pure.pure a) P where
  safe := fails_ok.mp
  value _ _ hb := by
    obtain ⟨value,rfl⟩ := Prod.mk.inj hb
    obtain rfl := Except.ok.inj value
    exact h

theorem bind (h : Avoids bad s call P) (hn : ∀ a t,P a t → Avoids bad t (next a) Q) :
    Avoids bad s (call >>= next) Q := by
  constructor
  · rw [fails_bind]
    rintro (first|⟨a,t,hc,second⟩)
    · exact h.safe first
    · exact (hn a t (h.value a t hc)).safe second
  · intro b u hb
    obtain ⟨a,t,hc,hn'⟩ := bind_eq_ok.mp hb
    exact (hn a t (h.value a t hc)).value b u hn'

theorem mono {P' : α → σ → Prop} (h : Avoids bad s call P) (hp : ∀ a t,P a t → P' a t) :
    Avoids bad s call P' :=
  ⟨h.safe,fun a t ht => hp a t (h.value a t ht)⟩

/-- The rule for the end of a call that promises nothing about its value. -/
theorem any (h : Avoids bad s call P) : Avoids bad s call fun _ _ => True :=
  h.mono fun _ _ _ => trivial

theorem read (f : σ → α) : Avoids bad s (Handler.read f) fun a t => a=f s ∧ t=s where
  safe := fails_ok.mp
  value _ _ ht := by
    obtain ⟨value,rfl⟩ := Prod.mk.inj ht
    exact ⟨(Except.ok.inj value).symm,rfl⟩

theorem modify (f : σ → σ) : Avoids bad s (Handler.modify f) fun _ t => t=f s where
  safe := fails_ok.mp
  value _ _ ht := (Prod.mk.inj ht).2.symm

theorem lift {x : Outcome α} (h : ¬x.Fails bad) :
    Avoids bad s (Handler.lift x) fun a t => x=.ok a ∧ t=s where
  safe := h
  value _ _ ht := ⟨(Prod.mk.inj ht).1,(Prod.mk.inj ht).2.symm⟩

theorem quiet {x : Outcome α} (h : Quiet x) :
    Avoids bad s (Handler.lift x) fun a t => x=.ok a ∧ t=s := lift h.not_fails

theorem fail (message : String) : Avoids bad s (Handler.fail message) P where
  safe := fails_err.mp
  value _ _ ht := by cases (Prod.mk.inj ht).1

theorem ite {c : Prop} [Decidable c] {no : Handler σ α} (hy : c → Avoids bad s call P)
    (hn : ¬c → Avoids bad s no P) : Avoids bad s (if c then call else no) P := by
  split_ifs with hc
  · exact hy hc
  · exact hn hc

theorem whenever {c : Prop} [Decidable c] {call : Handler σ Unit} {P : Unit → σ → Prop}
    (hy : c → Avoids bad s call P) (hn : ¬c → P () s) :
    Avoids bad s (Handler.whenever c call) P :=
  ite hy fun hc => pure (hn hc)

theorem context {message : String} (h : Avoids bad s call P) :
    Avoids bad s (Handler.context message call) P where
  safe := fun hf => h.safe (fails_context.mp hf)
  value a t ht := h.value a t (context_eq_ok.mp ht)

end Avoids

/-- The guarded call has more checks than the other one. Unless it ends in a panic of the kind,
both do the same. -/
def Guards (bad : String → Prop) (guarded call : Handler σ α) : Prop :=
  ∀ s,¬(guarded s).1.Fails bad → guarded s=call s

namespace Guards

variable {guarded : Handler σ α} {checked : α → Handler σ β}

theorem refl : Guards bad call call := fun _ _ => rfl

theorem bind (h : Guards bad guarded call) (hn : ∀ a,Guards bad (checked a) (next a)) :
    Guards bad (guarded >>= checked) (call >>= next) := by
  intro s safe
  rw [fails_bind,not_or] at safe
  obtain ⟨first,rest⟩ := safe
  rw [bind_apply,bind_apply,← h s first]
  rcases hc : guarded s with ⟨_ | a,t⟩
  · rfl
  · exact hn a t fun second => rest ⟨a,t,hc,second⟩

/-- A check that gives the value or ends in a panic of the kind. -/
theorem check {x : Outcome α} {a : α} (hx : ¬x.Fails bad → x=.ok a)
    (hn : Guards bad (checked a) (next a)) :
    Guards bad (Handler.lift x >>= checked) (next a) := by
  intro s safe
  rw [fails_bind,not_or] at safe
  obtain rfl := hx safe.1
  exact hn s fun second => safe.2 ⟨a,s,rfl,second⟩

theorem ite {c : Prop} [Decidable c] {no no' : Handler σ α} (hy : Guards bad guarded call)
    (hn : Guards bad no no') : Guards bad (if c then guarded else no) (if c then call else no') := by
  split_ifs
  · exact hy
  · exact hn

theorem context {message : String} (h : Guards bad guarded call) :
    Guards bad (Handler.context message guarded) (Handler.context message call) := by
  intro s safe
  rw [fails_context] at safe
  unfold Handler.context
  rw [h s safe]

end Guards

end Handler

end TruthSeeker
