import TruthSeeker.Verifiers.NoirUtils

namespace TruthSeeker.NoirUtils

open Outcome Handler

/-- A field with a number of the given width. -/
def number (bits : Nat) : Section (List String) := .item (fromStrRadix bits 16)

def bytes (n : Nat) : Section (List String) := .items readByte n

/-- The length of an array and its bytes. -/
def array : Section (List String) :=
  .given (fromStrRadix 64 16) fun length => (Section.panicIf ¬length<2^63).andThen (bytes length)

/-- The 256 characters of a string, of which the given number of bytes is meant. -/
def characters (length : Nat) : Section (List String) where
  breaks s := (Section.items readChar 256).breaks s ∨ 256≤ s.length ∧
    ∃ chars,(s.take 256).mapM readChar=.ok chars ∧ isCharBoundary length chars=false
  leaves s t := 256≤ s.length ∧ t=s.drop 256 ∧
    ∃ chars,(s.take 256).mapM readChar=.ok chars ∧ isCharBoundary length chars=true

def string : Section (List String) :=
  .given (fromStrRadix 64 16) fun length =>
    (Section.errorIf (length>256)).andThen (characters length)

def blob : Section (List String) :=
  (number 64).andThen (string.andThen (.given (fromStrRadix 64 16) fun capacity =>
    (number 64).andThen ((Section.panicIf ¬capacity<2^63).andThen (bytes capacity))))

def blobs : Section (List String) := .given (fromStrRadix 64 16) blob.times

/-- The public inputs on which the parser panics. The sections of the output follow each other,
and the last one may be absent. -/
def Breaks : List String → Prop :=
  (number 32).orLater (array.orLater (array.orLater (string.orLater
    ((Section.items readChar 64).orLater ((number 32).orLater (blobs.orLater
      ((number 64).orLater ((number 32).orLater fun fields =>
        fields≠[] ∧ array.breaks fields))))))))

/-- The size of the public inputs can be computed, and if the proof holds that many, the parser
does not panic on them. -/
def Digestible (output vkey : Bytes) : Prop :=
  ∀ n,numPublicInputs vkey=some n → n*32<2^64 ∧
    ∀ publicInputs,get output 4 (4+n*32)=some publicInputs →
      ¬Breaks (deflattenFields publicInputs)

theorem takesItem_next {α : Type} (read : String → Except String α) :
    TakesItem (next read) read where
  empty := ⟨_,rfl,trivial⟩
  first f s := by
    show (fromExcept (read f) .err).Fails _ ↔ False
    cases read f with
    | ok a => exact fails_ok
    | error e => exact fails_err
  value f s a t := by
    show (fromExcept (read f) .err,s)=(.ok a,t) ↔ _
    rw [Prod.mk.injEq,fromExcept_eq_ok,eq_comm (a := s)]

theorem reads_next {α : Type} (read : String → Except String α) :
    Reads (next read) (.item read) := (takesItem_next read).reads

theorem reads_parseArray : Reads parseArray array :=
  (takesItem_next _).bind fun length => (reads_panicUnless _ _).bind fun _ =>
    reads_collect (fun _ => takesItem_next readByte) 0 length

theorem length_le_sum_utf8Size (chars : List Char) :
    chars.length≤(chars.map Char.utf8Size).sum := by
  induction chars with
  | nil => exact le_rfl
  | cons c cs ih =>
    have pos := c.utf8Size_pos
    rw [List.map_cons,List.sum_cons,List.length_cons]
    omega

theorem length_of_mapM {α : Type} {read : String → Except String α} {fields : List String}
    {l : List α} (h : fields.mapM read=.ok l) : l.length=fields.length := by
  induction fields generalizing l with
  | nil =>
    obtain rfl := Except.ok.inj h
    rfl
  | cons f fields ih =>
    rw [List.mapM_cons] at h
    obtain ⟨a,_,later⟩ := Outcome.bind_eq_ok.mp h
    obtain ⟨as,rest,same⟩ := Outcome.bind_eq_ok.mp later
    obtain rfl := Except.ok.inj same
    rw [List.length_cons,List.length_cons,ih rest]

/-- What is cut off a string that has as many characters as bytes are meant. -/
theorem truncate_eq {length : Nat} {chars : List Char} (h : length≤ chars.length) :
    truncate length chars=if isCharBoundary length chars then .ok (takeBytes length chars)
      else Outcome.panic "assertion failed: self.is_char_boundary(new_len)" := by
  unfold truncate panicUnless
  rw [if_pos (h.trans (length_le_sum_utf8Size chars))]
  cases isCharBoundary length chars <;> rfl

/-- The characters are cut off at the boundary of a character, or the call panics. -/
theorem reads_truncated {length : Nat} (hl : ¬length>256) :
    Reads (do
      let field ← parseSizedString 256
      let field ← lift (truncate length field)
      return String.ofList field) (characters length) := by
  have collected : ∀ {s t l},parseSizedString 256 s=(.ok l,t) ↔
      256≤ s.length ∧ (s.take 256).mapM readChar=.ok l ∧ t=s.drop 256 :=
    collect_eq_ok fun _ => takesItem_next readChar
  have fits : ∀ {s : List String} {chars},256≤ s.length → (s.take 256).mapM readChar=.ok chars →
      length≤ chars.length := by
    intro s chars enough values
    rw [length_of_mapM values,List.length_take]
    omega
  constructor
  · intro s
    rw [Handler.fails_bind]
    refine or_congr (fails_collect fun _ => takesItem_next readChar) ?_
    constructor
    · rintro ⟨chars,t,hc,fails⟩
      obtain ⟨enough,values,rfl⟩ := collected.mp hc
      refine ⟨enough,chars,values,?_⟩
      by_contra boundary
      have cut : lift (truncate length chars) (s.drop 256)=
          (.ok (takeBytes length chars),s.drop 256) := by
        rw [lift,truncate_eq (fits enough values),if_pos (by simpa using boundary)]
      rw [fails_bind_of_ok cut] at fails
      exact fails_ok.mp fails
    · rintro ⟨enough,chars,values,boundary⟩
      refine ⟨chars,_,collected.mpr ⟨enough,values,rfl⟩,?_⟩
      rw [Handler.fails_bind,lift,truncate_eq (fits enough values),if_neg (by simp [boundary])]
      exact Or.inl (fails_panic.mpr trivial)
  · intro s t
    constructor
    · rintro ⟨text,ht⟩
      obtain ⟨chars,u,hc,later⟩ := bind_eq_ok.mp ht
      obtain ⟨enough,values,rfl⟩ := collected.mp hc
      obtain ⟨cut,v,hcut,hp⟩ := bind_eq_ok.mp later
      obtain ⟨ok,rfl⟩ := Prod.mk.inj hcut
      obtain ⟨_,rfl⟩ := Prod.mk.inj hp
      refine ⟨enough,rfl,chars,values,?_⟩
      rw [truncate_eq (fits enough values)] at ok
      split_ifs at ok with boundary
      · exact boundary
      · exact absurd ok (by simp)
    · rintro ⟨enough,rfl,chars,values,boundary⟩
      refine ⟨String.ofList (takeBytes length chars),
        bind_eq_ok.mpr ⟨chars,_,collected.mpr ⟨enough,values,rfl⟩,?_⟩⟩
      refine bind_eq_ok.mpr ⟨takeBytes length chars,_,?_,rfl⟩
      rw [lift,truncate_eq (fits enough values),if_pos boundary]

theorem reads_parseStringWithLen : Reads parseStringWithLen string :=
  (takesItem_next _).bind fun _ => Reads.errorIf reads_truncated

theorem reads_parseBlob : Reads parseBlob blob :=
  (reads_next _).bind fun _ => reads_parseStringWithLen.bind fun _ =>
    (takesItem_next _).bind fun capacity => (reads_next _).bind fun _ =>
      (reads_panicUnless _ _).bind fun _ =>
        (reads_collect (fun _ => (takesItem_next readByte).context _) 0 capacity).bind_pure _

theorem reads_parseBlobs : Reads parseBlobs blobs :=
  (takesItem_next _).bind fun n => Reads.collect (fun _ => reads_parseBlob) 0 n

theorem fails_parseProgramOutputs (fields : List String) :
    (parseProgramOutputs fields).1.Fails (fun _ => True) ↔ fields≠[] ∧ array.breaks fields := by
  cases fields with
  | nil => exact iff_of_false fails_ok.mp fun h => h.1 rfl
  | cons field fields =>
    rw [← reads_parseArray.breaks]
    dsimp only [parseProgramOutputs]
    rcases parseArray (field::fields) with ⟨(_ | _) | _,rest⟩ <;> simp [Outcome.Fails]

/-- Where the parser panics on the public inputs. -/
theorem fails_parseFields (fields : List String) :
    (parseFields fields).1.Fails (fun _ => True) ↔ Breaks fields := by
  refine (reads_next _).fails_bind fun _ t => ?_
  refine reads_parseArray.fails_bind fun _ t => ?_
  refine reads_parseArray.fails_bind fun _ t => ?_
  refine reads_parseStringWithLen.fails_bind fun _ t => ?_
  refine (reads_collect (fun _ => takesItem_next readChar) 0 64).fails_bind fun _ t => ?_
  refine (reads_next _).fails_bind fun _ t => ?_
  refine reads_parseBlobs.fails_bind fun _ t => ?_
  refine (reads_next _).fails_bind fun _ t => ?_
  refine (reads_next _).fails_bind fun _ t => ?_
  rw [Handler.fails_bind,fails_parseProgramOutputs]
  refine or_iff_left ?_
  rintro ⟨_,_,_,fails⟩
  exact fails_ok.mp fails

theorem quiet_iff_not_fails {α : Type} {x : Outcome α} : Quiet x ↔ ¬x.Fails fun _ => True := by
  constructor
  · exact Quiet.not_fails
  · exact fun h m hm => h ⟨m,hm,trivial⟩

/-- The parser returns a value or an error if and only if the public inputs are digestible. -/
theorem quiet_parseNoirOutput_iff (output vkey : Bytes) :
    Quiet (parseNoirOutput output vkey) ↔ Digestible output vkey := by
  unfold parseNoirOutput extractPublicInputs Digestible
  cases hn : numPublicInputs vkey with
  | none => exact iff_of_true Quiet.of_err fun _ h => nomatch h
  | some n =>
    by_cases small : n*32<2^64
    · have total : 4+n*32<2^64 := by omega
      simp only [panicUnless,if_pos small,if_pos total]
      cases hg : get output 4 (4+n*32) with
      | none =>
        refine iff_of_true Quiet.of_err ?_
        intro m hm
        obtain rfl := Option.some.inj hm
        exact ⟨small,fun _ h => by rw [hg] at h; cases h⟩
      | some publicInputs =>
        show Quiet (parseFields (deflattenFields publicInputs)).1 ↔ _
        rw [quiet_iff_not_fails,fails_parseFields]
        constructor
        · intro sound m hm
          obtain rfl := Option.some.inj hm
          refine ⟨small,fun found h => ?_⟩
          obtain rfl := Option.some.inj (hg.symm.trans h)
          exact sound
        · intro h
          exact (h n rfl).2 publicInputs hg
    · simp only [panicUnless,if_neg small]
      refine iff_of_false (fun quiet => quiet _ rfl) ?_
      intro h
      exact small (h n rfl).1

/-- An empty list of public inputs has no field to remove. -/
theorem not_quiet_parseNoirOutput :
    parseNoirOutput [0,0,0,0] (List.replicate 24 0)=
      Outcome.panic "removal index (is 0) should be < len (is 0)" ∧
    ¬Quiet (parseNoirOutput [0,0,0,0] (List.replicate 24 0)) := by
  have panics : parseNoirOutput [0,0,0,0] (List.replicate 24 0)=
      Outcome.panic "removal index (is 0) should be < len (is 0)" := by decide +kernel
  exact ⟨panics,fun quiet => quiet _ panics⟩

end TruthSeeker.NoirUtils
