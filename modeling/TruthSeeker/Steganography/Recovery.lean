import TruthSeeker.Framework.Borsh
import TruthSeeker.Steganography.CornerText
import TruthSeeker.Steganography.Splitting

namespace TruthSeeker.Steganography

section Split

/-- The parts of the encryption of a text. -/
structure TenParts (sStr : List Char) (parts : List (List Char)) : Prop where
  count : parts.length=10
  joined : parts.flatten=sStr
  nonempty : ∀ part ∈ parts,part≠[]
  short : ∀ part ∈ parts,part.length≤35

theorem tenParts_splitString {sStr : List Char} (h : sStr.length=344) :
    TenParts sStr (splitString sStr 10) := by
  have last := @regular_text 35 (by decide) sStr
  unfold splitString
  rw [h]
  dsimp only
  generalize sStr.foldl (splitStep ((344+10-1)/10)) ⟨[],[],0⟩=state at last ⊢
  obtain ⟨joined,count,short,full⟩ := last
  have total := congrArg List.length joined
  rw [List.length_append,length_flatten_of_full full,h] at total
  have nine : state.splitList.length=9 ∧ state.outStr.length=29 := by omega
  rw [if_pos (by omega)]
  refine ⟨?_,?_,?_,?_⟩
  · rw [List.length_append,nine.1]
    rfl
  · simpa using joined
  · intro part hp
    obtain old|new := List.mem_append.mp hp
    · have length := full part old
      rintro rfl
      cases length
    · obtain rfl := List.mem_singleton.mp new
      intro none
      rw [none] at nine
      cases nine.2
  · intro part hp
    obtain old|new := List.mem_append.mp hp
    · exact (full part old).le
    · obtain rfl := List.mem_singleton.mp new
      omega

end Split

section Hide
variable {α : Type} {codec : Codec α}

/-- Each part is in its frame, and the other frames are as before. -/
theorem getElem?_hideParts {parts : List (List Char)} {s k : Nat} (hk : k≤parts.length)
    (frames : List α) (i : Nat) :
    (hideParts codec frames ((List.range' s k).zip parts))[i]?=
      if s ≤ i ∧ i < s+k then
        frames[i]?.map fun frame => codec.hide frame (String.ofList (parts.getD (i-s) []))
      else frames[i]? := by
  induction k generalizing parts s frames with
  | zero =>
    rw [if_neg (by omega)]
    rfl
  | succ k ih =>
    cases parts with
    | nil => simp at hk
    | cons part parts =>
      have rest : k≤parts.length := by simpa using hk
      have step := ih rest (s := s+1)
        (frames.modify s fun frame => codec.hide frame (String.ofList part))
      rw [List.range'_succ,List.zip_cons_cons]
      refine step.trans ?_
      rw [List.getElem?_modify]
      by_cases here : s=i
      · subst here
        rw [if_neg (by omega),if_pos (by omega)]
        simp
      · by_cases later : s+1 ≤ i ∧ i < s+1+k
        · have index : i-s=i-(s+1)+1 := by omega
          rw [if_pos later,if_pos (by omega),index]
          simp [here]
        · rw [if_neg later,if_neg (by omega)]
          simp [here]

theorem length_hideParts (frames : List α) (entries : List (Nat × List Char)) :
    (hideParts codec frames entries).length=frames.length := by
  unfold hideParts
  induction entries generalizing frames with
  | nil => rfl
  | cons entry entries ih =>
    rw [List.foldl_cons,ih,List.length_modify]

end Hide

section Video
variable {α : Type} {codec : Codec α} {frames video : List α} {parts : List (List Char)}

/-- A frame reveals what was hidden in it last, the video has the frames that were written, and
only ciphertexts of the length of the key are decrypted, to what was encrypted. -/
structure Codec.Faithful (codec : Codec α) : Prop where
  reveal_hide : ∀ frame text,text≠"" → codec.reveal (codec.hide frame text)=some text
  read_nat : ∀ frames (i : Nat),i<frames.length → codec.read frames i=frames[i]?
  decrypt_encrypt : ∀ message ciphertext,codec.encrypt message=some ciphertext →
    codec.decrypt ciphertext=some message
  length_encrypt : ∀ message ciphertext,codec.encrypt message=some ciphertext →
    ciphertext.length=256
  length_decrypt : ∀ ciphertext message,codec.decrypt ciphertext=some message →
    ciphertext.length=256

/-- What the frames of an encoded video reveal. -/
structure Encoded (codec : Codec α) (frames : List α) (parts : List (List Char))
    (video : List α) : Prop where
  length : video.length=frames.length+1
  part : ∀ i,i < min 10 frames.length → video[i]?.bind codec.reveal=
    some (String.ofList (parts.getD i []))
  frame : ∀ i,10 ≤ i → i<frames.length → video[i]?=frames[i]?
  metadata : video[frames.length]?.bind codec.reveal=
    some (String.ofList (metadataContent (List.range (min 10 frames.length))))

theorem metadata_digits : ∀ k : Fin 11,
    String.ofList (metadataContent (List.range k))="" ↔ k.val=0 := by
  decide +kernel

theorem exists_encodeFrames (hc : codec.Faithful) {sStr : List Char} (hs : sStr.length=344)
    (hf : frames≠[]) :
    ∃ video,encodeFrames codec frames (String.ofList sStr)=
        some (video,List.range (min 10 frames.length)) ∧
      Encoded codec frames (splitString sStr 10) video := by
  obtain ⟨count,_,nonempty,_⟩ := tenParts_splitString hs
  let parts := splitString sStr 10
  let numbers := List.range (min 10 frames.length)
  let hidden := hideParts codec frames (numbers.zip parts)
  have lookup : ∀ i,hidden[i]?=if i < min 10 frames.length then
      frames[i]?.map fun frame => codec.hide frame (String.ofList (parts.getD i []))
      else frames[i]? := by
    intro i
    have found := @getElem?_hideParts α codec parts 0 (min 10 frames.length)
      (by show _≤(splitString sStr 10).length; omega) frames i
    rw [← List.range_eq_range'] at found
    simpa using found
  have length : hidden.length=frames.length := length_hideParts frames _
  have positive := List.length_pos_of_ne_nil hf
  obtain ⟨first,head⟩ : ∃ first,hidden.head?=some first := by
    refine ⟨hidden[0],?_⟩
    rw [List.head?_eq_getElem?,List.getElem?_eq_getElem]
  let metadata := codec.hide first (String.ofList (metadataContent numbers))
  refine ⟨hidden++[metadata],?_,?_⟩
  · unfold encodeFrames
    rw [String.toList_ofList]
    dsimp only
    rw [count]
    show hidden.head?.map _=_
    rw [head]
    rfl
  · refine ⟨?_,?_,?_,?_⟩
    · rw [List.length_append,length]
      rfl
    · intro i hi
      have inside : i<hidden.length := by omega
      have small : i<frames.length := by omega
      rw [List.getElem?_append_left inside,lookup,if_pos hi,List.getElem?_eq_getElem small]
      apply hc.reveal_hide
      have here : i<parts.length := by
        show i<(splitString sStr 10).length
        omega
      have filled := nonempty _ (List.getElem_mem here)
      rw [List.getD_eq_getElem?_getD,List.getElem?_eq_getElem here,Option.getD_some,
        ← String.toList_inj.ne,String.toList_ofList]
      exact filled
    · intro i low high
      have inside : i<hidden.length := by omega
      rw [List.getElem?_append_left inside,lookup,if_neg (by omega)]
    · have last : (hidden++[metadata])[frames.length]?=some metadata := by
        rw [← length,List.getElem?_concat_length]
      rw [last]
      apply hc.reveal_hide first (String.ofList (metadataContent numbers))
      have digits := metadata_digits ⟨min 10 frames.length,by omega⟩
      intro none
      have zero := digits.mp none
      simp only at zero
      omega

end Video

section Metadata
variable {α : Type} {codec : Codec α} {frames video : List α} {parts : List (List Char)}

/-- The frame numbers that the first of the last frames without a part reveals, if one of them
looks like a metadata frame. -/
def impostorNums (codec : Codec α) (frames : List α) : Option (List Int) :=
  ((List.range frames.length).drop (frames.length-4)).findSome? fun i =>
    if i<10 then none else (frames[i]?.bind codec.reveal).bind frameNums

theorem frameNums_metadata : ∀ k : Fin 11,
    frameNums (String.ofList (metadataContent (List.range k)))=
      if 2≤k.val then some ((List.range k).map Int.ofNat) else none := by
  decide +kernel

theorem frameNums_part {part : List Char} (h : ',' ∉part) :
    frameNums (String.ofList part)=none := by
  unfold frameNums
  rw [String.toList_ofList,if_neg h]

theorem findSome?_congr {β γ : Type} {f g : β → Option γ} {items : List β}
    (h : ∀ a ∈ items,f a=g a) : items.findSome? f=items.findSome? g := by
  induction items with
  | nil => rfl
  | cons a items ih =>
    rw [List.findSome?_cons,List.findSome?_cons,h a List.mem_cons_self,
      ih fun b hb => h b (List.mem_cons_of_mem _ hb)]

theorem not_mem_getD {c : Char} (h : c∉parts.flatten) (i : Nat) : c∉parts.getD i [] := by
  intro hm
  rw [List.getD_eq_getElem?_getD] at hm
  cases hf : parts[i]? with
  | none => simp [hf] at hm
  | some part =>
    rw [hf] at hm
    exact h (List.mem_flatten_of_mem (List.mem_of_getElem? hf) hm)

/-- The decoder takes the numbers of an impostor, or else those of the metadata frame. -/
theorem metadataFrameNumbers_encoded (hc : codec.Faithful)
    (he : Encoded codec frames parts video) (hn : ',' ∉parts.flatten) :
    metadataFrameNumbers codec video=(impostorNums codec frames).getD
      (if 2≤frames.length then (List.range (min 10 frames.length)).map Int.ofNat else []) := by
  let revealed := fun i : Nat => ((codec.read video i).bind codec.reveal).bind frameNums
  have read : ∀ i≤frames.length,
      revealed i=(video[i]?.bind codec.reveal).bind frameNums := by
    intro i hi
    have inside : i<video.length := by
      rw [he.length]
      omega
    show ((codec.read video i).bind codec.reveal).bind frameNums=_
    rw [hc.read_nat video i inside]
  have earlier : ((List.range frames.length).drop (frames.length-4)).findSome? revealed=
      impostorNums codec frames := by
    apply findSome?_congr
    intro i hi
    have small : i<frames.length := List.mem_range.mp (List.mem_of_mem_drop hi)
    rw [read i (by omega)]
    by_cases low : i<10
    · rw [if_pos low,he.part i (by omega),Option.bind_some]
      exact frameNums_part (not_mem_getD hn i)
    · rw [if_neg low,he.frame i (by omega) small]
  have last : revealed frames.length=
      if 2≤frames.length then some ((List.range (min 10 frames.length)).map Int.ofNat)
      else none := by
    have digits := frameNums_metadata ⟨min 10 frames.length,by omega⟩
    have same : 2 ≤ min 10 frames.length ↔ 2≤frames.length := by omega
    rw [read frames.length le_rfl,he.metadata,Option.bind_some]
    simpa only [same] using digits
  have split : (List.range video.length).drop (video.length-5)=
      (List.range frames.length).drop (frames.length-4)++[frames.length] := by
    have start : frames.length+1-5=frames.length-4 := by omega
    rw [he.length,List.range_succ,start,List.drop_append_of_le_length]
    rw [List.length_range]
    omega
  unfold metadataFrameNumbers
  show ((List.drop _ _).findSome? revealed).getD []=_
  rw [split,List.findSome?_append,earlier]
  cases impostorNums codec frames with
  | some nums => rfl
  | none =>
    rw [Option.none_or,List.findSome?_singleton,last]
    split_ifs <;> rfl

end Metadata

section Decode
variable {α : Type} {codec : Codec α} {frames video : List α} {parts : List (List Char)}

/-- The video decodes to what the revealed text is an encryption of, or to what its border
says. -/
theorem decodeVideo_eq (hc : codec.Faithful) (video : List α) :
    decodeVideo codec video=
      let nums := metadataFrameNumbers codec video
      some ((plaintext codec (revealedText codec video
        (if nums=[] then (List.range 15).map Int.ofNat else nums))).getD
          (extractBorderData codec.libraries (video.map codec.imread))) := by
  have border := @extractBorderData_ne_empty codec.libraries (video.map codec.imread)
  have nothing : plaintext codec ""=none := by
    have empty : Base64.decode "".toList=some [] := by decide
    unfold plaintext decryptRsa
    rw [empty,Option.bind_some]
    cases hd : codec.decrypt [] with
    | none => rfl
    | some message =>
      have length := hc.length_decrypt [] message hd
      cases length
  unfold decodeVideo
  dsimp only
  rw [if_neg border,if_neg border]
  generalize revealedText codec video _=res
  by_cases empty : res=""
  · rw [if_pos empty,empty,nothing]
    rfl
  · rw [if_neg empty]
    cases plaintext codec res <;> rfl

theorem foldl_decodeFrame (nums : List Int) (decoded : Std.ExtTreeMap Int String) :
    nums.foldl (decodeFrame codec video) decoded=
      (nums.filterMap fun n => (clearMessage codec video n).map fun message => (n,message)).foldl
        (fun decoded entry => decoded.insert entry.1 entry.2) decoded := by
  induction nums generalizing decoded with
  | nil => rfl
  | cons n nums ih =>
    rw [List.foldl_cons,ih,List.filterMap_cons]
    unfold decodeFrame
    cases clearMessage codec video n <;> rfl

/-- Numbers in order reveal their texts in order. -/
theorem toList_revealedText {nums : List Int} (ho : nums.Pairwise fun a b => a<b) :
    (revealedText codec video nums).toList=
      (nums.filterMap (clearMessage codec video)).flatMap String.toList := by
  have sorted : (nums.filterMap fun n => (clearMessage codec video n).map fun message =>
      (n,message)).Pairwise fun a b => compare a.1 b.1=.lt := by
    refine List.Pairwise.filterMap _ ?_ ho
    intro a b less x hx y hy
    obtain ⟨_,_,rfl⟩ := Option.map_eq_some_iff.mp hx
    obtain ⟨_,_,rfl⟩ := Option.map_eq_some_iff.mp hy
    exact compare_lt_iff_lt.mpr less
  unfold revealedText
  dsimp only
  rw [String.toList_ofList,foldl_decodeFrame,← Std.ExtTreeMap.ofList_eq_foldl,
    Maps.toList_ofList sorted,List.flatMap_def,List.flatMap_def,List.map_filterMap,
    List.map_filterMap]
  congr 2
  funext n
  rw [Option.map_map]
  rfl

/-- A text that is too short for the key decrypts to nothing. -/
theorem plaintext_of_short (hc : codec.Faithful) {text : String} (h : text.toList.length<342) :
    plaintext codec text=none := by
  unfold plaintext decryptRsa
  cases hd : Base64.decode text.toList with
  | none => rfl
  | some ciphertext =>
    rw [Option.bind_some]
    cases hm : codec.decrypt ciphertext with
    | none => rfl
    | some message =>
      have length := hc.length_decrypt ciphertext message hm
      have bound := Base64.length_decode hd
      omega

theorem plaintext_encode (hc : codec.Faithful) {text : String} {ciphertext : Bytes}
    (h : codec.encrypt (utf8 text)=some ciphertext) :
    plaintext codec (String.ofList (Base64.encode ciphertext))=some text := by
  have decrypted := hc.decrypt_encrypt (utf8 text) ciphertext h
  unfold plaintext decryptRsa
  rw [String.toList_ofList,Base64.decode_encode,Option.bind_some,decrypted,Option.bind_some]
  exact fromUTF8_utf8 text

theorem clearMessage_of_le {n : Int} (h : (video.length : Int)≤n) :
    clearMessage codec video n=none := if_pos h

theorem clearMessage_of_lt (hc : codec.Faithful) {i : Nat} (h : i<video.length) :
    clearMessage codec video i=
      (video[i]?.bind codec.reveal).filter fun message => message≠"" := by
  unfold clearMessage
  rw [if_neg (by omega),hc.read_nat video i h]

theorem clearMessage_part (hc : codec.Faithful) (he : Encoded codec frames parts video)
    (hn : ∀ part ∈ parts,part≠[]) (hp : parts.length=10) {i : Nat} (h : i < min 10 frames.length) :
    clearMessage codec video i=some (String.ofList (parts.getD i [])) := by
  have inside : i<video.length := by
    rw [he.length]
    omega
  have here : i<parts.length := by omega
  have filled : String.ofList (parts.getD i [])≠"" := by
    rw [List.getD_eq_getElem?_getD,List.getElem?_eq_getElem here,Option.getD_some,
      ← String.toList_inj.ne,String.toList_ofList]
    exact hn _ (List.getElem_mem here)
  rw [clearMessage_of_lt hc inside,he.part i h,Option.filter_some,if_pos (by simpa using filled)]

theorem map_getD_range {k : Nat} (h : k≤parts.length) :
    (List.range k).map (fun i => parts.getD i [])=parts.take k := by
  apply List.ext_getElem
  · simp [h]
  · intro i hi ht
    have inside : i<parts.length := by
      rw [List.length_take] at ht
      omega
    simp [inside]

theorem pairwise_range (k : Nat) :
    ((List.range k).map Int.ofNat).Pairwise fun a b => a<b := by
  rw [List.pairwise_map]
  exact List.pairwise_lt_range.imp fun less => Int.ofNat_lt.mpr less

/-- The frames with parts reveal them. -/
theorem toList_revealedText_range (hc : codec.Faithful) (he : Encoded codec frames parts video)
    (hn : ∀ part ∈ parts,part≠[]) (hp : parts.length=10) :
    (revealedText codec video ((List.range (min 10 frames.length)).map Int.ofNat)).toList=
      (parts.take (min 10 frames.length)).flatten := by
  have messages : ((List.range (min 10 frames.length)).map Int.ofNat).filterMap
      (clearMessage codec video)=
        (parts.take (min 10 frames.length)).map String.ofList := by
    rw [← map_getD_range (by omega),List.filterMap_map,List.map_map,← List.filterMap_eq_map]
    apply List.filterMap_congr
    intro i hi
    exact clearMessage_part hc he hn hp (List.mem_range.mp hi)
  rw [toList_revealedText (pairwise_range _),messages,List.flatMap_def,List.map_map]
  have same : String.toList ∘ String.ofList=id := funext fun _ => String.toList_ofList
  rw [same,List.map_id]

theorem length_flatten_le {bound : Nat} (h : ∀ part ∈ parts,part.length≤bound) :
    parts.flatten.length≤bound*parts.length := by
  induction parts with
  | nil => simp
  | cons part parts ih =>
    have rest := ih fun other ho => h other (List.mem_cons_of_mem _ ho)
    have first := h part List.mem_cons_self
    rw [List.flatten_cons,List.length_append,List.length_cons,Nat.mul_succ]
    omega

/-- A single frame with a part is followed by the metadata frame, which reveals one digit. -/
theorem toList_revealedText_one (hc : codec.Faithful) (he : Encoded codec frames parts video)
    (hn : ∀ part ∈ parts,part≠[]) (hp : parts.length=10) (hl : frames.length=1) :
    (revealedText codec video ((List.range 15).map Int.ofNat)).toList=parts.getD 0 []++['0'] := by
  have size : video.length=2 := by rw [he.length,hl]
  have first : clearMessage codec video (Int.ofNat 0)=some (String.ofList (parts.getD 0 [])) :=
    clearMessage_part hc he hn hp (by omega)
  have second : clearMessage codec video (Int.ofNat 1)=some "0" := by
    have metadata := he.metadata
    have inside : 1<video.length := by omega
    rw [hl] at metadata
    refine (clearMessage_of_lt hc inside).trans ?_
    rw [metadata]
    decide
  have others : ((List.range' 2 13).map Int.ofNat).filterMap (clearMessage codec video)=[] := by
    rw [List.filterMap_eq_nil_iff]
    intro n hm
    obtain ⟨i,hi,rfl⟩ := List.mem_map.mp hm
    apply clearMessage_of_le
    have low := (List.mem_range'_1.mp hi).1
    rw [size]
    exact Int.ofNat_le.mpr low
  have numbers : (List.range 15).map Int.ofNat=
      Int.ofNat 0::Int.ofNat 1::(List.range' 2 13).map Int.ofNat := rfl
  rw [toList_revealedText (pairwise_range 15),numbers,List.filterMap_cons,first,
    List.filterMap_cons,second,others]
  simp

/-- Less than ten frames do not reveal enough of the text. -/
theorem plaintext_of_lt (hc : codec.Faithful) (he : Encoded codec frames parts video)
    {sStr : List Char} (hp : TenParts sStr parts) (hf : frames≠[]) (hl : frames.length<10) :
    plaintext codec (revealedText codec video
      (if 2≤frames.length then (List.range (min 10 frames.length)).map Int.ofNat
        else (List.range 15).map Int.ofNat))=none := by
  apply plaintext_of_short hc
  have positive := List.length_pos_of_ne_nil hf
  split_ifs with many
  · have short : ∀ part ∈ parts.take (min 10 frames.length),part.length≤35 :=
      fun part hm => hp.short part (List.mem_of_mem_take hm)
    have bound := length_flatten_le short
    rw [List.length_take,hp.count] at bound
    rw [toList_revealedText_range hc he hp.nonempty hp.count]
    omega
  · have one : frames.length=1 := by omega
    have here : 0<parts.length := by
      rw [hp.count]
      omega
    have short : (parts.getD 0 []).length≤35 := by
      rw [List.getD_eq_getElem?_getD,List.getElem?_eq_getElem here]
      exact hp.short _ (List.getElem_mem here)
    rw [toList_revealedText_one hc he hp.nonempty hp.count one,List.length_append]
    simp only [List.length_singleton]
    omega

end Decode

section RoundTrip
variable {α : Type}

/-- There are ten frames for the parts, and no other frame looks like the metadata frame. By
accident, the frames that an impostor names may reveal an encryption of the text, or the border of
the video may say the text where nothing is decrypted. -/
def Recoverable (codec : Codec α) (frames video : List α) (text : String) : Prop :=
  let borderData := extractBorderData codec.libraries (video.map codec.imread)
  match impostorNums codec frames with
  | none => 10≤frames.length ∨ borderData=text
  | some nums =>
      plaintext codec (revealedText codec video nums)=some text ∨
        plaintext codec (revealedText codec video nums)=none ∧ borderData=text

theorem impostorNums_ne_nil {codec : Codec α} {frames : List α} {nums : List Int}
    (h : impostorNums codec frames=some nums) : nums≠[] := by
  obtain ⟨i,_,hf⟩ := List.exists_of_findSome?_eq_some h
  split at hf
  · cases hf
  · obtain ⟨content,_,parsed⟩ := Option.bind_eq_some_iff.mp hf
    unfold frameNums at parsed
    split at parsed
    · rintro rfl
      cases hs : content.toList.splitOn ',' with
      | nil => exact List.splitOn_ne_nil _ _ hs
      | cons first rest =>
        rw [hs,List.mapM_cons] at parsed
        obtain ⟨n,_,parsed⟩ := Option.bind_eq_some_iff.mp parsed
        obtain ⟨others,_,parsed⟩ := Option.bind_eq_some_iff.mp parsed
        cases parsed
    · cases parsed

/-- What becomes of the encryption of a text that is hidden in frames. -/
theorem exists_decodeVideo {codec : Codec α} (hc : codec.Faithful) {frames : List α}
    (hf : frames≠[]) {text encryptedText : String}
    (he : encryptRsa codec text=some encryptedText) :
    ∃ video frameNumbers,encodeFrames codec frames encryptedText=some (video,frameNumbers) ∧
      decodeVideo codec video=
        let borderData := extractBorderData codec.libraries (video.map codec.imread)
        match impostorNums codec frames with
        | none => some (if 10≤frames.length then text else borderData)
        | some nums =>
            some ((plaintext codec (revealedText codec video nums)).getD borderData) := by
  obtain ⟨ciphertext,encrypted,rfl⟩ := Option.map_eq_some_iff.mp he
  have size := hc.length_encrypt (utf8 text) ciphertext encrypted
  have length : (Base64.encode ciphertext).length=344 := by rw [Base64.length_encode,size]
  obtain ⟨video,encoded,revealing⟩ := exists_encodeFrames hc length hf
  have parts := tenParts_splitString length
  have plain : ',' ∉(splitString (Base64.encode ciphertext) 10).flatten := by
    rw [parts.joined]
    intro hm
    have digits : ¬(',' ∈Base64.alphabet ∨ ',' = '=') := by decide
    exact digits (Base64.mem_encode hm)
  refine ⟨video,_,encoded,?_⟩
  rw [decodeVideo_eq hc,metadataFrameNumbers_encoded hc revealing plain]
  dsimp only
  cases hi : impostorNums codec frames with
  | some nums => rw [Option.getD_some,if_neg (impostorNums_ne_nil hi)]
  | none =>
    have positive := List.length_pos_of_ne_nil hf
    have checked : (if (if 2≤frames.length then
        (List.range (min 10 frames.length)).map Int.ofNat else [])=[] then
          (List.range 15).map Int.ofNat else
        if 2≤frames.length then (List.range (min 10 frames.length)).map Int.ofNat else [])=
        if 2≤frames.length then (List.range (min 10 frames.length)).map Int.ofNat
          else (List.range 15).map Int.ofNat := by
      by_cases many : 2≤frames.length
      · have listed : (List.range (min 10 frames.length)).map Int.ofNat≠[] := by
          simp
          omega
        rw [if_pos many,if_pos many,if_neg listed]
      · rw [if_neg many,if_neg many,if_pos rfl]
    rw [Option.getD_none,checked]
    by_cases ten : 10≤frames.length
    · have all : min 10 frames.length=10 := by omega
      have many : 2≤frames.length := by omega
      have revealed := toList_revealedText_range hc revealing parts.nonempty parts.count
      rw [all,List.take_of_length_le parts.count.le,parts.joined] at revealed
      have whole : revealedText codec video ((List.range 10).map Int.ofNat)=
          String.ofList (Base64.encode ciphertext) := by
        rw [← String.toList_inj,String.toList_ofList,revealed]
      rw [if_pos many,all,whole,plaintext_encode hc encrypted,if_pos ten]
      rfl
    · have lost := plaintext_of_lt hc revealing parts hf (by omega)
      rw [lost,if_neg ten]
      rfl

/-- The hidden text is recovered if and only if there is a frame for each part and no impostor
of the metadata frame, accidents apart. -/
theorem decodeVideo_iff (codec : Codec α) (hc : codec.Faithful) (frames : List α)
    (hf : frames≠[]) (text encryptedText : String)
    (he : encryptRsa codec text=some encryptedText) :
    ∃ video frameNumbers,encodeFrames codec frames encryptedText=some (video,frameNumbers) ∧
      (decodeVideo codec video=some text ↔ Recoverable codec frames video text) := by
  obtain ⟨video,numbers,encoded,decoded⟩ := exists_decodeVideo hc hf he
  refine ⟨video,numbers,encoded,?_⟩
  rw [decoded]
  unfold Recoverable
  dsimp only
  generalize extractBorderData codec.libraries (video.map codec.imread)=borderData
  cases impostorNums codec frames with
  | some nums =>
    dsimp only
    cases plaintext codec (revealedText codec video nums) <;> simp
  | none =>
    dsimp only
    by_cases ten : 10≤frames.length
    · simp [ten]
    · simp [ten]

end RoundTrip

namespace Greeting

/-- A frame with the text that was hidden in it last. -/
structure Picture where
  frame : Frame
  hidden : Option String

def maxMessage : Nat := 190

/-- Hiding replaces what was hidden, black frames have no border, and ciphertexts have 256 bytes,
for messages of at most 190. -/
def codec : Codec Picture where
  libraries := { libraries with detectBorderInFrame := fun _ => false }
  imread picture := picture.frame
  hide picture text := { picture with hidden := some text }
  reveal picture := picture.hidden
  read frames n := if 0≤n then frames[n.toNat]? else none
  encrypt message :=
    if message.length ≤ maxMessage then
      some (UInt8.ofNat message.length::message++List.replicate (255-message.length) 0)
    else none
  decrypt ciphertext :=
    if ciphertext.length=256 then
      match ciphertext with
      | n::rest => some (rest.take n.toNat)
      | [] => none
    else none

theorem faithful_codec : codec.Faithful := by
  refine ⟨fun _ _ _ => rfl,?_,?_,?_,?_⟩
  · intro frames i inside
    show (if (0 : Int) ≤ i then frames[(i : Int).toNat]? else none)=frames[i]?
    rw [if_pos (by omega),Int.toNat_natCast]
  · intro message ciphertext h
    obtain ⟨short,eq⟩ := Option.ite_none_right_eq_some.mp h
    obtain rfl := Option.some.inj eq
    have small : message.length≤190 := short
    have count : (UInt8.ofNat message.length).toNat=message.length := by
      rw [UInt8.toNat_ofNat']
      omega
    have size : (UInt8.ofNat message.length::message++
        List.replicate (255-message.length) 0).length=256 := by
      simp
      omega
    refine (if_pos size).trans ?_
    show some ((message++List.replicate (255-message.length) 0).take
      (UInt8.ofNat message.length).toNat)=some message
    rw [count,List.take_left]
  · intro message ciphertext h
    obtain ⟨short,eq⟩ := Option.ite_none_right_eq_some.mp h
    obtain rfl := Option.some.inj eq
    have small : message.length≤190 := short
    simp
    omega
  · intro ciphertext message h
    exact (Option.ite_none_right_eq_some.mp h).1

def frames (n : Nat) : List Picture := List.replicate n ⟨black,none⟩

theorem exists_encryptRsa : ∃ encryptedText,encryptRsa codec "hi"=some encryptedText := ⟨_,rfl⟩

theorem impostorNums_frames : impostorNums codec (frames 10)=none ∧
    impostorNums codec (frames 9)=none := by
  decide +kernel

theorem extractBorderData_codec (video : List Frame) :
    extractBorderData codec.libraries video="No frames with border encoding found" := by
  have undetected : ∀ frame : Option Frame,
      frame.filter codec.libraries.detectBorderInFrame=none := by
    intro frame
    cases frame <;> rfl
  unfold extractBorderData
  simp [undetected]

end Greeting

open Greeting in
theorem decodeVideo_iff_hi : ∃ encryptedText video frameNumbers,
    encryptRsa codec "hi"=some encryptedText ∧
    encodeFrames codec (frames 10) encryptedText=some (video,frameNumbers) ∧
      decodeVideo codec video=some "hi" := by
  obtain ⟨encryptedText,encrypted⟩ := exists_encryptRsa
  obtain ⟨video,numbers,encoded,recovered⟩ :=
    decodeVideo_iff codec faithful_codec (frames 10) (by simp [frames]) "hi" encryptedText encrypted
  refine ⟨encryptedText,video,numbers,encrypted,encoded,recovered.mpr ?_⟩
  unfold Recoverable
  rw [impostorNums_frames.1]
  exact Or.inl (by decide)

open Greeting in
/-- The last part of the encryption finds no frame. -/
theorem not_decodeVideo : ¬∀ encryptedText video frameNumbers,
    encryptRsa codec "hi"=some encryptedText →
    encodeFrames codec (frames 9) encryptedText=some (video,frameNumbers) →
      decodeVideo codec video=some "hi" := by
  intro h
  obtain ⟨encryptedText,encrypted⟩ := exists_encryptRsa
  have filled : frames 9≠[] := by simp [frames]
  obtain ⟨video,numbers,encoded,decoded⟩ := exists_decodeVideo faithful_codec filled encrypted
  have said := h encryptedText video numbers encrypted encoded
  rw [decoded,impostorNums_frames.2,extractBorderData_codec] at said
  have answer : "No frames with border encoding found"="hi" := Option.some.inj said
  revert answer
  decide

end TruthSeeker.Steganography
