import TruthSeeker.NodeState.SettlementProgress

namespace TruthSeeker.NodeState

open OrderedTxMap Relation

section Rounds
variable {env : Environment} {store : NodeStateStore} {handled : List BlobProofOutput}
  {succeeded failed : List TxHash} {work : Work} {toTry : TxHashSet} {p : Progress}

/-- Settlement tries until nobody is left who may settle. -/
theorem Current.settleLoop (hs : Orderly env store handled)
    (hf : OneOutput env store.unsettledTransactions handled) {fuel : Nat} (vain : TxHashSet)
    (hb : settleBound work toTry≤fuel)
    (h : Current env store handled succeeded failed work toTry p) :
    ∃ q,ReflTransGen (Commuting.Act (SettleStep env store.unsettledTransactions handled)) p q ∧
      Current env store handled succeeded failed (settleLoop env fuel work toTry vain).1 ∅ q := by
  induction fuel generalizing work toTry vain p with
  | zero =>
    have none := toList_eq_nil_of_settleBound hb
    have empty : toTry=∅ := by
      rw [Std.ExtTreeSet.eq_empty_iff_size_eq_zero,← Std.ExtTreeSet.length_toList,none]
      rfl
    subst empty
    exact ⟨p,ReflTransGen.refl,h⟩
  | succ fuel ih =>
    unfold NodeState.settleLoop
    cases hm : toTry.toList.head? with
    | none =>
      have empty : toTry=∅ := by
        rw [Std.ExtTreeSet.eq_empty_iff_size_eq_zero,← Std.ExtTreeSet.length_toList,
          List.head?_eq_none_iff.mp hm]
        rfl
      subst empty
      exact ⟨p,ReflTransGen.refl,h⟩
    | some bth =>
      have mem : bth∈toTry := Std.ExtTreeSet.mem_toList.mp (List.mem_of_head? hm)
      dsimp only
      cases hn : (settleTx env bth work).2 with
      | none =>
        have less := settleBound_failed hm hn
        exact ih _ (by omega) (h.vain hs hf hn)
      | some next =>
        have less := settleBound_settled hm hn
        obtain ⟨q,step,current⟩ := h.settled hs hf mem hn
        obtain ⟨last,steps,done⟩ := ih _ (by omega) current
        exact ⟨last,ReflTransGen.head step steps,done⟩

theorem Tracks.congr {current next : NodeStateStore}
    (h : Tracks env store handled succeeded failed current p)
    (hc : next.contracts=current.contracts)
    (hp : next.unsettledTransactions=current.unsettledTransactions) :
    Tracks env store handled succeeded failed next p where
  contracts := hc.trans h.contracts
  named := h.named
  registered := h.registered
  queues := by simpa only [hp] using h.queues
  gone := by simpa only [hp] using h.gone
  known := by simpa only [hp] using h.known
  waiting := by simpa only [hp] using h.waiting
  successes := h.successes
  failures := h.failures

/-- The timeouts that are set afterwards do not matter. -/
theorem Current.settleAndReschedule (hs : Orderly env store handled)
    (hf : OneOutput env store.unsettledTransactions handled)
    (h : Current env store handled succeeded failed work toTry p) :
    ∃ q,ReflTransGen (Commuting.Act (SettleStep env store.unsettledTransactions handled)) p q ∧
      Current env store handled succeeded failed (settleAndReschedule env work toTry) ∅ q := by
  obtain ⟨q,steps,current⟩ := h.settleLoop hs hf ∅ le_rfl
  refine ⟨q,steps,?_,current.roused,current.complete⟩
  have kept : ∀ (hashes : List TxHash) (next : NodeStateStore),
      (hashes.foldl rescheduleTimeout next).contracts=next.contracts ∧
      (hashes.foldl rescheduleTimeout next).unsettledTransactions=next.unsettledTransactions := by
    intro hashes
    induction hashes with
    | nil => exact fun _ => ⟨rfl,rfl⟩
    | cons hash hashes ih =>
      intro next
      obtain ⟨contracts,pending⟩ := ih (rescheduleTimeout next hash)
      rw [List.foldl_cons]
      exact ⟨contracts.trans (contracts_rescheduleTimeout next hash),
        pending.trans (rescheduleTimeout_unsettledTransactions next hash)⟩
  obtain ⟨contracts,pending⟩ := kept (settleTxsUntilDone env work toTry).2.toList
    (settleTxsUntilDone env work toTry).1.store
  exact current.tracks.congr contracts pending

end Rounds

section Proofs
variable {env : Environment} {store current : NodeStateStore} {handled : List BlobProofOutput}
  {succeeded failed : List TxHash} {work : Work} {toTry : TxHashSet} {p : Progress}
  {tx held : UnsettledBlobTransaction} {entry : BlobProofOutput}

theorem Roused.mono {start : OrderedTxMap} {more : List BlobProofOutput}
    (hm : ∀ entry ∈ handled,entry∈more) (h : Roused env start handled p tx) :
    Roused env start more p tx :=
  h.imp (fun h => ⟨h.1,h.2.imp fun _ he => ⟨hm _ he.1,he.2⟩⟩) id

/-- A proof that is not added to a transaction makes no difference to it. -/
theorem Settles.of_refused {start : OrderedTxMap} {verdict : Except Unit ContractChanges}
    (hr : accepts env tx entry=false)
    (h : Settles env start (handled++[entry]) p tx verdict) :
    Settles env start handled p tx verdict where
  named := h.named
  pending := h.pending
  waiting := h.waiting
  inTurn := h.inTurn
  roused := by
    refine h.roused.imp (fun first => ⟨first.1,?_⟩) id
    obtain ⟨other,hm,ha⟩ := first.2
    obtain old|new := List.mem_append.mp hm
    · exact ⟨other,old,ha⟩
    · rw [List.mem_singleton.mp new,hr] at ha
      cases ha
  decided := by
    have decided := h.decided
    unfold Verdict at decided ⊢
    split_ifs at decided ⊢
    · exact decided
    · apply decided.mono
      intro index proof hp
      rw [hasProof_iff] at hp ⊢
      refine hp.imp id fun ⟨other,hm,ha,eq⟩ => ?_
      obtain old|new := List.mem_append.mp hm
      · exact ⟨other,old,ha,eq⟩
      · rw [List.mem_singleton.mp new,hr] at ha
        cases ha

theorem Tracks.refused (h : Tracks env store handled succeeded failed current p)
    (hr : ∀ tx ∈ pendingTxs store.unsettledTransactions,p.outcome tx.hash=none →
      accepts env tx entry=false) :
    Tracks env store (handled++[entry]) succeeded failed current p where
  contracts := h.contracts
  named := h.named
  registered := h.registered
  queues := h.queues
  gone := h.gone
  known := h.known
  successes := h.successes
  failures := h.failures
  waiting := by
    intro tx ht unsettled
    obtain ⟨held,hg,hh⟩ := h.waiting tx ht unsettled
    exact ⟨held,hg,hh.of_refused (hr tx ht unsettled)⟩

theorem hash_of_accepts (h : accepts env tx entry=true) : entry.blobTxHash=tx.hash := by
  unfold accepts at h
  rw [Bool.and_eq_true] at h
  exact of_decide_eq_true h.1

theorem get_pushProof {pending : OrderedTxMap} {hash other : TxHash} {index : BlobIndex}
    {proof : ProgramId × HyleOutput} (hg : pending.get hash=some held) :
    (pending.pushProof hash index proof).get other=
      if other=hash then some (held.pushProof index proof) else pending.get other := by
  unfold OrderedTxMap.get at hg ⊢
  unfold OrderedTxMap.pushProof
  split
  · next none =>
    rw [none] at hg
    cases hg
  · next found hf =>
    obtain rfl := Option.some.inj (hf.symm.trans hg)
    rw [Std.ExtTreeMap.getElem?_insert]
    by_cases same : other=hash
    · subst same
      simp
    · have apart : compare hash other≠.eq := fun h =>
        same (Std.LawfulEqOrd.eq_of_compare h).symm
      rw [if_neg apart,if_neg same]

theorem Tracks.pushed (h : Tracks env store handled succeeded failed current p)
    (ht : tx∈pendingTxs store.unsettledTransactions)
    (hg : current.unsettledTransactions.get tx.hash=some held) (hh : Holds env handled tx held)
    (ha : accepts env tx entry=true) (hi : (held.blobs[entry.hyleOutput.index]?).isSome)
    {next : NodeStateStore} (hc : next.contracts=current.contracts)
    (hp : next.unsettledTransactions=current.unsettledTransactions.pushProof entry.blobTxHash
      entry.hyleOutput.index (entry.programId,entry.hyleOutput)) :
    Tracks env store (handled++[entry]) succeeded failed next p := by
  have hash := hash_of_accepts ha
  have get : ∀ other,next.unsettledTransactions.get other=
      if other=tx.hash then
        some (held.pushProof entry.hyleOutput.index (entry.programId,entry.hyleOutput))
      else current.unsettledTransactions.get other := by
    intro other
    rw [hp,hash,get_pushProof hg]
  refine ⟨hc.trans h.contracts,h.named,h.registered,?_,?_,?_,?_,h.successes,h.failures⟩
  · intro name
    rw [hp,txOrder_pushProof]
    exact h.queues name
  · intro other settled
    have none := h.gone other settled
    rw [get,none]
    split_ifs with same
    · rw [same,hg] at none
      cases none
    · rfl
  · intro other unknown
    have none := h.known other unknown
    rw [get,none]
    split_ifs with same
    · rw [same,hg] at none
      cases none
    · rfl
  · intro other ho unsettled
    rw [get]
    by_cases same : other.hash=tx.hash
    · have eq : other=tx := by
        have found := mem_pendingTxs.mp ho
        rw [same,mem_pendingTxs.mp ht] at found
        exact (Option.some.inj found).symm
      subst eq
      rw [if_pos rfl]
      exact ⟨_,rfl,hh.pushProof ha hi⟩
    · rw [if_neg same]
      obtain ⟨other',hg',hh'⟩ := h.waiting other ho unsettled
      refine ⟨other',hg',hh'.of_refused ?_⟩
      cases ha' : accepts env other entry with
      | false => rfl
      | true => exact absurd ((hash_of_accepts ha').symm.trans hash) same

theorem isSome_of_verifyHyleOutput {hyleOutput : HyleOutput} {u : Unit}
    (h : verifyHyleOutput env tx hyleOutput=.ok u) : (tx.blobs[hyleOutput.index]?).isSome := by
  unfold verifyHyleOutput at h
  dsimp only at h
  split_ifs at h
  split at h
  · cases h
  · next metadata hm =>
    rw [hm]
    rfl

theorem Current.mono_roused {start : OrderedTxMap}
    (h : ∀ tx ∈ pendingTxs start,p.outcome tx.hash=none → tx.hash∈toTry →
      Roused env start handled p tx) :
    ∀ tx ∈ pendingTxs start,p.outcome tx.hash=none → tx.hash∈toTry →
      Roused env start (handled++[entry]) p tx :=
  fun tx ht unsettled hm => (h tx ht unsettled hm).mono fun _ he => List.mem_append_left _ he

/-- A refused proof changes nothing but the notes of the block. -/
theorem Current.refused (h : Current env store handled succeeded failed work toTry p)
    (hr : ∀ tx ∈ pendingTxs store.unsettledTransactions,p.outcome tx.hash=none →
      accepts env tx entry=false) {block : BlockUnderConstruction}
    (hb : outcomes block=outcomes work.block) :
    Current env store (handled++[entry]) succeeded failed (work.setBlock block) toTry p where
  tracks := by
    have successful : block.successfulTxs=work.block.successfulTxs :=
      congrArg Outcomes.successful hb
    have failures : block.failedTxs=work.block.failedTxs := congrArg Outcomes.failed hb
    show Tracks env store (handled++[entry]) (succeeded++block.successfulTxs)
      (failed++block.failedTxs) work.store p
    rw [successful,failures]
    exact h.tracks.refused hr
  roused := Current.mono_roused h.roused
  complete := by
    intro tx verdict settles
    have refused := hr tx (mem_pendingTxs.mpr settles.pending) settles.waiting
    exact h.complete tx verdict (settles.of_refused refused)

/-- A proof that is added makes at most its own transaction ready, which is tried if it is
next. -/
theorem Current.accepted (hs : Orderly env store (handled++[entry]))
    (h : Current env store handled succeeded failed work toTry p)
    (ht : tx∈pendingTxs store.unsettledTransactions)
    (hg : work.store.unsettledTransactions.get tx.hash=some held) (hh : Holds env handled tx held)
    (ha : accepts env tx entry=true) (hi : (held.blobs[entry.hyleOutput.index]?).isSome)
    {next : Work} (hc : next.store.contracts=work.store.contracts)
    (hp : next.store.unsettledTransactions=work.store.unsettledTransactions.pushProof
      entry.blobTxHash entry.hyleOutput.index (entry.programId,entry.hyleOutput))
    (hb : outcomes next.block=outcomes work.block) {tried : TxHashSet}
    (hm : ∀ hash,hash∈tried ↔ hash∈toTry ∨
      hash=tx.hash ∧ p.Next store.unsettledTransactions tx) :
    Current env store (handled++[entry]) succeeded failed next tried p where
  tracks := by
    have successful : next.block.successfulTxs=work.block.successfulTxs :=
      congrArg Outcomes.successful hb
    have failures : next.block.failedTxs=work.block.failedTxs := congrArg Outcomes.failed hb
    rw [successful,failures]
    exact h.tracks.pushed ht hg hh ha hi hc hp
  roused := by
    intro other ho unsettled mem
    obtain old|⟨same,first⟩ := (hm other.hash).mp mem
    · exact Current.mono_roused h.roused other ho unsettled old
    · have eq : other=tx := by
        have found := mem_pendingTxs.mp ho
        rw [same,mem_pendingTxs.mp ht] at found
        exact (Option.some.inj found).symm
      subst eq
      exact Or.inl ⟨first,entry,by simp,ha⟩
  complete := by
    intro other verdict settles
    rw [hm]
    have pending := mem_pendingTxs.mpr settles.pending
    by_cases same : other.hash=tx.hash
    · have eq : other=tx := by
        have found := settles.pending
        rw [same,mem_pendingTxs.mp ht] at found
        exact (Option.some.inj found).symm
      subst eq
      by_cases first : p.Next store.unsettledTransactions other
      · exact Or.inr ⟨rfl,first⟩
      · -- Only a transaction that is refused natively may settle, which it could before.
        have native : nativeFailure other=true := by
          cases hn : nativeFailure other with
          | true => rfl
          | false => exact absurd (settles.next hs.toSeparated hn) first
        have decided := settles.decided
        unfold Verdict at decided
        rw [if_pos native] at decided
        refine Or.inl (h.complete other verdict ⟨settles.named,settles.pending,settles.waiting,
          ?_,?_,settles.inTurn⟩)
        · exact settles.roused.imp (fun now => absurd now.1 first) id
        · unfold Verdict
          rw [if_pos native]
          exact decided
    · have refused : accepts env other entry=false := by
        cases ha' : accepts env other entry with
        | false => rfl
        | true => exact absurd ((hash_of_accepts ha').symm.trans (hash_of_accepts ha)) same
      exact Or.inl (h.complete other verdict (settles.of_refused refused))

/-- One proof of a transaction of proofs. -/
theorem Current.handleProvenBlobs (hs : Orderly env store (handled++[entry]))
    (h : Current env store handled succeeded failed work toTry p) (txId : TxId) :
    Current env store (handled++[entry]) succeeded failed
      (handleProvenBlobs env txId (work,toTry) entry).1
      (handleProvenBlobs env txId (work,toTry) entry).2 p := by
  unfold NodeState.handleProvenBlobs handleBlobProof getForSettlement
  dsimp only
  cases hg : work.pending.get entry.blobTxHash with
  | none =>
    refine h.refused ?_ rfl
    intro tx ht unsettled
    obtain ⟨held,found,_⟩ := h.tracks.waiting tx ht unsettled
    cases ha : accepts env tx entry with
    | false => rfl
    | true =>
      rw [← hash_of_accepts ha] at found
      exact absurd (hg.symm.trans found) (by simp)
  | some held =>
    obtain ⟨tx,ht,hash,waiting,hh⟩ := h.tracks.exists_of_get hg
    have only : ∀ other ∈ pendingTxs store.unsettledTransactions,other≠tx →
        accepts env other entry=false := by
      intro other ho apart
      cases ha : accepts env other entry with
      | false => rfl
      | true =>
        have found := mem_pendingTxs.mp ho
        rw [← hash_of_accepts ha,← hash,mem_pendingTxs.mp ht] at found
        exact absurd (Option.some.inj found).symm apart
    simp only [Option.map_some]
    cases hv : verifyHyleOutput env held entry.hyleOutput with
    | error e =>
      have refused : accepts env tx entry=false := by
        unfold accepts
        rw [← hh.verifyHyleOutput,hv]
        simp [Except.isOk,Except.toBool]
      refine h.refused ?_ rfl
      intro other ho unsettled
      by_cases same : other=tx
      · rw [same,refused]
      · exact only other ho same
    | ok u =>
      have found := isSome_of_verifyHyleOutput hv
      obtain ⟨metadata,hm⟩ := Option.isSome_iff_exists.mp found
      have accepted : accepts env tx entry=true := by
        unfold accepts
        rw [← hh.verifyHyleOutput,hv,hash]
        simp [Except.isOk,Except.toBool]
      rw [← hash] at hg
      have next := h.tracks.isNextToSettle_iff hg hh
      unfold isNextToSettle at next
      rw [show work.store.unsettledTransactions.get tx.hash=some held from hg] at next
      rw [← hh.hash] at next
      simp only [hm]
      split_ifs with first
      · dsimp only
        refine h.accepted hs ht hg hh accepted found ?_ ?_ ?_ ?_
        · rfl
        · rfl
        · rfl
        intro other
        have now := next.mp first
        rw [Std.ExtTreeSet.mem_insert,hh.hash]
        constructor
        · rintro (same|old)
          · exact Or.inr ⟨(Std.LawfulEqOrd.eq_of_compare same).symm,now⟩
          · exact Or.inl old
        · rintro (old|⟨rfl,_⟩)
          · exact Or.inr old
          · exact Or.inl Std.ReflOrd.compare_self
      · dsimp only
        refine h.accepted hs ht hg hh accepted found ?_ ?_ ?_ ?_
        · rfl
        · rfl
        · rfl
        intro other
        have later := fun now => first (next.mpr now)
        exact ⟨Or.inl,fun either => either.resolve_right fun now => later now.2⟩

end Proofs

end TruthSeeker.NodeState
