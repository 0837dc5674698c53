import Mathlib.Data.List.DropRight
import TruthSeeker.NodeState.DeclaredEffects
import TruthSeeker.NodeState.DeclaredWindows
import TruthSeeker.NodeState.Heights
import TruthSeeker.NodeState.State

namespace TruthSeeker

namespace TimeoutWindow

/-- The order of the windows, in which the one without timeout is the greatest. -/
def AtMost : TimeoutWindow → TimeoutWindow → Prop
  | .timeout a,.timeout b => a≤b
  | .noTimeout,.timeout _ => False
  | _,.noTimeout => True

/-- The smallest window that ends, or the one without timeout where none of them ends. -/
def Smallest (windows : List TimeoutWindow) : TimeoutWindow → Prop
  | .timeout a => .timeout a∈windows ∧ ∀ b,.timeout b∈windows → a≤b
  | .noTimeout => ∀ b,.timeout b∉windows

/-- The windows after the last one without timeout. -/
def afterEndless (windows : List TimeoutWindow) : List TimeoutWindow :=
  windows.rtakeWhile fun window => window≠.noTimeout

theorem AtMost.antisymm {v w : TimeoutWindow} (h : v.AtMost w) (h' : w.AtMost v) : v=w := by
  cases v with
  | noTimeout =>
    cases w with
    | noTimeout => rfl
    | timeout b => exact h.elim
  | timeout a =>
    cases w with
    | noTimeout => exact h'.elim
    | timeout b => exact congrArg timeout (UInt64.le_antisymm h h')

theorem Smallest.nil : Smallest [] .noTimeout := by
  simp [Smallest]

/-- One more window. -/
theorem Smallest.concat {windows : List TimeoutWindow} {w : TimeoutWindow}
    (h : Smallest windows w) (v : TimeoutWindow) : Smallest (windows++[v]) (w.min v) := by
  cases v with
  | noTimeout => cases w <;> simpa [Smallest,TimeoutWindow.min] using h
  | timeout b =>
    cases w with
    | noTimeout =>
      refine ⟨by simp,?_⟩
      intro c hc
      obtain old|same := List.mem_append.mp hc
      · exact absurd old (h c)
      · obtain rfl := timeout.inj (List.mem_singleton.mp same)
        exact UInt64.le_refl _
    | timeout a =>
      have split : (if a≤b then a else b)=a ∧ a≤b ∨ (if a≤b then a else b)=b ∧ b≤a := by
        by_cases hab : a≤b
        · exact .inl ⟨if_pos hab,hab⟩
        · exact .inr ⟨if_neg hab,UInt64.le_of_lt (UInt64.not_le.mp hab)⟩
      change Smallest (windows++[.timeout b]) (.timeout (if a≤b then a else b))
      obtain ⟨same,hab⟩|⟨same,hba⟩ := split
      · rw [same]
        refine ⟨List.mem_append_left _ h.1,?_⟩
        intro c hc
        obtain old|new := List.mem_append.mp hc
        · exact h.2 c old
        · obtain rfl := timeout.inj (List.mem_singleton.mp new)
          exact hab
      · rw [same]
        refine ⟨by simp,?_⟩
        intro c hc
        obtain old|new := List.mem_append.mp hc
        · exact UInt64.le_trans hba (h.2 c old)
        · obtain rfl := timeout.inj (List.mem_singleton.mp new)
          exact UInt64.le_refl _

theorem smallest_foldl_min (windows : List TimeoutWindow) :
    Smallest windows (windows.foldl TimeoutWindow.min .noTimeout) := by
  induction windows using List.reverseRecOn with
  | nil => exact .nil
  | append_singleton windows v ih =>
    rw [List.foldl_concat]
    exact ih.concat v

/-- More windows have a smaller one among them. -/
theorem Smallest.anti {windows more : List TimeoutWindow} {v w : TimeoutWindow}
    (hv : Smallest windows v) (hw : Smallest more w) (sub : windows ⊆ more) : w.AtMost v := by
  cases v with
  | noTimeout => cases w <;> trivial
  | timeout a =>
    have ha := sub hv.1
    cases w with
    | noTimeout => exact absurd ha (hw a)
    | timeout b => exact hw.2 a ha

end TimeoutWindow

namespace NodeState

open TimeoutWindow

section Selection
variable (store : NodeStateStore)

/-- The windows of the registered contracts that the blobs are for. -/
def registeredWindows (blobs : List Blob) : List TimeoutWindow :=
  blobs.filterMap fun blob => (store.contracts[blob.contractName]?).map Contract.timeoutWindow

theorem smallest_of_high (high : store.currentHeight>445000) (blobs : List Blob) :
    Smallest (registeredWindows store blobs) (getTxTimeoutWindow store blobs) := by
  unfold getTxTimeoutWindow
  rw [if_pos high]
  exact smallest_foldl_min _

/-- What the fold of the lower heights keeps: a window without timeout starts it anew. -/
theorem smallest_of_low (low : ¬store.currentHeight>445000) (blobs : List Blob) :
    Smallest (afterEndless (registeredWindows store blobs)) (getTxTimeoutWindow store blobs) := by
  unfold getTxTimeoutWindow
  rw [if_neg low]
  change Smallest (afterEndless (registeredWindows store blobs))
    ((registeredWindows store blobs).foldl _ .noTimeout)
  induction registeredWindows store blobs using List.reverseRecOn with
  | nil => exact .nil
  | append_singleton windows v ih =>
    rw [List.foldl_concat,afterEndless,List.rtakeWhile_concat]
    cases v with
    | noTimeout =>
      rw [if_neg (by simp)]
      generalize windows.foldl _ TimeoutWindow.noTimeout=w
      cases w with
      | noTimeout => exact .nil
      | timeout a => exact .nil
    | timeout b =>
      rw [if_pos (by simp)]
      have kept := ih.concat (.timeout b)
      revert kept
      generalize windows.foldl _ TimeoutWindow.noTimeout=w
      cases w with
      | noTimeout => exact id
      | timeout a => exact id

/-- Above the height 445000 the window of a transaction is the smallest one, whatever the order of
its blobs, and with more blobs no transaction lives longer. Up to that height, it is the smallest
one after the last contract without timeout. -/
theorem getTxTimeoutWindow_smallest (blobs : List Blob) :
    (store.currentHeight>445000 →
      Smallest (registeredWindows store blobs) (getTxTimeoutWindow store blobs) ∧
      (∀ others,blobs.Perm others →
        getTxTimeoutWindow store others=getTxTimeoutWindow store blobs) ∧
      ∀ more,blobs ⊆ more →
        (getTxTimeoutWindow store more).AtMost (getTxTimeoutWindow store blobs)) ∧
    (store.currentHeight≤445000 →
      Smallest (afterEndless (registeredWindows store blobs))
        (getTxTimeoutWindow store blobs)) := by
  have longer : store.currentHeight>445000 → ∀ few more : List Blob,few ⊆ more →
      (getTxTimeoutWindow store more).AtMost (getTxTimeoutWindow store few) := by
    intro high few more sub
    exact (smallest_of_high store high few).anti (smallest_of_high store high more)
      (List.filterMap_subset _ sub)
  constructor
  · intro high
    refine ⟨smallest_of_high store high blobs,?_,fun more => longer high blobs more⟩
    intro others same
    exact (longer high blobs others same.subset).antisymm (longer high others blobs same.symm.subset)
  · intro low
    exact smallest_of_low store (UInt64.not_lt.mpr low) blobs

end Selection

namespace MixedWindows

/-- One contract whose transactions time out and one whose transactions do not. -/
def both : NodeStateStore where
  timeouts := ∅
  currentHeight := 0
  contracts := (((∅ : Contracts).insert "short" ⟨"short",[1],[],"risc0-1",.timeout 5⟩).insert
    "endless" ⟨"endless",[1],[],"risc0-1",.noTimeout⟩)
  unsettledTransactions := .empty

def short : Blob := ⟨"short",[]⟩

def endless : Blob := ⟨"endless",[]⟩

end MixedWindows

open MixedWindows in
/-- A contract without timeout after one with a timeout. -/
theorem not_smallest_mixed_windows :
    ¬Smallest (registeredWindows both [short,endless])
      (getTxTimeoutWindow both [short,endless]) ∧
    getTxTimeoutWindow both [endless,short]≠
      getTxTimeoutWindow both [short,endless] ∧
    ¬(getTxTimeoutWindow both [short,endless]).AtMost
      (getTxTimeoutWindow both [short]) := by
  have windows : registeredWindows both [short,endless]=[.timeout 5,.noTimeout] := by
    decide +kernel
  have later : getTxTimeoutWindow both [short,endless]=.noTimeout := by
    decide +kernel
  have earlier : getTxTimeoutWindow both [endless,short]=.timeout 5 := by
    decide +kernel
  have alone : getTxTimeoutWindow both [short]=.timeout 5 := by
    decide +kernel
  rw [windows,later,earlier,alone]
  refine ⟨?_,by simp,id⟩
  intro h
  exact h 5 List.mem_cons_self

end NodeState

end TruthSeeker

namespace TruthSeeker.NodeState

open TimeoutWindow

/-- A transaction that may get a timeout, with the state of the call and the blobs that count. -/
structure Scheduling where
  store : NodeStateStore
  txHash : TxHash
  blobs : List Blob

namespace Scheduling

variable (self : Scheduling)

/-- The windows of which the smallest one is taken. -/
def counted : List TimeoutWindow :=
  let windows := registeredWindows self.store self.blobs
  if self.store.currentHeight>445000 then windows else afterEndless windows

/-- The height and the window that `Timeouts.set` is called with, if it is called. -/
def timeout : Option (BlockHeight × BlockHeight) :=
  if self.store.unsettledTransactions.isNextToSettle self.txHash then
    match getTxTimeoutWindow self.store self.blobs with
    | .timeout window => some (self.store.currentHeight,window)
    | .noTimeout => none
  else none

/-- The height and the window add up to a height. -/
def Adds : Prop :=
  ∀ height window,self.timeout=some (height,window) → height.toNat+window.toNat<2^64

/-- If the transaction is next to settle and windows that end count for it, one of them ends at a
height. -/
def HasShortWindow : Prop :=
  self.store.unsettledTransactions.isNextToSettle self.txHash=true →
    (∃ window,.timeout window∈self.counted) →
    ∃ window,.timeout window∈self.counted ∧ self.store.currentHeight.toNat+window.toNat<2^64

end Scheduling

theorem scheduleTimeout_eq (s : Scheduling) : scheduleTimeout s.store s.txHash s.blobs=
    match s.timeout with
    | some (height,window) =>
        { s.store with timeouts := Timeouts.set s.store.timeouts s.txHash height window }
    | none => s.store := by
  unfold scheduleTimeout Scheduling.timeout
  split
  · cases getTxTimeoutWindow s.store s.blobs <;> rfl
  · rfl

theorem smallest_counted (s : Scheduling) :
    Smallest s.counted (getTxTimeoutWindow s.store s.blobs) := by
  unfold Scheduling.counted
  split
  · next high => exact smallest_of_high s.store high s.blobs
  · next low => exact smallest_of_low s.store low s.blobs

theorem adds_iff (s : Scheduling) : s.Adds ↔ s.HasShortWindow := by
  have smallest := smallest_counted s
  unfold Scheduling.Adds Scheduling.HasShortWindow Scheduling.timeout
  by_cases hn : s.store.unsettledTransactions.isNextToSettle s.txHash=true
  · simp only [hn,if_true]
    cases hw : getTxTimeoutWindow s.store s.blobs with
    | noTimeout =>
      rw [hw] at smallest
      simp only [reduceCtorEq,false_implies,implies_true,true_iff,forall_const]
      rintro ⟨window,counts⟩
      exact absurd counts (smallest window)
    | timeout window =>
      rw [hw] at smallest
      obtain ⟨counts,least⟩ := smallest
      constructor
      · intro adds _ _
        exact ⟨window,counts,adds _ _ rfl⟩
      · intro short height found same
        obtain ⟨rfl,rfl⟩ := Prod.mk.inj (Option.some.inj same)
        obtain ⟨other,mem,ends⟩ := short trivial ⟨window,counts⟩
        have le := UInt64.le_iff_toNat_le.mp (least other mem)
        omega
  · simp [hn]

section Runs
variable (env : Environment)

/-- The transactions that may get a timeout in the call: a new one, and those that could not be
settled. -/
def Moment.schedulings (self : Moment) : List Scheduling :=
  let store := self.work.store
  match self.call with
  | .sequence parentDpHash laneId tx =>
      match checkBlobTx env store tx with
      | .error _ => []
      | .ok () =>
      match store.unsettledTransactions.add
          (unsettledBlobTransaction env store parentDpHash tx (txContext laneId self.work.block)) with
      | none => []
      | some (pending,_) => [⟨withPending store pending,tx.hashed env.sha3,tx.blobs⟩]
  | .reschedule unsettlableTxs =>
      Trace.outputs rescheduleTimeout (fun store hash =>
        match store.unsettledTransactions.get hash with
        | some tx => [⟨store,hash,tx.openBlobs⟩]
        | none => []) store unsettlableTxs.toList
  | _ => []

/-- No call of the run sets a timeout at a height that overflows. -/
def TimeoutsAdd (signedBlocks : List SignedBlock) : Prop :=
  ∀ moment ∈ moments env signedBlocks,∀ scheduling ∈ moment.schedulings env,scheduling.Adds

def RunHasShortWindows (signedBlocks : List SignedBlock) : Prop :=
  ∀ moment ∈ moments env signedBlocks,∀ scheduling ∈ moment.schedulings env,
    scheduling.HasShortWindow

/-- From the height on, the window ends at a height, if it ends. -/
def EndsFrom (height : BlockHeight) : TimeoutWindow → Prop
  | .timeout window => height.toNat+window.toNat<2^64
  | .noTimeout => True

instance {height : BlockHeight} : (window : TimeoutWindow) → Decidable (EndsFrom height window)
  | .timeout window => inferInstanceAs (Decidable (height.toNat+window.toNat<2^64))
  | .noTimeout => isTrue trivial

/-- The default and the windows that the settled transactions of the run ask for end at a height,
from all heights of the run on. -/
def DeclaresShortWindows (signedBlocks : List SignedBlock) : Prop :=
  ∀ moment ∈ moments env signedBlocks,
    EndsFrom moment.work.store.currentHeight TimeoutWindow.default ∧
    ∀ declaring ∈ moments env signedBlocks,∀ window ∈ declaring.declaredWindows env,
      EndsFrom moment.work.store.currentHeight window

variable {env}

/-- A scheduling sees the contracts and the height of the call. -/
theorem of_mem_schedulings {moment : Moment} {s : Scheduling} (h : s∈moment.schedulings env) :
    s.store.contracts=moment.work.store.contracts ∧
      s.store.currentHeight=moment.work.store.currentHeight := by
  unfold Moment.schedulings at h
  dsimp only at h
  split at h
  · split at h
    · cases h
    · split at h
      · cases h
      · obtain rfl := List.mem_singleton.mp h
        exact ⟨rfl,rfl⟩
  · refine Trace.forall_mem_outputs (I := fun store : NodeStateStore =>
      store.contracts=moment.work.store.contracts ∧
        store.currentHeight=moment.work.store.currentHeight)
      (Q := fun s : Scheduling => s.store.contracts=moment.work.store.contracts ∧
        s.store.currentHeight=moment.work.store.currentHeight) ⟨rfl,rfl⟩ ?_ ?_ s h
    · intro store hash _ hs
      rw [contracts_rescheduleTimeout,currentHeight_rescheduleTimeout]
      exact hs
    · intro store hash _ hs found hf
      split at hf
      · obtain rfl := List.mem_singleton.mp hf
        exact hs
      · cases hf
  · cases h

theorem exists_of_mem_counted {s : Scheduling} {window : TimeoutWindow} (h : window∈s.counted) :
    ∃ (name : ContractName) (contract : Contract),s.store.contracts[name]?=some contract ∧
      contract.timeoutWindow=window := by
  have registered : window∈registeredWindows s.store s.blobs := by
    unfold Scheduling.counted at h
    dsimp only at h
    split at h
    · exact h
    · exact (List.rtakeWhile_suffix _ _).subset h
  obtain ⟨blob,_,hb⟩ := List.mem_filterMap.mp registered
  obtain ⟨contract,hc,hw⟩ := Option.map_eq_some_iff.mp hb
  exact ⟨blob.contractName,contract,hc,hw⟩

theorem runHasShortWindows_of_declares {signedBlocks : List SignedBlock}
    (h : DeclaresShortWindows env signedBlocks) : RunHasShortWindows env signedBlocks := by
  let good : TimeoutWindow → Prop := fun window =>
    ∀ moment ∈ moments env signedBlocks,EndsFrom moment.work.store.currentHeight window
  have all : ∀ moment ∈ moments env signedBlocks,WindowsIn good moment.work.store.contracts := by
    refine windowsIn_moments (fun moment hm => (h moment hm).1) (fun _ _ => trivial) ?_
    intro declaring hd window hw moment hm
    exact (h moment hm).2 declaring hd window hw
  intro moment hm s hs _ counts
  obtain ⟨window,counts⟩ := counts
  obtain ⟨contracts,height⟩ := of_mem_schedulings hs
  obtain ⟨name,contract,hc,hw⟩ := exists_of_mem_counted counts
  rw [contracts] at hc
  have ends := all moment hm name contract hc moment hm
  rw [hw,← height] at ends
  exact ⟨window,counts,ends⟩

/-- The timeouts of a run add up if and only if each transaction that gets one has a short enough
window among those that count. For this it is enough that all windows that are declared are. -/
theorem timeoutsAdd_iff (env : Environment) (signedBlocks : List SignedBlock) :
    (TimeoutsAdd env signedBlocks ↔ RunHasShortWindows env signedBlocks) ∧
    (DeclaresShortWindows env signedBlocks → TimeoutsAdd env signedBlocks) := by
  have exact : TimeoutsAdd env signedBlocks ↔ RunHasShortWindows env signedBlocks := by
    unfold TimeoutsAdd RunHasShortWindows
    simp only [adds_iff]
  exact ⟨exact,fun h => exact.mpr (runHasShortWindows_of_declares h)⟩

end Runs

namespace LongestWindow

open TwoContracts (block)

/-- Registers a contract with a window. -/
def register (window : UInt64) : Blob :=
  ⟨"hyle",(Borsh.ser (⟨none,none,⟨"test",[1],[0],"foo",some (.timeout window),none⟩⟩ :
    StructuredBlobData RegisterContractAction)).getD []⟩

def registerTx (window : UInt64) : BlobTransaction := ⟨"hyle@hyle",[register window]⟩

/-- The contract is registered, and a transaction for it comes next. -/
def blockOf (window : UInt64) : SignedBlock :=
  block [⟨1,.blob (registerTx window)⟩,⟨1,.blob Undeclared.tx⟩]

def signedBlock : SignedBlock := blockOf 18446744073709551615

def blobDigests : List (Bytes × H256) :=
  [(utf8 "hyle"++(register 18446744073709551615).data,
    ByteVec.ofNat 32 0x81e373e24134912fc8b881b29fe6fd6d5b77fcb79a7c9e3ebda37aa5381e7325),
   (utf8 "hyle"++(register 5).data,
    ByteVec.ofNat 32 0x99723376fab006436a44d422bda1160587e4cf58d57ecd7029f909aac1725ab5),
   (utf8 "foo",
    ByteVec.ofNat 32 0x76d3bc41c9f588f7fcd0d5bf4718f8f84b1c41b20882703100b9eb9413807c01)]

def txDigests : List (Bytes × H256) :=
  let sha3 := ByteVec.lookup blobDigests
  [(Transaction.preimage sha3 (.blob (registerTx 18446744073709551615)),
    ByteVec.ofNat 32 0xd2b648c64a0e5550f441173732faf460a5d13615d921a2e004eb016493fd7965),
   (Transaction.preimage sha3 (.blob (registerTx 5)),
    ByteVec.ofNat 32 0x610ded88192fe3670205f79e549499b886f2a2486eeb936b69f297abbd514234),
   (Transaction.preimage sha3 (.blob Undeclared.tx),Undeclared.digest),
   (signedBlock.consensusProposal.preimage,
    ByteVec.ofNat 32 0x152058c4aded5c45e6c5b36c46c22faa4172e1829870023dacbcce408221b1c4)]

/-- SHA3-256 at the byte strings that the block leads to. -/
def env : Environment :=
  { TwoContracts.env with sha3 := ByteVec.lookup (blobDigests++txDigests) }

end LongestWindow

/-- The timeouts that are set in the run of one block. -/
def timeoutsSet (env : Environment) (signedBlock : SignedBlock) :
    List (BlockHeight × BlockHeight) :=
  ((moments env [signedBlock]).flatMap (Moment.schedulings env)).filterMap Scheduling.timeout

instance {signedBlocks : List SignedBlock} {env : Environment} :
    Decidable (DeclaresShortWindows env signedBlocks) := by
  unfold DeclaresShortWindows
  infer_instance

open LongestWindow in
/-- With a short window the second transaction gets its timeout. -/
theorem timeoutsAdd_iff_short : TimeoutsAdd LongestWindow.env [blockOf 5] ∧
    timeoutsSet LongestWindow.env (blockOf 5)=[(1,5)] := by
  have declares : DeclaresShortWindows LongestWindow.env [blockOf 5] ∧
      timeoutsSet LongestWindow.env (blockOf 5)=[(1,5)] := by decide +kernel
  exact ⟨(timeoutsAdd_iff LongestWindow.env [blockOf 5]).2 declares.1,declares.2⟩

open LongestWindow in
/-- The second transaction of the first block gets a timeout at no height. -/
theorem not_timeoutsAdd : ¬TimeoutsAdd env [signedBlock] := by
  have set : timeoutsSet env signedBlock=[(1,18446744073709551615)] := by decide +kernel
  intro h
  have listed : (1,18446744073709551615)∈timeoutsSet env signedBlock := by
    rw [set]
    exact List.mem_singleton_self _
  obtain ⟨scheduling,hs,timeout⟩ := List.mem_filterMap.mp listed
  obtain ⟨moment,hm,hs⟩ := List.mem_flatMap.mp hs
  have adds := h moment hm scheduling hs _ _ timeout
  exact absurd adds (by decide)

end TruthSeeker.NodeState
