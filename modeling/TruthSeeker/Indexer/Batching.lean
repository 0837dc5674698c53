import TruthSeeker.Indexer.Contributions
import TruthSeeker.NodeState.NewContracts

namespace TruthSeeker.Indexing

open IndexerHandlerStore

section Rows

/-- A fold over changes none of which changes the row. -/
theorem foldl_eq_self {α ρ : Type} {f : ρ → α → ρ} {row : ρ} {changes : List α}
    (h : ∀ change ∈ changes,f row change=row) : changes.foldl f row=row := by
  induction changes with
  | nil => rfl
  | cons change changes ih =>
    rw [List.foldl_cons,h change List.mem_cons_self]
    exact ih fun c hc => h c (List.mem_cons_of_mem _ hc)

variable {updates : List SqlUpdate}

theorem onTransaction_of_notMem {tx : TxId} {row : TransactionRow}
    (h : ∀ status,SqlUpdate.transactionStatus tx status∉updates) :
    updates.foldl (SqlUpdate.onTransaction tx) row=row := by
  apply foldl_eq_self
  intro update hu
  cases update with
  | transactionStatus other status =>
    have apart : tx≠other := by rintro rfl; exact h status hu
    exact if_neg apart
  | _ => rfl

theorem onBlob_of_notMem {blob : BlobKey} {row : BlobRow}
    (h : SqlUpdate.blobVerified blob∉updates) :
    updates.foldl (SqlUpdate.onBlob blob) row=row := by
  apply foldl_eq_self
  intro update hu
  cases update with
  | blobVerified other =>
    have apart : blob≠other := by rintro rfl; exact h hu
    exact if_neg apart
  | _ => rfl

theorem onOutput_of_notMem {output : OutputKey} {row : BlobProofOutputRow}
    (h : SqlUpdate.outputSettled output∉updates) :
    updates.foldl (SqlUpdate.onOutput output) row=row := by
  apply foldl_eq_self
  intro update hu
  cases update with
  | outputSettled other =>
    have apart : output≠other := by rintro rfl; exact h hu
    exact if_neg apart
  | _ => rfl

theorem onContractState_of_notMem {key : ContractName × ConsensusProposalHash}
    {row : StateCommitment}
    (h : ∀ state,SqlUpdate.contractState key.1 key.2 state∉updates) :
    updates.foldl (SqlUpdate.onContractState key) row=row := by
  apply foldl_eq_self
  intro update hu
  cases update with
  | contractState name blockHash state =>
    have apart : key≠(name,blockHash) := by rintro rfl; exact h state hu
    exact if_neg apart
  | _ => rfl

/-- The row with a status that some blocks have given to the transaction. -/
def TransactionRow.settle (row : TransactionRow) (status : Option SettledStatus) :
    TransactionRow :=
  match status with
  | none => row
  | some status => { row with transactionStatus := status }

/-- Updates give a transaction the last status that they have for it. -/
theorem exists_status (updates : List SqlUpdate) (tx : TxId) :
    ∃ status,∀ row : TransactionRow,
      updates.foldl (SqlUpdate.onTransaction tx) row=row.settle status := by
  induction updates with
  | nil => exact ⟨none,fun _ => rfl⟩
  | cons update updates ih =>
    obtain ⟨last,hl⟩ := ih
    have first : ∃ status,∀ row : TransactionRow,
        SqlUpdate.onTransaction tx row update=row.settle status := by
      cases update with
      | transactionStatus other status =>
        by_cases same : tx=other
        · exact ⟨some status,fun row => if_pos same⟩
        · exact ⟨none,fun row => if_neg same⟩
      | _ => exact ⟨none,fun _ => rfl⟩
    obtain ⟨status,hs⟩ := first
    refine ⟨last.or status,?_⟩
    intro row
    rw [List.foldl_cons,hs,hl]
    cases last <;> cases status <;> rfl

/-- The fields of a contract that updates change. -/
theorem onContract_keeps (name : ContractName) (row : ContractRow) :
    (updates.foldl (SqlUpdate.onContract name) row).tx=row.tx ∧
      (updates.foldl (SqlUpdate.onContract name) row).verifier=row.verifier := by
  refine List.foldlRecOn (motive := fun next : ContractRow =>
    next.tx=row.tx ∧ next.verifier=row.verifier) _ _ ⟨rfl,rfl⟩ ?_
  intro next h update _
  cases update <;> simp only [SqlUpdate.onContract] <;> first | exact h | (split <;> exact h)

/-- Updates of a field leave of it what is the same for all rows. -/
theorem onContract_field {α : Type} {field : ContractRow → α} {name : ContractName}
    {row other : ContractRow}
    (hk : ∀ update ∈ updates,∀ row other : ContractRow,field row=field other →
      field (SqlUpdate.onContract name row update)=field (SqlUpdate.onContract name other update))
    (hs : ∃ update ∈ updates,∀ row other,
      field (SqlUpdate.onContract name row update)=field (SqlUpdate.onContract name other update)) :
    field (updates.foldl (SqlUpdate.onContract name) row)=
      field (updates.foldl (SqlUpdate.onContract name) other) := by
  have kept : ∀ updates : List SqlUpdate,(∀ update ∈ updates,∀ row other : ContractRow,
      field row=field other → field (SqlUpdate.onContract name row update)=
        field (SqlUpdate.onContract name other update)) →
      ∀ row other : ContractRow,field row=field other →
        field (updates.foldl (SqlUpdate.onContract name) row)=
          field (updates.foldl (SqlUpdate.onContract name) other) := by
    intro updates
    induction updates with
    | nil => exact fun _ _ _ h => h
    | cons update updates ih =>
      intro hk row other h
      exact ih (fun u hu => hk u (List.mem_cons_of_mem _ hu)) _ _
        (hk update List.mem_cons_self row other h)
  obtain ⟨update,hu,sets⟩ := hs
  obtain ⟨before,after,rfl⟩ := List.append_of_mem hu
  rw [List.foldl_append,List.foldl_append,List.foldl_cons,List.foldl_cons]
  refine kept after ?_ _ _ (sets _ _)
  exact fun u hu => hk u (List.mem_append_right _ (List.mem_cons_of_mem _ hu))

/-- All fields of a contract that updates can change are set. -/
def Overwrites (updates : List SqlUpdate) (name : ContractName) : Prop :=
  (∃ state,SqlUpdate.stateCommitment name state∈updates) ∧
    (∃ program,SqlUpdate.programId name program∈updates) ∧
      ∃ window,SqlUpdate.timeoutWindow name window∈updates

theorem onContract_overwrites {name : ContractName} {row other : ContractRow}
    (h : Overwrites updates name) (ht : row.tx=other.tx) (hv : row.verifier=other.verifier) :
    updates.foldl (SqlUpdate.onContract name) row=
      updates.foldl (SqlUpdate.onContract name) other := by
  obtain ⟨⟨state,hs⟩,⟨program,hp⟩,window,hw⟩ := h
  have states : (updates.foldl (SqlUpdate.onContract name) row).stateCommitment=
      (updates.foldl (SqlUpdate.onContract name) other).stateCommitment := by
    refine onContract_field ?_ ⟨_,hs,fun _ _ => by simp [SqlUpdate.onContract]⟩
    intro update _ row other heq
    cases update <;> simp only [SqlUpdate.onContract] <;> first | exact heq | (split <;> simp [heq])
  have programs : (updates.foldl (SqlUpdate.onContract name) row).programId=
      (updates.foldl (SqlUpdate.onContract name) other).programId := by
    refine onContract_field ?_ ⟨_,hp,fun _ _ => by simp [SqlUpdate.onContract]⟩
    intro update _ row other heq
    cases update <;> simp only [SqlUpdate.onContract] <;> first | exact heq | (split <;> simp [heq])
  have windows : (updates.foldl (SqlUpdate.onContract name) row).timeoutWindow=
      (updates.foldl (SqlUpdate.onContract name) other).timeoutWindow := by
    refine onContract_field ?_ ⟨_,hw,fun _ _ => by simp [SqlUpdate.onContract]⟩
    intro update _ row other heq
    cases update <;> simp only [SqlUpdate.onContract] <;> first | exact heq | (split <;> simp [heq])
  have first := @onContract_keeps updates name row
  have second := @onContract_keeps updates name other
  have txs := (first.1.trans ht).trans second.1.symm
  have verifiers := (first.2.trans hv).trans second.2.symm
  generalize updates.foldl (SqlUpdate.onContract name) row=a at states programs windows txs verifiers
  generalize updates.foldl (SqlUpdate.onContract name) other=b at states programs windows txs verifiers
  cases a
  cases b
  simp_all

end Rows

/-- A transaction that is listed again leads to the same row: the columns of the new row that
an upsert leaves out are the same. -/
def SameTx (old : Option TransactionRow) (first again : TransactionRow) : Prop :=
  match old with
  | none => first.version=again.version ∧ first.transactionType=again.transactionType
  | some row => row.transactionStatus.isEarly=true →
      first.transactionType=again.transactionType

/-- The row that the update is for is not missing if it comes with the later ones. -/
def SqlUpdate.Finds (later : IndexerHandlerStore) (written : Db) : SqlUpdate → Prop
  | .transactionStatus tx _ => tx∈later.blockTxs → (written.transactions tx).isSome=true
  | .blobVerified blob => blob∈(later.txData.map blobRow).map Prod.fst →
      (written.blobs blob).isSome=true
  | .outputSettled output => output∈(later.blobProofOutputs.map outputRow).map Prod.fst →
      (written.blobProofOutputs output).isSome=true
  | _ => True

instance (old : Option TransactionRow) (first again : TransactionRow) :
    Decidable (SameTx old first again) :=
  match old with
  | none => inferInstanceAs (Decidable (_ ∧ _))
  | some _ => inferInstanceAs (Decidable (_ → _))

instance (later : IndexerHandlerStore) (written : Db) :
    DecidablePred (SqlUpdate.Finds later written)
  | .transactionStatus _ _ => inferInstanceAs (Decidable (_ → _))
  | .blobVerified _ => inferInstanceAs (Decidable (_ → _))
  | .outputSettled _ => inferInstanceAs (Decidable (_ → _))
  | .contractState _ _ _ | .stateCommitment _ _ | .programId _ _ | .timeoutWindow _ _ =>
      inferInstanceAs (Decidable True)

/-- What waits in the store fits what is noted later: a transaction that is listed again leads
to the same row, and no waiting update would find its row only among the later ones. -/
def Compatible (store later : IndexerHandlerStore) (db written : Db) : Prop :=
  (∀ entry ∈ later.blockTxs.entries,∀ first ∈ store.blockTxs.lookup entry.1,
    SameTx (db.transactions entry.1) (transactionRow entry.1.txHash first)
      (transactionRow entry.1.txHash entry.2)) ∧
    ∀ update ∈ store.sqlUpdates,update.Finds later written

instance (store later : IndexerHandlerStore) (db written : Db) :
    Decidable (Compatible store later db written) :=
  inferInstanceAs (Decidable (_ ∧ _))

/-- What waits in the store can be dumped together with what is noted later: a contract that is
registered later gets all its fields. -/
structure Joins (store later : IndexerHandlerStore) (db written : Db) : Prop where
  compatible : Compatible store later db written
  states : ∀ name blockHash state,
    SqlUpdate.contractState name blockHash state∈store.sqlUpdates →
      (name,blockHash)∈later.stateRows.map Prod.fst →
        (written.contractState (name,blockHash)).isSome=true
  contracts : ∀ name ∈ later.contracts,Overwrites later.sqlUpdates name

section Join
variable {fromTimestampMillis : Nat → Option DateTime} {now : DateTime}
  {store later : IndexerHandlerStore} {db : Db}

theorem lookup_union {κ ρ : Type} [DecidableEq κ] {first second : AList fun _ : κ => ρ} {key : κ} :
    (first∪second).lookup key=(first.lookup key).or (second.lookup key) := by
  by_cases hm : key∈first
  · rw [AList.lookup_union_left hm]
    obtain ⟨row,hr⟩ := Option.isSome_iff_exists.mp (AList.lookup_isSome.mpr hm)
    rw [hr]
    rfl
  · rw [AList.lookup_union_right hm,AList.lookup_eq_none.mpr hm]
    rfl

theorem transactionStatus_eq {txHash : TxHash} {first again : Nat × Block × Transaction}
    (h : (transactionRow txHash first).transactionType=
      (transactionRow txHash again).transactionType) :
    (transactionRow txHash first).transactionStatus=
      (transactionRow txHash again).transactionStatus := by
  obtain ⟨_,_,_,first⟩ := first
  obtain ⟨_,_,_,again⟩ := again
  cases first <;> cases again <;> first | rfl | cases h

section Conflicts
variable {old first again : TransactionRow} {status : Option SettledStatus}

/-- A status that blocks have given is not early, so that it stays. -/
theorem onConflict_settle : onConflict (old.settle status) again=(onConflict old again).settle status := by
  cases status with
  | none => rfl
  | some status => simp [onConflict,TransactionRow.settle,status.property]

theorem onConflict_onConflict
    (h : old.transactionStatus.isEarly=true → first.transactionStatus=again.transactionStatus) :
    onConflict (onConflict old first) again=onConflict old again := by
  unfold onConflict
  by_cases early : old.transactionStatus.isEarly=true
  · simp [early,h early]
  · simp [early]

/-- Of a new row the upsert keeps the version and the type. -/
theorem onConflict_new (hv : first.version=again.version)
    (ht : first.transactionType=again.transactionType)
    (hs : first.transactionStatus=again.transactionStatus) : onConflict first again=again := by
  obtain ⟨version,type,status,_,_,_,_,_⟩ := again
  simp only at hv ht hs
  simp [onConflict,hv,ht,hs]

end Conflicts

/-- An upsert after the updates of the earlier statuses has the effect of one before them. -/
theorem transactions_join (h : Joins store later db (store.written fromTimestampMillis now db)) :
    (store.written fromTimestampMillis now db).transactions.upsert onConflict
        later.transactionRows=
      (db.transactions.upsert onConflict (store.append later).transactionRows).update
        fun key row => store.sqlUpdates.foldl (SqlUpdate.onTransaction key) row := by
  funext tx
  obtain ⟨status,hs⟩ := exists_status store.sqlUpdates tx
  have found : ∀ status,SqlUpdate.transactionStatus tx status∈store.sqlUpdates →
      tx∈later.blockTxs →
        ((store.written fromTimestampMillis now db).transactions tx).isSome=true :=
    fun _ hu => h.compatible.2 _ hu
  simp only [IndexerHandlerStore.written,Db.apply,IndexerHandlerStore.inserted,Table.update,
    Table.upsert,transactionRows,IndexerHandlerStore.append,lookup_union,hs] at found ⊢
  cases hl : later.blockTxs.lookup tx with
  | none => cases store.blockTxs.lookup tx <;> rfl
  | some again =>
    have listed : tx∈later.blockTxs := AList.lookup_isSome.mp (by rw [hl]; rfl)
    cases hf : store.blockTxs.lookup tx with
    | none =>
      cases ht : db.transactions tx with
      | none =>
        -- no update is for a transaction that is new with the later rows
        have untouched : ∀ row,store.sqlUpdates.foldl (SqlUpdate.onTransaction tx) row=row :=
          fun row => onTransaction_of_notMem fun status hu => by
            simpa [hf,ht] using found status hu listed
        have same := (hs (transactionRow tx.txHash again)).symm.trans (untouched _)
        exact congrArg some same.symm
      | some old => exact congrArg some onConflict_settle
    | some first =>
      have same := h.compatible.1 ⟨tx,again⟩ (AList.mem_lookup_iff.mp hl) first hf
      cases ht : db.transactions tx with
      | none =>
        rw [ht] at same
        obtain ⟨version,type⟩ := same
        have new := onConflict_new version type (transactionStatus_eq type)
        refine congrArg some (onConflict_settle.trans ?_)
        exact congrArg (TransactionRow.settle · status) new
      | some old =>
        rw [ht] at same
        have merged := onConflict_onConflict fun he => transactionStatus_eq (same he)
        refine congrArg some (onConflict_settle.trans ?_)
        exact congrArg (TransactionRow.settle · status) merged

/-- So has the registration of contracts, since all their fields are set again. -/
theorem contracts_join (h : Joins store later db (store.written fromTimestampMillis now db)) :
    Table.update (fun key row => later.sqlUpdates.foldl (SqlUpdate.onContract key) row)
        (((store.written fromTimestampMillis now db).contracts.upsert (fun _ new => new)
          later.contractRows).delete later.deletedContracts)=
      Table.update (fun key row =>
          (store.sqlUpdates++later.sqlUpdates).foldl (SqlUpdate.onContract key) row)
        ((db.contracts.upsert (fun _ new => new) (store.append later).contractRows).delete
          (store.append later).deletedContracts) := by
  funext name
  have overwrites := h.contracts name
  simp only [IndexerHandlerStore.written,Db.apply,IndexerHandlerStore.inserted,Table.update,
    Table.upsert,Table.delete,contractRows,IndexerHandlerStore.append,lookup_union,
    Finset.mem_union,Finset.mem_sdiff,List.mem_toFinset,← AList.mem_keys,List.foldl_append]
  by_cases deleted : name∈later.deletedContracts
  · simp [deleted]
  · cases hl : later.contracts.lookup name with
    | none =>
      have absent : name∉later.contracts := AList.lookup_eq_none.mp hl
      by_cases gone : name∈store.deletedContracts
      · simp [deleted,absent,gone]
      · simp only [deleted,absent,gone,not_false_eq_true,and_true,or_self,if_false]
        cases store.contracts.lookup name <;> cases db.contracts name <;> rfl
    | some contract =>
      have listed : name∈later.contracts := AList.lookup_isSome.mp (by rw [hl]; rfl)
      have fields : ∀ row : ContractRow,
          later.sqlUpdates.foldl (SqlUpdate.onContract name) row=
            later.sqlUpdates.foldl (SqlUpdate.onContract name)
              (store.sqlUpdates.foldl (SqlUpdate.onContract name) row) := by
        intro row
        obtain ⟨tx,verifier⟩ := @onContract_keeps store.sqlUpdates name row
        exact onContract_overwrites (overwrites listed) tx.symm verifier.symm
      have same : ∀ old : Option ContractRow,
          old.elim (contractRow contract) (fun _ => contractRow contract)=contractRow contract := by
        intro old
        cases old <;> rfl
      simp only [deleted,listed,not_true_eq_false,and_false,or_self,if_false,Option.map_some,
        Option.some_or,same]
      exact congrArg some (fields _)

/-- A dump of all has the effect of two dumps. -/
theorem written_append (h : Joins store later db (store.written fromTimestampMillis now db)) :
    (store.append later).written fromTimestampMillis now db=
      later.written fromTimestampMillis now (store.written fromTimestampMillis now db) := by
  have transactions := congrArg (Table.update fun key row =>
    later.sqlUpdates.foldl (SqlUpdate.onTransaction key) row) (transactions_join h)
  rw [Table.update_update] at transactions
  have contracts := contracts_join h
  have blobs : ∀ key row,Table.ofRows (later.txData.map blobRow) key=some row →
      Table.insertIgnoring (store.txData.map blobRow) db.blobs key=none →
        store.sqlUpdates.foldl (SqlUpdate.onBlob key) row=row := by
    intro key row hr ht
    refine onBlob_of_notMem fun hu => ?_
    have found := h.compatible.2 _ hu (Table.mem_of_ofRows hr)
    simp only [IndexerHandlerStore.written,Db.apply,IndexerHandlerStore.inserted,
      Table.isSome_update,ht] at found
    cases found
  have outputs : ∀ key row,Table.ofRows (later.blobProofOutputs.map outputRow) key=some row →
      Table.insertIgnoring (store.blobProofOutputs.map outputRow) db.blobProofOutputs key=none →
        store.sqlUpdates.foldl (SqlUpdate.onOutput key) row=row := by
    intro key row hr ht
    refine onOutput_of_notMem fun hu => ?_
    have found := h.compatible.2 _ hu (Table.mem_of_ofRows hr)
    simp only [IndexerHandlerStore.written,Db.apply,IndexerHandlerStore.inserted,
      Table.isSome_update,ht] at found
    cases found
  have states : ∀ key row,Table.ofRows later.stateRows key=some row →
      Table.insertIgnoring store.stateRows db.contractState key=none →
        store.sqlUpdates.foldl (SqlUpdate.onContractState key) row=row := by
    intro key row hr ht
    refine onContractState_of_notMem fun state hu => ?_
    have found := h.states key.1 key.2 state hu (Table.mem_of_ofRows hr)
    simp only [IndexerHandlerStore.written,Db.apply,IndexerHandlerStore.inserted,
      Table.isSome_update,Prod.mk.eta,ht] at found
    cases found
  simp only [IndexerHandlerStore.written,Db.apply,IndexerHandlerStore.inserted,Db.mk.injEq]
    at transactions contracts ⊢
  refine ⟨?_,?_,?_,?_,?_,?_,?_,?_,?_,?_⟩
  · rw [← Table.insertIgnoring_append]
    simp [blockRows,IndexerHandlerStore.append]
  · rw [← Table.insertIgnoring_append]
    simp [IndexerHandlerStore.append]
  · rw [transactions]
    simp only [IndexerHandlerStore.append,List.foldl_append]
  · rw [Table.update_insertIgnoring_append blobs]
    simp only [IndexerHandlerStore.append,List.foldl_append,List.map_append]
  · rw [← Table.insertIgnoring_append]
    simp [IndexerHandlerStore.append]
  · rw [← Table.insertIgnoring_append]
    simp [IndexerHandlerStore.append]
  · rw [Table.update_insertIgnoring_append outputs]
    simp only [IndexerHandlerStore.append,List.foldl_append,List.map_append]
  · rw [contracts]
    rfl
  · rw [Table.update_insertIgnoring_append states]
    simp only [IndexerHandlerStore.append,List.foldl_append,stateRows,List.map_append]
  · simp [IndexerHandlerStore.append]

theorem isSome_written :
    (∀ key,(db.blocks key).isSome=true →
        ((later.written fromTimestampMillis now db).blocks key).isSome=true) ∧
      (∀ key,(db.transactions key).isSome=true →
        ((later.written fromTimestampMillis now db).transactions key).isSome=true) ∧
      ∀ key,(db.blobs key).isSome=true →
        ((later.written fromTimestampMillis now db).blobs key).isSome=true := by
  simp only [IndexerHandlerStore.written,Db.apply,IndexerHandlerStore.inserted,
    Table.isSome_update,Table.isSome_insertIgnoring,Table.isSome_upsert]
  tauto

theorem mem_entries_union {κ ρ : Type} [DecidableEq κ] {first second : AList fun _ : κ => ρ}
    {entry : Sigma fun _ : κ => ρ} (h : entry∈(first∪second).entries) :
    entry∈first.entries ∨ entry∈second.entries := by
  obtain ⟨key,row⟩ := entry
  rw [← AList.mem_lookup_iff,Option.mem_def,lookup_union] at h
  rw [← AList.mem_lookup_iff,← AList.mem_lookup_iff,Option.mem_def,Option.mem_def]
  cases hf : first.lookup key with
  | none => rw [hf] at h; exact Or.inr h
  | some found => rw [hf] at h; exact Or.inl h

/-- What two dumps would accept is accepted as a whole. -/
theorem admits_append (h : Joins store later db (store.written fromTimestampMillis now db))
    (hs : store.Admits fromTimestampMillis now db)
    (hl : later.Admits fromTimestampMillis now (store.written fromTimestampMillis now db)) :
    (store.append later).Admits fromTimestampMillis now db := by
  obtain ⟨blocks,transactions,blobs⟩ := @isSome_written fromTimestampMillis now later
    (store.written fromTimestampMillis now db)
  constructor
  case updates => exact List.forall_mem_append.mpr ⟨hs.updates,hl.updates⟩
  · refine ⟨List.forall_mem_append.mpr ⟨hs.blocks.1,hl.blocks.1⟩,?_,?_⟩
    · rw [blockRows,IndexerHandlerStore.append,List.map_append]
      exact hs.blocks.2.1.append hl.blocks.2.1
    · rw [IndexerHandlerStore.append,List.map_append]
      exact hs.blocks.2.2.append hl.blocks.2.2
  all_goals rw [written_append h]
  · intro entry hm
    obtain hm|hm := mem_entries_union hm
    · exact hl.transactions entry hm
    · obtain ⟨length,height,block⟩ := hs.transactions entry hm
      exact ⟨length,height,blocks _ block⟩
  · exact List.forall_mem_append.mpr ⟨fun data hm => transactions _ (hs.blobs data hm),hl.blobs⟩
  · exact List.forall_mem_append.mpr ⟨fun proof hm => transactions _ (hs.proofs proof hm),
      hl.proofs⟩
  · refine List.forall_mem_append.mpr ⟨fun event hm => ?_,hl.events⟩
    obtain ⟨height,block,tx⟩ := hs.events event hm
    exact ⟨height,blocks _ block,transactions _ tx⟩
  · intro entry hm
    obtain hm|hm := mem_entries_union hm
    · exact hl.contracts entry hm
    · obtain ⟨tx,window⟩ := hs.contracts entry hm
      exact ⟨transactions _ tx,window⟩
  · refine ⟨List.forall_mem_append.mpr
      ⟨fun state hm => blocks _ (hs.states.1 state hm),hl.states.1⟩,?_⟩
    rw [stateRows,IndexerHandlerStore.append,List.map_append]
    refine hs.states.2.append ?_
    have fresh := hl.states.2
    simp only [Table.Fresh,IndexerHandlerStore.written,Db.apply,IndexerHandlerStore.inserted,
      ← Option.not_isSome,Table.isSome_update] at fresh ⊢
    exact fresh
  · refine ⟨List.forall_mem_append.mpr ⟨fun output hm => ?_,hl.outputs.1⟩,?_⟩
    · obtain ⟨blob,tx,proof⟩ := hs.outputs.1 output hm
      exact ⟨blobs _ blob,transactions _ tx,transactions _ proof⟩
    · rw [IndexerHandlerStore.append,List.map_append]
      refine hs.outputs.2.append ?_
      have fresh := hl.outputs.2
      simp only [Table.Fresh,IndexerHandlerStore.written,Db.apply,IndexerHandlerStore.inserted,
        ← Option.not_isSome,Table.isSome_update] at fresh ⊢
      exact fresh

end Join

section Times
variable {fromTimestampMillis : Nat → Option DateTime} {store : IndexerHandlerStore}

/-- All timestamps that wait can be converted. -/
def Timely (fromTimestampMillis : Nat → Option DateTime) (store : IndexerHandlerStore) : Prop :=
  ∀ block ∈ store.blocks,
    (intoUtcDateTime fromTimestampMillis block.blockTimestamp).isSome=true

theorem Timely.blockRows (h : Timely fromTimestampMillis store) (now other : DateTime) :
    store.blockRows fromTimestampMillis now=store.blockRows fromTimestampMillis other := by
  refine List.map_congr_left fun block hm => ?_
  obtain ⟨time,ht⟩ := Option.isSome_iff_exists.mp (h block hm)
  simp [blockRow,ht]

theorem Timely.written (h : Timely fromTimestampMillis store) (now other : DateTime) (db : Db) :
    store.written fromTimestampMillis now db=store.written fromTimestampMillis other db := by
  simp only [IndexerHandlerStore.written,IndexerHandlerStore.inserted,h.blockRows now other]

theorem Timely.admits (h : Timely fromTimestampMillis store) {now : DateTime} (other : DateTime)
    {db : Db} (ha : store.Admits fromTimestampMillis now db) :
    store.Admits fromTimestampMillis other db := by
  have rows := h.blockRows now other
  have written := h.written now other db
  obtain ⟨blocks,transactions,blobs,proofs,events,contracts,states,outputs,updates⟩ := ha
  rw [rows] at blocks
  rw [written] at transactions blobs proofs events contracts states outputs
  exact ⟨blocks,transactions,blobs,proofs,events,contracts,states,outputs,updates⟩

end Times

section Groups
variable (fromTimestampMillis : Nat → Option DateTime) (now : DateTime)

/-- The block can be indexed in the state, and it does not matter that what waits there is not
in the tables yet. -/
structure Safe (indexer : Indexer) (block : Block) : Prop where
  timestamp : (intoUtcDateTime fromTimestampMillis block.blockTimestamp).isSome=true
  complete : Complete block
  admits : (ofBlock block).Admits fromTimestampMillis now
    (indexer.handlerStore.written fromTimestampMillis now indexer.db)
  compatible : Compatible indexer.handlerStore (ofBlock block) indexer.db
    (indexer.handlerStore.written fromTimestampMillis now indexer.db)

instance (indexer : Indexer) (block : Block) :
    Decidable (Safe fromTimestampMillis now indexer block) :=
  decidable_of_iff ((intoUtcDateTime fromTimestampMillis block.blockTimestamp).isSome=true ∧
      Complete block ∧ (ofBlock block).Admits fromTimestampMillis now
        (indexer.handlerStore.written fromTimestampMillis now indexer.db) ∧
      Compatible indexer.handlerStore (ofBlock block) indexer.db
        (indexer.handlerStore.written fromTimestampMillis now indexer.db))
    ⟨fun ⟨timestamp,complete,admits,compatible⟩ => ⟨timestamp,complete,admits,compatible⟩,
      fun h => ⟨h.timestamp,h.complete,h.admits,h.compatible⟩⟩

/-- All blocks until the next dump are safe. -/
def SafeBlocks : Indexer → List Block → Prop
  | _,[] => True
  | self,block::blocks =>
      Safe fromTimestampMillis now self block ∧ SafeBlocks (self.handleBlock block) blocks

def SafeGroups (fromTimestampMillis : Nat → Option DateTime) :
    Indexer → List (List Block × DateTime) → Prop
  | _,[] => True
  | self,group::groups => SafeBlocks fromTimestampMillis group.2 self group.1 ∧
      SafeGroups fromTimestampMillis (self.dumpGroup fromTimestampMillis group) groups

instance decidableSafeBlocks : ∀ (self : Indexer) (blocks : List Block),
    Decidable (SafeBlocks fromTimestampMillis now self blocks)
  | _,[] => inferInstanceAs (Decidable True)
  | self,block::blocks =>
      have := decidableSafeBlocks (self.handleBlock block) blocks
      inferInstanceAs (Decidable (_ ∧ _))

instance decidableSafeGroups : ∀ (self : Indexer) (groups : List (List Block × DateTime)),
    Decidable (SafeGroups fromTimestampMillis self groups)
  | _,[] => inferInstanceAs (Decidable True)
  | self,group::groups =>
      have := decidableSafeGroups (self.dumpGroup fromTimestampMillis group) groups
      inferInstanceAs (Decidable (_ ∧ _))

/-- A dump after each block. -/
def dumpEach (self : Indexer) (single : Block × DateTime) : Indexer :=
  self.dumpGroup fromTimestampMillis ([single.1],single.2)

/-- What waits would be accepted as a whole. -/
structure Waiting (indexer : Indexer) : Prop where
  admits : indexer.handlerStore.Admits fromTimestampMillis now indexer.db
  timely : Timely fromTimestampMillis indexer.handlerStore
  states : ∀ name blockHash state,
    SqlUpdate.contractState name blockHash state∈indexer.handlerStore.sqlUpdates →
      ∃ block ∈ indexer.handlerStore.blocks,blockHash=block.hash

end Groups

section Runs
variable {fromTimestampMillis : Nat → Option DateTime} {now : DateTime} {db : Db} {block : Block}

theorem admits_default : IndexerHandlerStore.default.Admits fromTimestampMillis now db := by
  constructor <;> simp [IndexerHandlerStore.default,blockRows,stateRows,Table.Fresh]

theorem written_default : IndexerHandlerStore.default.written fromTimestampMillis now db=db := by
  have rows : ∀ {κ ρ : Type} [DecidableEq κ] (table : Table κ ρ),table.insertIgnoring []=table := by
    intro κ ρ _ table
    funext key
    exact Option.or_none
  unfold IndexerHandlerStore.written
  rw [show IndexerHandlerStore.default.sqlUpdates=[] from rfl,Db.apply_nil]
  simp only [IndexerHandlerStore.inserted,IndexerHandlerStore.default,blockRows,stateRows,
    List.map_nil,List.append_nil,rows]
  rfl

/-- A contract that a block registers gets all its fields again. -/
theorem overwrites_ofBlock (hc : Complete block)
    (hr : NodeState.Rewritten block.toBlockUnderConstruction.contractsDiff) :
    ∀ name ∈ (ofBlock block).contracts,Overwrites (ofBlock block).sqlUpdates name := by
  intro name hm
  obtain ⟨⟨key,registered⟩,listed,same⟩ := of_ofBlock.contracts name hm
  obtain ⟨named,states,programIds,windows⟩ :=
    hr key registered (Std.ExtTreeMap.mem_toList_iff_getElem?_eq_some.mp listed)
  obtain rfl : key=name := named.symm.trans same
  have noted : ∀ {α : Type} {m : Std.ExtTreeMap ContractName α},m.contains key=true →
      ∃ value,(key,value)∈m.toList := by
    intro α m hm
    rw [Std.ExtTreeMap.contains_eq_isSome_getElem?] at hm
    obtain ⟨value,hv⟩ := Option.isSome_iff_exists.mp hm
    exact ⟨value,Std.ExtTreeMap.mem_toList_iff_getElem?_eq_some.mpr hv⟩
  obtain ⟨state,hs⟩ := noted states
  obtain ⟨program,hp⟩ := noted programIds
  obtain ⟨window,hw⟩ := noted windows
  refine ⟨⟨state,hc.mem_sqlUpdates ?_⟩,⟨program,hc.mem_sqlUpdates ?_⟩,window,
    hc.mem_sqlUpdates ?_⟩
  · refine List.mem_append_left _ (List.mem_append_left _ (List.mem_flatMap.mpr ⟨_,hs,?_⟩))
    simp
  · exact List.mem_append_left _ (List.mem_append_right _ (List.mem_map_of_mem hp))
  · exact List.mem_append_right _ (List.mem_map_of_mem hw)

variable {self : Indexer}

theorem joins_ofBlock (hw : Waiting fromTimestampMillis now self)
    (hs : Safe fromTimestampMillis now self block)
    (hr : NodeState.Rewritten block.toBlockUnderConstruction.contractsDiff) :
    Joins self.handlerStore (ofBlock block) self.db
      (self.handlerStore.written fromTimestampMillis now self.db) := by
  refine ⟨hs.compatible,?_,overwrites_ofBlock hs.complete hr⟩
  intro name blockHash state hu hm
  obtain ⟨row,listed,same⟩ := List.mem_map.mp hm
  obtain ⟨found,hf,rfl⟩ := List.mem_map.mp listed
  have own : found.blockHash=block.hash := of_ofBlock.states found hf
  obtain ⟨earlier,waits,rfl⟩ := hw.states name blockHash state hu
  have hash : earlier.hash=block.hash := by
    rw [← own]
    exact (congrArg Prod.snd same).symm
  -- the block of the update is in the table already, so that the new one cannot have its hash
  have taken : ((self.handlerStore.written fromTimestampMillis now self.db).blocks
      block.hash).isSome=true := by
    rw [← hash]
    exact Table.isSome_insertIgnoring.mpr (Or.inr (List.mem_map.mpr
      ⟨_,List.mem_map_of_mem waits,rfl⟩))
  have fresh := hs.admits.blocks.2.1.2 (blockRow fromTimestampMillis now block)
    (by rw [blockRows,blocks_ofBlock]; exact List.mem_singleton_self _)
  rw [← Option.not_isSome] at fresh
  simp [blockRow,taken] at fresh

/-- A safe block can wait with the others. -/
theorem waiting_handleBlock (hw : Waiting fromTimestampMillis now self)
    (hs : Safe fromTimestampMillis now self block)
    (hr : NodeState.Rewritten block.toBlockUnderConstruction.contractsDiff) :
    Waiting fromTimestampMillis now (self.handleBlock block) ∧
      (self.handleBlock block).handlerStore.written fromTimestampMillis now self.db=
        (ofBlock block).written fromTimestampMillis now
          (self.handlerStore.written fromTimestampMillis now self.db) := by
  have joins := joins_ofBlock hw hs hr
  have handled : self.handleBlock block=⟨self.db,self.handlerStore.append (ofBlock block)⟩ := by
    unfold Indexer.handleBlock
    rw [handleProcessedBlock_append]
  rw [handled]
  have blocks : (self.handlerStore.append (ofBlock block)).blocks=
      self.handlerStore.blocks++[block] := congrArg _ blocks_ofBlock
  refine ⟨⟨admits_append joins hw.admits hs.admits,?_,?_⟩,written_append joins⟩
  · intro found hm
    rw [blocks] at hm
    obtain hm|hm := List.mem_append.mp hm
    · exact hw.timely found hm
    · obtain rfl := List.mem_singleton.mp hm
      exact hs.timestamp
  · intro name blockHash state hu
    show ∃ found ∈ (self.handlerStore.append (ofBlock block)).blocks,_
    rw [blocks]
    obtain hu|hu := List.mem_append.mp hu
    · obtain ⟨found,hf,same⟩ := hw.states name blockHash state hu
      exact ⟨found,List.mem_append_left _ hf,same⟩
    · exact ⟨block,List.mem_append_right _ (List.mem_singleton_self _),
        of_ofBlock.updates name blockHash state hu⟩

/-- The block by itself, whenever it is dumped. -/
theorem dumpEach_of_safe (hs : Safe fromTimestampMillis now self block) (other : DateTime) :
    dumpEach fromTimestampMillis
        ⟨self.handlerStore.written fromTimestampMillis now self.db,.default⟩ (block,other)=
      ⟨(ofBlock block).written fromTimestampMillis now
        (self.handlerStore.written fromTimestampMillis now self.db),.default⟩ := by
  have timely : Timely fromTimestampMillis (ofBlock block) := by
    intro found hm
    rw [blocks_ofBlock] at hm
    obtain rfl := List.mem_singleton.mp hm
    exact hs.timestamp
  have waits : (ofBlock block).blocks≠[] := by simp [blocks_ofBlock]
  have dumped := dumpStoreToDb_of_admits waits (timely.admits other hs.admits)
  rw [timely.written other now] at dumped
  unfold dumpEach Indexer.dumpGroup
  rw [List.foldl_cons,List.foldl_nil,Indexer.handleBlock,handleProcessedBlock_append,
    default_append]
  exact dumped

theorem blocks_foldl_handleBlock {blocks : List Block} :
    (blocks.foldl Indexer.handleBlock self).handlerStore.blocks=
      self.handlerStore.blocks++blocks := by
  induction blocks generalizing self with
  | nil => exact (List.append_nil _).symm
  | cons block blocks ih =>
    have first : (self.handleBlock block).handlerStore.blocks=
        self.handlerStore.blocks++[block] := by
      unfold Indexer.handleBlock
      rw [handleProcessedBlock_append]
      exact congrArg (self.handlerStore.blocks++·) blocks_ofBlock
    rw [List.foldl_cons,ih,first,List.append_assoc]
    rfl

/-- What waits after some safe blocks is what the tables would hold after a dump of each. -/
theorem foldl_handleBlock {blocks : List Block} {singles : List (Block × DateTime)}
    (hw : Waiting fromTimestampMillis now self) (hb : singles.map Prod.fst=blocks)
    (hs : SafeBlocks fromTimestampMillis now self blocks)
    (hr : ∀ block ∈ blocks,NodeState.Rewritten block.toBlockUnderConstruction.contractsDiff) :
    Waiting fromTimestampMillis now (blocks.foldl Indexer.handleBlock self) ∧
      singles.foldl (dumpEach fromTimestampMillis)
          ⟨self.handlerStore.written fromTimestampMillis now self.db,.default⟩=
        ⟨(blocks.foldl Indexer.handleBlock self).handlerStore.written fromTimestampMillis now
          (blocks.foldl Indexer.handleBlock self).db,.default⟩ := by
  induction blocks generalizing self singles with
  | nil =>
    obtain rfl := List.map_eq_nil_iff.mp hb
    exact ⟨hw,rfl⟩
  | cons block blocks ih =>
    obtain ⟨single,rest,rfl,rfl,tail⟩ := List.map_eq_cons_iff.mp hb
    obtain ⟨safe,later⟩ := hs
    obtain ⟨waiting,written⟩ := waiting_handleBlock hw safe (hr _ List.mem_cons_self)
    have next := ih waiting tail later fun b hm => hr b (List.mem_cons_of_mem _ hm)
    rw [List.foldl_cons,List.foldl_cons,dumpEach_of_safe safe single.2,← written]
    exact next

/-- A group of safe blocks leaves the tables as they are after a dump of each block. -/
theorem dumpGroup_of_safe {group : List Block × DateTime} {singles : List (Block × DateTime)}
    (hb : singles.map Prod.fst=group.1) (hs : SafeBlocks fromTimestampMillis group.2 ⟨db,.default⟩ group.1)
    (hr : ∀ block ∈ group.1,NodeState.Rewritten block.toBlockUnderConstruction.contractsDiff) :
    ∃ next : Db,Indexer.dumpGroup fromTimestampMillis ⟨db,.default⟩ group=⟨next,.default⟩ ∧
      singles.foldl (dumpEach fromTimestampMillis) ⟨db,.default⟩=⟨next,.default⟩ := by
  have start : Waiting fromTimestampMillis group.2 ⟨db,.default⟩ := by
    refine ⟨admits_default,?_,?_⟩
    · intro block hm
      cases hm
    · intro name blockHash state hu
      cases hu
  obtain ⟨waiting,each⟩ := foldl_handleBlock start hb hs hr
  rw [written_default] at each
  refine ⟨_,?_,each⟩
  unfold Indexer.dumpGroup
  have blocks := @blocks_foldl_handleBlock ⟨db,.default⟩ group.1
  rcases hg : group.1 with _ | ⟨block,rest⟩
  · rw [List.foldl_nil,written_default]
    rfl
  · rw [hg] at waiting blocks
    exact dumpStoreToDb_of_admits (blocks.trans_ne (List.cons_ne_nil _ _)) waiting.admits

/-- For all blocks of a node, and however they are grouped into dumps, the tables are the same
as after a dump of each block if all blocks are safe. -/
theorem dumpGroups_eq (env : Environment) (signedBlocks : List SignedBlock)
    (groups : List (List Block × DateTime)) (singles : List (Block × DateTime))
    (hg : groups.flatMap Prod.fst=NodeState.emitted env NodeStateStore.default signedBlocks)
    (hb : singles.map Prod.fst=NodeState.emitted env NodeStateStore.default signedBlocks)
    (hs : SafeGroups fromTimestampMillis ⟨db,.default⟩ groups) :
    (groups.foldl (Indexer.dumpGroup fromTimestampMillis) ⟨db,.default⟩).db=
      (singles.foldl (dumpEach fromTimestampMillis) ⟨db,.default⟩).db := by
  have rewritten : ∀ block ∈ groups.flatMap Prod.fst,
      NodeState.Rewritten block.toBlockUnderConstruction.contractsDiff := by
    intro block hm
    rw [hg] at hm
    exact NodeState.rewritten_of_mem_emitted hm
  rw [← hg] at hb
  clear hg
  induction groups generalizing db singles with
  | nil =>
    obtain rfl := List.map_eq_nil_iff.mp hb
    rfl
  | cons group groups ih =>
    rw [List.flatMap_cons] at hb rewritten
    obtain ⟨first,rest,rfl,hf,hl⟩ := List.map_eq_append_iff.mp hb
    obtain ⟨next,grouped,each⟩ := dumpGroup_of_safe hf hs.1
      fun block hm => rewritten block (List.mem_append_left _ hm)
    have later := hs.2
    rw [grouped] at later
    rw [List.foldl_cons,List.foldl_append,grouped,each]
    exact ih rest hl later fun block hm => rewritten block (List.mem_append_right _ hm)

end Runs

/-- However the blocks of a node are grouped into dumps, the tables are the same as after a dump
of each block. -/
def Transparent (env : Environment) (fromTimestampMillis : Nat → Option DateTime) : Prop :=
  ∀ (db : Db) (signedBlocks : List SignedBlock) (groups : List (List Block × DateTime))
    (singles : List (Block × DateTime)),
    groups.flatMap Prod.fst=NodeState.emitted env NodeStateStore.default signedBlocks →
    singles.map Prod.fst=NodeState.emitted env NodeStateStore.default signedBlocks →
    (groups.foldl (Indexer.dumpGroup fromTimestampMillis) ⟨db,.default⟩).db=
      (singles.foldl (dumpEach fromTimestampMillis) ⟨db,.default⟩).db

namespace Versions

open Bytes

def tx : BlobTransaction := ⟨"a",[]⟩

def txDigest : H256 :=
  ByteVec.ofNat 32 0x80084bf2fba02475726feb2cab2d8215eab14bc6bdd8bfb2c8151257032ecd8b

def firstDigest : H256 :=
  ByteVec.ofNat 32 0x152058c4aded5c45e6c5b36c46c22faa4172e1829870023dacbcce408221b1c4

def signedBlock (slot : UInt64) (parentHash : ConsensusProposalHash) (version : UInt32) :
    SignedBlock :=
  ⟨[([1],[⟨none,[⟨version,.blob tx⟩]⟩])],⟨slot,parentHash,[],[],0⟩,default⟩

/-- The same transaction comes first in the lane in both blocks. -/
def signedBlocks (version : UInt32) : List SignedBlock :=
  [signedBlock 1 "" 1,signedBlock 2 (hex firstDigest.toList) version]

/-- SHA3-256 at the byte strings that the blocks lead to. -/
def env : Environment :=
  let digests := [(utf8 "a",txDigest),((signedBlock 1 "" 1).consensusProposal.preimage,firstDigest),
    ((signedBlock 2 (hex firstDigest.toList) 1).consensusProposal.preimage,
      ByteVec.ofNat 32 0xb9142c362bd10cf7741ec822e50d57b93ea4938f9f02f7cf61f5280f2599af6f)]
  { NodeState.TwoContracts.env with sha3 := ByteVec.lookup digests }

def blocks (version : UInt32) : List Block :=
  NodeState.emitted env NodeStateStore.default (signedBlocks version)

def groups (version : UInt32) : List (List Block × DateTime) := [(blocks version,0)]

def singles (version : UInt32) : List (Block × DateTime) := (blocks version).map fun b => (b,0)

def fromTimestampMillis (ms : Nat) : Option DateTime := some ms

/-- The version of the transaction in the tables. -/
def stored (db : Db) : Option Nat :=
  (db.transactions ⟨hex [1],hex txDigest.toList⟩).map TransactionRow.version

theorem stored_dumps :
    stored ((groups 2).foldl (Indexer.dumpGroup fromTimestampMillis) ⟨.empty,.default⟩).db=
      some 2 ∧
    stored ((singles 2).foldl (dumpEach fromTimestampMillis) ⟨.empty,.default⟩).db=some 1 := by
  decide +kernel

theorem safeGroups_same : SafeGroups fromTimestampMillis ⟨.empty,.default⟩ (groups 1) := by
  decide +kernel

theorem flatMap_groups (version : UInt32) : (groups version).flatMap Prod.fst=blocks version := by
  simp [groups]

theorem map_singles (version : UInt32) : (singles version).map Prod.fst=blocks version := by
  simp [singles,Function.comp_def]

end Versions

open Versions in
theorem dumpGroups_same :
    ((groups 1).foldl (Indexer.dumpGroup fromTimestampMillis) ⟨.empty,.default⟩).db=
      ((singles 1).foldl (dumpEach fromTimestampMillis) ⟨.empty,.default⟩).db :=
  dumpGroups_eq env (signedBlocks 1) (groups 1) (singles 1) (flatMap_groups 1) (map_singles 1)
    safeGroups_same

open Versions in
/-- The store keeps the last version of a transaction, and the upsert the first one. -/
theorem not_transparent : ¬Transparent env fromTimestampMillis := by
  intro h
  have same := h .empty (signedBlocks 2) (groups 2) (singles 2) (flatMap_groups 2) (map_singles 2)
  obtain ⟨grouped,each⟩ := stored_dumps
  rw [same,each] at grouped
  simp at grouped

end TruthSeeker.Indexing
