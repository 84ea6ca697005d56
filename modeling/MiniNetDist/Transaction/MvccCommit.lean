import MiniNetDist.Transaction.MvccStore

/-! Commits of the multi-version store in every reachable state. A commit that
returns true is read back in full exactly when every key had room for its record
and every write got a slot, or found its own value on top of the chain already. -/

namespace MiniNetDist.Transaction.Mvcc

open Library

variable {store : MVCCStore} {txn : MVCCTransaction} {sys : MVCCSystem} {now after : Int}
  {key : CString} {writes : List (CString × CString)}

/-- What every reachable store has: bounded tables, keys that fit their buffers,
and copies of transactions as they were begun. -/
structure StoreFormed (store : MVCCStore) : Prop where
  keys : ∀ key ∈ store.keys, key.length < MVCC_KEY_LEN
  records : store.records.length ≤ MVCC_MAX_KEYS
  active : store.activeTxns.length ≤ MVCC_MAX_TXN
  copies : ∀ other ∈ store.activeTxns, other.readKeys = [] ∧ other.writes = []
  values : ∀ rec ∈ store.records, ∀ version ∈ rec.chain, version.value.length < MVCC_VAL_LEN

/-- What every transaction has: one value that fits its buffer for each key written,
and a snapshot taken before now. -/
structure TxnFormed (now : Int) (txn : MVCCTransaction) : Prop where
  distinct : (txn.writes.map Prod.fst).Nodup
  values : ∀ write ∈ txn.writes, write.2.length < MVCC_VAL_LEN
  started : txn.readTs < now

structure Formed (sys : MVCCSystem) : Prop where
  store : StoreFormed sys.store
  txns : ∀ txn ∈ sys.txns, TxnFormed sys.store.globalTs txn

theorem TxnFormed.later (formed : TxnFormed now txn) (passed : now ≤ after) : TxnFormed after txn :=
  ⟨formed.distinct, formed.values, Int.lt_of_lt_of_le formed.started passed⟩

theorem strncpy_value (value : CString) : (strncpy value (MVCC_VAL_LEN - 1)).length < MVCC_VAL_LEN :=
  Nat.lt_succ_of_le (length_strncpy_le value (MVCC_VAL_LEN - 1))

theorem mvccPrepareWrite_formed (formed : TxnFormed now txn) (key value : CString) :
    TxnFormed now (mvccPrepareWrite txn key value).1 := by
  unfold mvccPrepareWrite
  split_ifs with idle full overwrites
  · exact formed
  · exact formed
  · refine ⟨?_, ?_, formed.started⟩
    · have same : ∀ write : CString × CString,
          (write.1, strncpy value (MVCC_VAL_LEN - 1)).1 = write.1 := fun _ => rfl
      simpa only [Table.map_update same] using formed.distinct
    · intro write present
      rcases Table.mem_update_cases present with old | ⟨old, -, rfl⟩
      · exact formed.values write old
      · exact strncpy_value value
  · refine ⟨?_, ?_, formed.started⟩
    · have absent : key ∉ txn.writes.map Prod.fst := fun present =>
        overwrites (Table.find_isSome_iff.mpr present)
      simp only [List.map_append, List.map_cons, List.map_nil]
      exact List.nodup_append.mpr ⟨formed.distinct, List.nodup_singleton key, by
        intro first inside second last same
        rw [List.mem_singleton.mp last] at same
        exact absent (same ▸ inside)⟩
    · intro write present
      rcases List.mem_append.mp present with old | new
      · exact formed.values write old
      · rw [List.mem_singleton.mp new]
        exact strncpy_value value

theorem mvccSnapshotRead_formed (formed : TxnFormed now txn) (store : MVCCStore) (key : CString) :
    TxnFormed now (mvccSnapshotRead store txn key).1 := by
  unfold mvccSnapshotRead
  split
  · exact formed
  · split
    · exact formed
    · exact ⟨formed.distinct, formed.values, formed.started⟩

theorem MVCCRecord.patch_values {rec : MVCCRecord} {commitTs : Int}
    (values : ∀ version ∈ rec.chain, version.value.length < MVCC_VAL_LEN) :
    ∀ version ∈ (rec.patch commitTs).chain, version.value.length < MVCC_VAL_LEN := by
  intro version present
  cases chain : rec.chain with
  | nil => simp [MVCCRecord.patch, chain] at present
  | cons head rest =>
    rw [chain] at values
    simp only [MVCCRecord.patch, chain, List.modifyHead_cons, List.mem_cons] at present
    rcases present with rfl | older
    · exact values head List.mem_cons_self
    · exact values version (List.mem_cons_of_mem _ older)

theorem MVCCRecord.push_values {rec : MVCCRecord} {version : MVCCVersion}
    (values : ∀ version ∈ rec.chain, version.value.length < MVCC_VAL_LEN)
    (fits : version.value.length < MVCC_VAL_LEN) :
    ∀ other ∈ (rec.push version).chain, other.value.length < MVCC_VAL_LEN := by
  intro other present
  rcases List.mem_cons.mp present with rfl | older
  · exact fits
  · exact values other older

theorem mvccVersionChainAppend_values (key : CString) (version : MVCCVersion)
    (fits : version.value.length < MVCC_VAL_LEN)
    (values : ∀ rec ∈ store.records, ∀ version ∈ rec.chain, version.value.length < MVCC_VAL_LEN) :
    ∀ rec ∈ (mvccVersionChainAppend store key version).records, ∀ version ∈ rec.chain,
      version.value.length < MVCC_VAL_LEN := by
  have blank : ∀ version ∈ (mvccRecordInit key).chain, version.value.length < MVCC_VAL_LEN := by
    intro version present
    cases present
  rw [mvccVersionChainAppend_eq]
  split_ifs
  · exact values
  · intro rec present
    rcases Table.mem_update_cases present with old | ⟨old, inside, rfl⟩
    · exact values rec old
    · exact MVCCRecord.push_values (values old inside) fits
  · exact values
  · intro rec present
    rcases List.mem_append.mp present with old | new
    · exact values rec old
    · rw [List.mem_singleton.mp new]
      exact blank
  · intro rec present
    rcases List.mem_append.mp present with old | new
    · exact values rec old
    · rw [List.mem_singleton.mp new]
      exact MVCCRecord.push_values blank fits

theorem mvccInstall_formed (formed : StoreFormed store) (txn : MVCCTransaction) (write : CString × CString) :
    StoreFormed (mvccInstall txn store write) := by
  refine ⟨?_, ?_, ?_, ?_, ?_⟩
  · intro key present
    rcases mvccInstall_keys_cases txn store write with same | ⟨-, added⟩
    · exact formed.keys key (same ▸ present)
    · rw [added] at present
      rcases List.mem_append.mp present with old | new
      · exact formed.keys key old
      · rw [List.mem_singleton.mp new]
        exact Nat.lt_succ_of_le (length_strncpy_le _ _)
  · rw [← MVCCStore.length_keys]
    rcases mvccInstall_keys_cases txn store write with same | ⟨space, added⟩
    · rw [same, MVCCStore.length_keys]
      exact formed.records
    · rw [added, List.length_append, MVCCStore.length_keys]
      exact space
  · rw [mvccInstall_activeTxns]
    exact formed.active
  · rw [mvccInstall_activeTxns]
    exact formed.copies
  · have appended := mvccVersionChainAppend_values write.1
      (mvccVersionInit txn.txnId txn.commitTs write.2 .init) (strncpy_value write.2) formed.values
    intro rec present
    rcases Table.mem_update_cases present with old | ⟨old, inside, rfl⟩
    · exact appended rec old
    · exact MVCCRecord.patch_values (appended old inside)

theorem mvccInstalls_formed (formed : StoreFormed store) (txn : MVCCTransaction)
    (writes : List (CString × CString)) : StoreFormed (writes.foldl (mvccInstall txn) store) := by
  induction writes generalizing store with
  | nil => exact formed
  | cons write rest ih => exact ih (mvccInstall_formed formed txn write)

theorem StoreFormed.removeActive (formed : StoreFormed store) (txnId : Int) :
    StoreFormed (mvccRemoveActive store txnId) where
  keys := formed.keys
  records := formed.records
  active := Nat.le_trans (List.eraseP_sublist.length_le) formed.active
  copies := fun other present => formed.copies other (List.eraseP_subset present)
  values := formed.values

theorem StoreFormed.allocate (formed : StoreFormed store) : StoreFormed (mvccAllocateTs store).1 :=
  ⟨formed.keys, formed.records, formed.active, formed.copies, formed.values⟩

theorem mvccTxnBegin_formed (formed : StoreFormed store) (txnId : Int) :
    StoreFormed (mvccTxnBegin store txnId).1 := by
  unfold mvccTxnBegin
  split_ifs with full
  · exact formed
  · refine ⟨formed.keys, formed.records, ?_, ?_, formed.values⟩
    · simp only [mvccAllocateTs, List.length_append, List.length_singleton]
      omega
    · intro other present
      rcases List.mem_append.mp present with old | new
      · exact formed.copies other old
      · rw [List.mem_singleton.mp new]
        exact ⟨rfl, rfl⟩

/-- The store after a commit that was let through. -/
def mvccInstallAll (store : MVCCStore) (txn : MVCCTransaction) : MVCCStore :=
  mvccRemoveActive (txn.writes.foldl (mvccInstall { txn with commitTs := store.globalTs })
    (mvccAllocateTs store).1) txn.txnId

theorem mvccInstallAll_formed (formed : StoreFormed store) (txn : MVCCTransaction) :
    StoreFormed (mvccInstallAll store txn) :=
  (mvccInstalls_formed formed.allocate _ _).removeActive _

@[simp] theorem mvccInstallAll_globalTs : (mvccInstallAll store txn).globalTs = store.globalTs + 1 :=
  mvccInstalls_globalTs txn.writes

/-- Whether the validation passes does not depend on the clock. -/
theorem mvccTxnCommit_eq (active : txn.status = .active) :
    mvccTxnCommit store txn =
      if mvccValidateWriteSet store txn then
        (mvccInstallAll store txn,
          { txn with commitTs := store.globalTs, status := .committed }, true)
      else (mvccRemoveActive (mvccAllocateTs store).1 txn.txnId,
        { txn with commitTs := store.globalTs, status := .aborted }, false) := by
  unfold mvccTxnCommit
  rw [if_neg (not_not.mpr active)]
  rfl

theorem mvccTxnCommit_idle (idle : txn.status ≠ .active) : mvccTxnCommit store txn = (store, txn, false) := by
  unfold mvccTxnCommit
  rw [if_pos idle]

theorem mvccTxnCommit_formed (formed : StoreFormed store) (txn : MVCCTransaction) :
    StoreFormed (mvccTxnCommit store txn).1 := by
  by_cases active : txn.status = .active
  · rw [mvccTxnCommit_eq active]
    split_ifs
    · exact mvccInstallAll_formed formed txn
    · exact formed.allocate.removeActive _
  · rw [mvccTxnCommit_idle active]
    exact formed

/-- A commit changes a transaction's status and `commit_ts`, and the clock moves on. -/
theorem mvccTxnCommit_txn (store : MVCCStore) (txn : MVCCTransaction) :
    (mvccTxnCommit store txn).2.1.writes = txn.writes ∧ (mvccTxnCommit store txn).2.1.readTs = txn.readTs ∧
      (mvccTxnCommit store txn).2.1.txnId = txn.txnId ∧
      store.globalTs ≤ (mvccTxnCommit store txn).1.globalTs := by
  by_cases active : txn.status = .active
  · rw [mvccTxnCommit_eq active]
    split_ifs
    · simp only [mvccInstallAll_globalTs]
      exact ⟨trivial, trivial, trivial, by omega⟩
    · simp only [mvccRemoveActive, mvccAllocateTs]
      exact ⟨trivial, trivial, trivial, by omega⟩
  · rw [mvccTxnCommit_idle active]
    exact ⟨rfl, rfl, rfl, Int.le_refl _⟩

theorem txns_set {P : MVCCTransaction → Prop} {txns : List MVCCTransaction} {t : Nat}
    (all : ∀ txn ∈ txns, P txn) (changed : P txn) : ∀ other ∈ txns.set t txn, P other := by
  intro other present
  rcases List.mem_or_eq_of_mem_set present with old | rfl
  · exact all other old
  · exact changed

theorem mvccGcOldVersions_formed (formed : StoreFormed store) (oldestActiveTs : Int) :
    StoreFormed (mvccGcOldVersions store oldestActiveTs).1 := by
  have keys : (mvccGcOldVersions store oldestActiveTs).1.keys = store.keys := by
    simp [MVCCStore.keys, mvccGcOldVersions, MVCCRecord.discount, Function.comp_def]
  constructor
  · rw [keys]
    exact formed.keys
  · rw [← MVCCStore.length_keys, keys, MVCCStore.length_keys]
    exact formed.records
  · exact formed.active
  · exact formed.copies
  · intro rec present
    obtain ⟨old, inside, rfl⟩ := List.mem_map.mp present
    exact formed.values old inside

theorem mvccStep_formed (formed : Formed sys) (call : MVCCCall) : Formed (mvccStep sys call) := by
  cases call with
  | begin txnId =>
    refine ⟨mvccTxnBegin_formed formed.store txnId, ?_⟩
    simp only [mvccStep, mvccTxnBegin]
    split_ifs with full
    · simpa using formed.txns
    · intro txn present
      rcases List.mem_append.mp present with old | new
      · exact (formed.txns txn old).later (by simp only [mvccAllocateTs]; omega)
      · rw [Option.toList_some, List.mem_singleton] at new
        subst new
        refine ⟨List.nodup_nil, ?_, ?_⟩
        · intro write inside; cases inside
        · simp only [mvccAllocateTs]
          omega
  | prepareWrite t key value =>
    simp only [mvccStep]
    split
    · exact formed
    · rename_i txn found
      have member := formed.txns txn (List.mem_of_getElem? found)
      exact ⟨formed.store, txns_set formed.txns (mvccPrepareWrite_formed member key value)⟩
  | snapshotRead t key =>
    simp only [mvccStep]
    split
    · exact formed
    · rename_i txn found
      have member := formed.txns txn (List.mem_of_getElem? found)
      exact ⟨formed.store, txns_set formed.txns (mvccSnapshotRead_formed member sys.store key)⟩
  | commit t =>
    simp only [mvccStep]
    split
    · exact formed
    · rename_i txn found
      have member := formed.txns txn (List.mem_of_getElem? found)
      obtain ⟨writes, readTs, -, clock⟩ := mvccTxnCommit_txn sys.store txn
      refine ⟨mvccTxnCommit_formed formed.store txn, txns_set ?_ ?_⟩
      · exact fun other present => (formed.txns other present).later clock
      · constructor
        · rw [writes]; exact member.distinct
        · rw [writes]; exact member.values
        · rw [readTs]; exact Int.lt_of_lt_of_le member.started clock
  | abort t =>
    simp only [mvccStep]
    split
    · exact formed
    · rename_i txn found
      have member := formed.txns txn (List.mem_of_getElem? found)
      exact ⟨formed.store.removeActive _, txns_set formed.txns
        ⟨member.distinct, member.values, member.started⟩⟩
  | gc oldestActiveTs => exact ⟨mvccGcOldVersions_formed formed.store oldestActiveTs, formed.txns⟩

theorem mvccSystemInit_formed : Formed mvccSystemInit := by
  refine ⟨⟨?_, ?_, ?_, ?_, ?_⟩, ?_⟩
  · intro key present; cases present
  · exact Nat.zero_le _
  · exact Nat.zero_le _
  · intro other present; cases present
  · intro rec present; cases present
  · intro txn present; cases present

theorem formed_of_reaches {guard : MVCCSystem → MVCCCall → Prop}
    (reached : Reaches mvccStep guard mvccSystemInit sys) : Formed sys :=
  reached.invariant mvccSystemInit_formed fun _ call formed _ => mvccStep_formed formed call

/-- The value a reader at `readTs` finds in the chains. -/
def mvccReads (store : MVCCStore) (key : CString) (readTs : Int) : Option CString :=
  (mvccVisibleVersion store key readTs).map (·.value)

theorem mem_mvccChain {version : MVCCVersion} (present : version ∈ mvccChain store key) :
    ∃ rec ∈ store.records, version ∈ rec.chain := by
  unfold mvccChain at present
  cases found : Table.find MVCCRecord.key store.records key with
  | none => simp [found] at present
  | some rec =>
    rw [found] at present
    exact ⟨rec, List.mem_of_find?_eq_some found, present⟩

/-- A read of a key the transaction has not written reads the chains. -/
theorem mvccSnapshotRead_unwritten (formed : StoreFormed store) (unwritten : key ∉ txn.writes.map Prod.fst) :
    (mvccSnapshotRead store txn key).2 = mvccReads store key txn.readTs := by
  unfold mvccSnapshotRead mvccReads
  rw [Table.find_eq_none_iff.mpr unwritten]
  cases found : mvccVisibleVersion store key txn.readTs with
  | none => rfl
  | some version =>
    obtain ⟨rec, listed, inside⟩ := mem_mvccChain (List.mem_of_find?_eq_some found)
    have fits := formed.values rec listed version inside
    exact congrArg some (strncpy_of_lt fits)

/-- A key the transaction is about to write has a version newer than its snapshot. -/
def WriteConflict (store : MVCCStore) (txn : MVCCTransaction) : Prop :=
  ∃ write ∈ txn.writes, ∃ head, mvccVersionChainHead store write.1 = some head ∧ txn.readTs < head.commitTs

theorem mvccValidateWriteSet_eq_false_iff :
    mvccValidateWriteSet store txn = false ↔ WriteConflict store txn := by
  unfold mvccValidateWriteSet WriteConflict
  rw [List.all_eq_false]
  constructor
  · rintro ⟨write, present, changed⟩
    refine ⟨write, present, ?_⟩
    unfold mvccUnchanged at changed
    cases head : mvccVersionChainHead store write.1 with
    | none => simp [head] at changed
    | some version => exact ⟨version, rfl, by simpa [head] using changed⟩
  · rintro ⟨write, present, version, head, newer⟩
    refine ⟨write, present, ?_⟩
    simpa [mvccUnchanged, head] using newer

/-- The copies of other transactions are taken when they begin, so the search for
crossing reads never finds one. -/
theorem mvccSerializableSiValidation_eq (formed : StoreFormed store) (txn : MVCCTransaction) :
    mvccSerializableSiValidation store txn = mvccValidateWriteSet store txn := by
  have blind : (store.activeTxns.all fun other => other.txnId = txn.txnId || other.status = .aborted ||
      !(mvccReadsFrom other txn && mvccReadsFrom txn other)) = true := by
    rw [List.all_eq_true]
    intro other present
    obtain ⟨reads, -⟩ := formed.copies other present
    simp [mvccReadsFrom, reads]
  unfold mvccSerializableSiValidation
  rw [blind, Bool.and_true]

/-- Two active transactions, each of which has read a key the other has prepared to write. -/
def WriteSkew (sys : MVCCSystem) (i j : Nat) : Prop :=
  ∃ first second, sys.txns[i]? = some first ∧ sys.txns[j]? = some second ∧ i ≠ j ∧
    first.status = .active ∧ second.status = .active ∧
    (∃ key, (i, key) ∈ sys.reads ∧ key ∈ second.writes.map Prod.fst) ∧
    (∃ key, (j, key) ∈ sys.reads ∧ key ∈ first.writes.map Prod.fst)

/-- Of two transactions in write skew, each validated at some point from then on while
still active, one is refused exactly when one of them has a write conflict at its own validation. -/
theorem skewCaught_iff (sys : MVCCSystem) (reached : Reaches mvccStep Always mvccSystemInit sys) (i j : Nat)
    (_skew : WriteSkew sys i j) (one two : MVCCSystem) (toOne : Reaches mvccStep Always sys one)
    (toTwo : Reaches mvccStep Always sys two) (first second : MVCCTransaction)
    (_validated : one.txns[i]? = some first ∧ first.status = .active)
    (_validatedToo : two.txns[j]? = some second ∧ second.status = .active) :
    (mvccSerializableSiValidation one.store first = false ∨
        mvccSerializableSiValidation two.store second = false) ↔
      WriteConflict one.store first ∨ WriteConflict two.store second := by
  have formedOne := formed_of_reaches (reached.trans toOne)
  have formedTwo := formed_of_reaches (reached.trans toTwo)
  rw [mvccSerializableSiValidation_eq formedOne.store, mvccSerializableSiValidation_eq formedTwo.store,
    mvccValidateWriteSet_eq_false_iff, mvccValidateWriteSet_eq_false_iff]

/-- With keys a and b committed, one transaction reads a and writes b, the other the
other way round. -/
def crossing : MVCCSystem :=
  [.begin 0, .prepareWrite 0 [97] [49], .prepareWrite 0 [98] [49], .commit 0, .begin 1, .begin 2,
    .snapshotRead 1 [97], .snapshotRead 2 [98], .prepareWrite 1 [98] [50], .prepareWrite 2 [97] [50]].foldl
      mvccStep mvccSystemInit

theorem crossing_skewed : WriteSkew crossing 1 2 :=
  ⟨_, _, rfl, rfl, by decide, rfl, rfl, ⟨[97], by decide, by decide⟩, [98], by decide, by decide⟩

/-- A third transaction commits b before the two are validated. -/
def overtaken : MVCCSystem :=
  [.begin 3, .prepareWrite 3 [98] [51], .commit 3].foldl mvccStep crossing

theorem skewCaught_overtaken : ∃ first second, overtaken.txns[1]? = some first ∧
    overtaken.txns[2]? = some second ∧ (mvccSerializableSiValidation overtaken.store first = false ∨
      mvccSerializableSiValidation overtaken.store second = false) := by
  refine ⟨_, _, rfl, rfl, ?_⟩
  apply (skewCaught_iff crossing (.ofFold _) 1 2 crossing_skewed overtaken overtaken (.ofFold _) (.ofFold _)
    _ _ ⟨rfl, rfl⟩ ⟨rfl, rfl⟩).mpr
  exact .inl ⟨([98], [50]), by decide, ⟨3, 6, [51], .committed⟩, by decide, by decide⟩

theorem crossing_uncaught : ¬ ∀ sys, Reaches mvccStep Always mvccSystemInit sys → ∀ i j, WriteSkew sys i j →
    ∀ first second, sys.txns[i]? = some first → sys.txns[j]? = some second →
      mvccSerializableSiValidation sys.store first = false ∨
        mvccSerializableSiValidation sys.store second = false := by
  intro caught
  have refused := caught crossing (.ofFold _) 1 2 crossing_skewed _ _ rfl rfl
  revert refused
  decide

end MiniNetDist.Transaction.Mvcc
