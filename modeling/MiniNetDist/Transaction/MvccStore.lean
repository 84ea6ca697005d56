import MiniNetDist.Library.Run
import MiniNetDist.Transaction.Mvcc

/-! What one pass of the commit loop does to the chains. A short key with a record,
or with room for one, gets a version while the version array has room; once it is
full, the pass changes the version that was committed last. -/

namespace MiniNetDist.Transaction.Mvcc

open Library

variable {store : MVCCStore} {txn : MVCCTransaction} {key other : CString} {version : MVCCVersion}
  {write : CString × CString}

def MVCCStore.keys (store : MVCCStore) : List CString := store.records.map MVCCRecord.key

/-- The key has a record or can get one. -/
def HasRoom (store : MVCCStore) (key : CString) : Prop := Table.HasRoom MVCC_MAX_KEYS store.keys key

theorem MVCCStore.length_keys : store.keys.length = store.records.length := List.length_map _

theorem mvccChain_absent (absent : key ∉ store.keys) : mvccChain store key = [] := by
  rw [mvccChain, Table.find_eq_none_iff.mpr absent]
  rfl

theorem MVCCRecord.push_key (version : MVCCVersion) (rec : MVCCRecord) : (rec.push version).key = rec.key := rfl

theorem MVCCRecord.patch_key (commitTs : Int) (rec : MVCCRecord) : (rec.patch commitTs).key = rec.key := rfl

theorem mvccRecordInit_key (short : key.length < MVCC_KEY_LEN) : (mvccRecordInit key).key = key :=
  strncpy_of_lt short

/-- The records after an append: the record found or created, with the version on
top if there is a slot for it. -/
theorem mvccVersionChainAppend_eq (store : MVCCStore) (key : CString) (version : MVCCVersion) :
    mvccVersionChainAppend store key version =
      if key ∈ store.keys then
        if store.versionCount ≥ MVCC_MAX_VERSIONS then store
        else { store with
          records := Table.update MVCCRecord.key store.records key (·.push version)
          versionCount := store.versionCount + 1 }
      else if store.records.length ≥ MVCC_MAX_KEYS then store
      else if store.versionCount ≥ MVCC_MAX_VERSIONS then
        { store with records := store.records ++ [mvccRecordInit key] }
      else { store with
        records := store.records ++ [(mvccRecordInit key).push version]
        versionCount := store.versionCount + 1 } := by
  unfold mvccVersionChainAppend mvccFindOrCreateRecord Table.update
  cases found : Table.position MVCCRecord.key store.records key with
  | some idx =>
    have present : key ∈ store.keys := Table.position_isSome_iff.mp (by rw [found]; rfl)
    rw [if_pos present]
  | none =>
    have absent : key ∉ store.keys := by
      rw [MVCCStore.keys, ← Table.position_isSome_iff, found]
      exact Bool.false_ne_true
    rw [if_neg absent]
    split_ifs
    · rfl
    · dsimp only
      rename_i full
      rw [if_pos full]
    · dsimp only
      rename_i slots
      rw [if_neg slots, List.modify_eq_take_cons_drop (by simp)]
      simp

/-- A record created for a new key is the one found under it. -/
theorem mvccChain_created (absent : key ∉ store.keys) {rec : MVCCRecord} (named : rec.key = key)
    (versionCount : Nat) :
    mvccChain { store with records := store.records ++ [rec], versionCount } other =
      if other = key then rec.chain else mvccChain store other := by
  have missing : Table.find MVCCRecord.key store.records key = none := Table.find_eq_none_iff.mpr absent
  unfold mvccChain
  rw [Table.find_append, named]
  by_cases same : key = other
  · subst same
    simp [missing]
  · simp [same, Ne.symm same]

theorem mvccChain_append (short : key.length < MVCC_KEY_LEN) (room : HasRoom store key) :
    mvccChain (mvccVersionChainAppend store key version) other =
      if other = key ∧ store.versionCount < MVCC_MAX_VERSIONS then version :: mvccChain store key
      else mvccChain store other := by
  have named := mvccRecordInit_key short
  rw [mvccVersionChainAppend_eq]
  by_cases present : key ∈ store.keys
  · rw [if_pos present]
    split_ifs with full applies applies
    · exact absurd applies.2 (Nat.not_lt.mpr full)
    · rfl
    · obtain ⟨rfl, -⟩ := applies
      obtain ⟨rec, found⟩ := Option.isSome_iff_exists.mp (Table.find_isSome_iff.mpr present)
      simp only [mvccChain]
      rw [Table.find_update (MVCCRecord.push_key version), if_pos rfl, found]
      rfl
    · have different : other ≠ key := fun same => applies ⟨same, Nat.not_le.mp full⟩
      simp only [mvccChain]
      rw [Table.find_update (MVCCRecord.push_key version), if_neg different]
  · have space : store.records.length < MVCC_MAX_KEYS := by
      rw [← MVCCStore.length_keys]
      exact room.resolve_left present
    rw [if_neg present, if_neg (Nat.not_le.mpr space)]
    split_ifs with full applies applies
    · exact absurd applies.2 (Nat.not_lt.mpr full)
    · rw [mvccChain_created present named]
      split_ifs with same
      · rw [same, mvccChain_absent present]
        rfl
      · rfl
    · rw [mvccChain_created present ((MVCCRecord.push_key version _).trans named), if_pos applies.1,
        mvccChain_absent present]
      rfl
    · have different : other ≠ key := fun same => applies ⟨same, Nat.not_le.mp full⟩
      rw [mvccChain_created present ((MVCCRecord.push_key version _).trans named), if_neg different]

theorem mvccChain_patch (store : MVCCStore) (key other : CString) (commitTs : Int) :
    mvccChain { store with
        records := Table.update MVCCRecord.key store.records key (·.patch commitTs) } other =
      if other = key then (mvccChain store key).modifyHead (·.commit commitTs) else mvccChain store other := by
  simp only [mvccChain]
  rw [Table.find_update (MVCCRecord.patch_key commitTs)]
  split_ifs
  · cases Table.find MVCCRecord.key store.records key <;> rfl
  · rfl

/-- The version a commit means to install. -/
def MVCCTransaction.installs (txn : MVCCTransaction) (value : CString) : MVCCVersion :=
  ⟨txn.txnId, txn.commitTs, value, .committed⟩

/-- The chain of the written key after one pass. -/
def mvccWritten (txn : MVCCTransaction) (store : MVCCStore) (write : CString × CString) : List MVCCVersion :=
  if store.versionCount < MVCC_MAX_VERSIONS then txn.installs write.2 :: mvccChain store write.1
  else (mvccChain store write.1).modifyHead (·.commit txn.commitTs)

theorem mvccChain_install (short : write.1.length < MVCC_KEY_LEN) (fits : write.2.length < MVCC_VAL_LEN)
    (room : HasRoom store write.1) :
    mvccChain (mvccInstall txn store write) other =
      if other = write.1 then mvccWritten txn store write else mvccChain store other := by
  unfold mvccInstall
  dsimp only
  rw [mvccChain_patch, mvccChain_append short room, mvccChain_append short room]
  by_cases same : other = write.1
  · rw [if_pos same, if_pos same]
    unfold mvccWritten
    by_cases slots : store.versionCount < MVCC_MAX_VERSIONS
    · rw [if_pos ⟨rfl, slots⟩, if_pos slots]
      have whole : strncpy write.2 (MVCC_VAL_LEN - 1) = write.2 := strncpy_of_lt fits
      simp [mvccVersionInit, whole, MVCCVersion.commit, MVCCTransaction.installs]
    · rw [if_neg (fun applies => slots applies.2), if_neg slots]
  · rw [if_neg same, if_neg same, if_neg (fun applies => same applies.1)]

theorem mvccInstall_keys_eq (txn : MVCCTransaction) (store : MVCCStore) (write : CString × CString) :
    (mvccInstall txn store write).keys = (mvccVersionChainAppend store write.1
      (mvccVersionInit txn.txnId txn.commitTs write.2 .init)).keys :=
  Table.map_update (MVCCRecord.patch_key txn.commitTs)

/-- A pass keeps the keys, or adds the key as far as it fits. -/
theorem mvccInstall_keys_cases (txn : MVCCTransaction) (store : MVCCStore) (write : CString × CString) :
    (mvccInstall txn store write).keys = store.keys ∨
      (store.records.length < MVCC_MAX_KEYS ∧
        (mvccInstall txn store write).keys = store.keys ++ [strncpy write.1 (MVCC_KEY_LEN - 1)]) := by
  rw [mvccInstall_keys_eq, mvccVersionChainAppend_eq]
  split_ifs with present full table
  · exact .inl rfl
  · exact .inl (Table.map_update (MVCCRecord.push_key _))
  · exact .inl rfl
  · exact .inr ⟨Nat.not_le.mp table, by simp [MVCCStore.keys, mvccRecordInit]⟩
  · exact .inr ⟨Nat.not_le.mp table, by simp [MVCCStore.keys, mvccRecordInit, MVCCRecord.push]⟩

theorem mvccInstall_keys (txn : MVCCTransaction) (short : write.1.length < MVCC_KEY_LEN) (room : HasRoom store write.1) :
    (mvccInstall txn store write).keys = Table.enter store.keys write.1 := by
  have named := mvccRecordInit_key short
  rw [mvccInstall_keys_eq, mvccVersionChainAppend_eq, Table.enter]
  by_cases present : write.1 ∈ store.keys
  · rw [if_pos present, if_pos present]
    split_ifs
    · rfl
    · exact Table.map_update (MVCCRecord.push_key _)
  · have space : ¬ store.records.length ≥ MVCC_MAX_KEYS := by
      rw [← MVCCStore.length_keys]
      exact Nat.not_le.mpr (room.resolve_left present)
    rw [if_neg present, if_neg present, if_neg space]
    split_ifs
    · simp [MVCCStore.keys, named]
    · simp [MVCCStore.keys, named, MVCCRecord.push]

theorem mvccInstall_versionCount (room : HasRoom store write.1) :
    (mvccInstall txn store write).versionCount =
      if store.versionCount < MVCC_MAX_VERSIONS then store.versionCount + 1 else store.versionCount := by
  unfold mvccInstall
  dsimp only
  rw [mvccVersionChainAppend_eq]
  rcases room with present | space
  · rw [if_pos present]
    split_ifs <;> first | rfl | omega
  · rw [MVCCStore.length_keys] at space
    split_ifs <;> first | rfl | omega

@[simp] theorem mvccInstall_globalTs : (mvccInstall txn store write).globalTs = store.globalTs := by
  unfold mvccInstall
  dsimp only
  rw [mvccVersionChainAppend_eq]
  split_ifs <;> rfl

@[simp] theorem mvccInstall_activeTxns : (mvccInstall txn store write).activeTxns = store.activeTxns := by
  unfold mvccInstall
  dsimp only
  rw [mvccVersionChainAppend_eq]
  split_ifs <;> rfl

/-- Every key is short enough, and the records that some of them still need fit in
the table. -/
structure RoomForKeys (store : MVCCStore) (writes : List (CString × CString)) : Prop where
  short : ∀ write ∈ writes, write.1.length < MVCC_KEY_LEN
  records : Table.Room MVCC_MAX_KEYS store.keys (writes.map Prod.fst)

instance (store : MVCCStore) (writes : List (CString × CString)) : Decidable (RoomForKeys store writes) :=
  decidable_of_iff (_ ∧ _) ⟨fun both => ⟨both.1, both.2⟩, fun room => ⟨room.short, room.records⟩⟩

variable {rest writes : List (CString × CString)}

theorem roomForKeys_cons (txn : MVCCTransaction) (fresh : write.1 ∉ rest.map Prod.fst) :
    RoomForKeys store (write :: rest) ↔
      write.1.length < MVCC_KEY_LEN ∧ HasRoom store write.1 ∧
        RoomForKeys (mvccInstall txn store write) rest := by
  constructor
  · rintro ⟨short, records⟩
    rw [List.forall_mem_cons] at short
    obtain ⟨room, later⟩ := (Table.room_cons_iff fresh).mp records
    exact ⟨short.1, room, short.2, by rw [mvccInstall_keys txn short.1 room]; exact later⟩
  · rintro ⟨shortHead, room, short, records⟩
    rw [mvccInstall_keys txn shortHead room] at records
    exact ⟨List.forall_mem_cons.mpr ⟨shortHead, short⟩, (Table.room_cons_iff fresh).mpr ⟨room, records⟩⟩

/-- With room for every key and a slot for every version, each written key gets
its new version on top. -/
theorem mvccChain_installs (txn : MVCCTransaction) (room : RoomForKeys store writes)
    (distinct : (writes.map Prod.fst).Nodup) (values : ∀ write ∈ writes, write.2.length < MVCC_VAL_LEN)
    (slots : store.versionCount + writes.length ≤ MVCC_MAX_VERSIONS) (key : CString) :
    mvccChain (writes.foldl (mvccInstall txn) store) key =
      ((Table.find Prod.fst writes key).map fun write => txn.installs write.2).toList ++
        mvccChain store key := by
  induction writes generalizing store with
  | nil => rfl
  | cons write rest ih =>
    rw [List.map_cons, List.nodup_cons] at distinct
    rw [List.length_cons] at slots
    obtain ⟨short, here, later⟩ := (roomForKeys_cons txn distinct.1).mp room
    have slot : store.versionCount < MVCC_MAX_VERSIONS := by omega
    have counted : (mvccInstall txn store write).versionCount = store.versionCount + 1 := by
      rw [mvccInstall_versionCount here, if_pos slot]
    rw [List.foldl_cons, ih later distinct.2 (fun other present => values other (List.mem_cons_of_mem _ present))
      (by omega), mvccChain_install short (values write List.mem_cons_self) here, Table.find_cons]
    by_cases same : key = write.1
    · subst same
      rw [if_pos rfl, if_pos rfl, Table.find_eq_none_iff.mpr distinct.1]
      simp [mvccWritten, slot]
    · rw [if_neg same, if_neg (Ne.symm same)]

@[simp] theorem mvccInstalls_globalTs (writes : List (CString × CString)) :
    (writes.foldl (mvccInstall txn) store).globalTs = store.globalTs := by
  induction writes generalizing store with
  | nil => rfl
  | cons write rest ih => rw [List.foldl_cons, ih, mvccInstall_globalTs]

@[simp] theorem mvccInstalls_activeTxns (writes : List (CString × CString)) :
    (writes.foldl (mvccInstall txn) store).activeTxns = store.activeTxns := by
  induction writes generalizing store with
  | nil => rfl
  | cons write rest ih => rw [List.foldl_cons, ih, mvccInstall_activeTxns]

end MiniNetDist.Transaction.Mvcc
