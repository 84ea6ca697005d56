import MiniNetDist.Transaction.Occ

/-! What the operations of the manager do to the record found under a key. -/

namespace MiniNetDist.Transaction.Occ

open Library

variable {mgr : OCCManager} {txn : OCCTransaction} {key other initVal : CString} {commitTs : Int}
  {write : OCCWriteEntry} {writes : List OCCWriteEntry}

def OCCManager.keys (mgr : OCCManager) : List CString := mgr.records.map OCCRecord.key

/-- The value under a key. A key without a record reads as the empty string. -/
def occValue (mgr : OCCManager) (key : CString) : CString := ((occFindRecord mgr key).map (·.value)).getD []

theorem OCCManager.length_keys : mgr.keys.length = mgr.records.length := List.length_map _

theorem occRecordInit_key (initVal : CString) (version : Int) (short : key.length < OCC_KEY_LEN) :
    (occRecordInit key initVal version).key = key :=
  strncpy_of_lt short

theorem OCCRecord.put_key (value : CString) (commitTs : Int) (rec : OCCRecord) :
    (rec.put value commitTs).key = rec.key := rfl

/-- Everything that looking for a record, or creating it, can do. -/
theorem occEnsureRecord_cases (mgr : OCCManager) (key initVal : CString) :
    (∃ idx, key ∈ mgr.keys ∧ Table.position OCCRecord.key mgr.records key = some idx ∧
      occEnsureRecord mgr key initVal = (mgr, some idx)) ∨
    (key ∉ mgr.keys ∧ mgr.records.length ≥ OCC_MAX_KEYS ∧ occEnsureRecord mgr key initVal = (mgr, none)) ∨
    (key ∉ mgr.keys ∧ mgr.records.length < OCC_MAX_KEYS ∧ occEnsureRecord mgr key initVal =
      ({ mgr with records := mgr.records ++ [occRecordInit key initVal 0] }, some mgr.records.length)) := by
  unfold occEnsureRecord
  cases found : Table.position OCCRecord.key mgr.records key with
  | some idx =>
    have present : key ∈ mgr.keys := Table.position_isSome_iff.mp (by rw [found]; rfl)
    exact .inl ⟨idx, present, rfl, rfl⟩
  | none =>
    have absent : key ∉ mgr.keys := by
      rw [OCCManager.keys, ← Table.position_isSome_iff, found]
      exact Bool.false_ne_true
    by_cases full : mgr.records.length ≥ OCC_MAX_KEYS
    · exact .inr (.inl ⟨absent, full, if_pos full⟩)
    · exact .inr (.inr ⟨absent, Nat.not_le.mp full, if_neg full⟩)

theorem occFindRecord_absent (absent : key ∉ mgr.keys) : occFindRecord mgr key = none :=
  Table.find_eq_none_iff.mpr absent

/-- A record created for a new key is the one found under it. -/
theorem occFindRecord_created (absent : key ∉ mgr.keys) {rec : OCCRecord} (named : rec.key = key) :
    occFindRecord { mgr with records := mgr.records ++ [rec] } other =
      if other = key then some rec else occFindRecord mgr other := by
  have missing : Table.find OCCRecord.key mgr.records key = none := Table.find_eq_none_iff.mpr absent
  unfold occFindRecord
  rw [Table.find_append, named]
  by_cases same : key = other
  · subst same
    simp [missing]
  · simp [same, Ne.symm same]

/-- The record at the index is the one found afterwards. -/
theorem occEnsureRecord_found (mgr : OCCManager) (initVal : CString) (short : key.length < OCC_KEY_LEN) :
    ((occEnsureRecord mgr key initVal).2.bind fun idx => (occEnsureRecord mgr key initVal).1.records[idx]?) =
      occFindRecord (occEnsureRecord mgr key initVal).1 key := by
  rcases occEnsureRecord_cases mgr key initVal with ⟨idx, -, located, ensured⟩ | ⟨absent, -, ensured⟩ |
    ⟨absent, -, ensured⟩
  · rw [ensured]
    exact Table.getElem?_position located
  · rw [ensured]
    exact (occFindRecord_absent absent).symm
  · rw [ensured, occFindRecord_created absent (occRecordInit_key _ _ short), if_pos rfl]
    simp

theorem hasRoom_of_found {rec : OCCRecord} (found : occFindRecord (occEnsureRecord mgr key initVal).1 key = some rec) :
    Table.HasRoom OCC_MAX_KEYS mgr.keys key := by
  rcases occEnsureRecord_cases mgr key initVal with ⟨idx, present, -⟩ | ⟨absent, -, ensured⟩ | ⟨-, space, -⟩
  · exact .inl present
  · rw [ensured, occFindRecord_absent absent] at found
    cases found
  · rw [← OCCManager.length_keys] at space
    exact .inr space

/-- Some records may be new, and a changed one has a later version. -/
structure Newer (before after : OCCManager) : Prop where
  records : ∀ key rec, occFindRecord before key = some rec →
    ∃ newer, occFindRecord after key = some newer ∧ (newer = rec ∨ rec.version < newer.version)
  clock : before.globalVersion ≤ after.globalVersion

theorem Newer.refl (mgr : OCCManager) : Newer mgr mgr :=
  ⟨fun _ rec found => ⟨rec, found, .inl rfl⟩, Int.le_refl _⟩

theorem occEnsureRecord_newer (short : key.length < OCC_KEY_LEN) :
    Newer mgr (occEnsureRecord mgr key initVal).1 := by
  rcases occEnsureRecord_cases mgr key initVal with ⟨idx, -, -, ensured⟩ | ⟨-, -, ensured⟩ |
    ⟨absent, -, ensured⟩
  · rw [ensured]
    exact Newer.refl mgr
  · rw [ensured]
    exact Newer.refl mgr
  · rw [ensured]
    refine ⟨?_, Int.le_refl _⟩
    intro other rec found
    refine ⟨rec, ?_, .inl rfl⟩
    rw [occFindRecord_created absent (occRecordInit_key _ _ short)]
    have different : other ≠ key := by
      rintro rfl
      rw [occFindRecord_absent absent] at found
      cases found
    rw [if_neg different, found]

/-- Creating an empty record changes no value. -/
theorem occValue_ensure (short : key.length < OCC_KEY_LEN) :
    occValue (occEnsureRecord mgr key []).1 = occValue mgr := by
  rcases occEnsureRecord_cases mgr key [] with ⟨idx, -, -, ensured⟩ | ⟨-, -, ensured⟩ | ⟨absent, -, ensured⟩
  · rw [ensured]
  · rw [ensured]
  · funext other
    rw [ensured, occValue, occFindRecord_created absent (occRecordInit_key _ _ short)]
    split_ifs with same
    · rw [same, occValue, occFindRecord_absent absent]
      rfl
    · rfl

/-- Values fit their buffer and versions were handed out. -/
def RecordsFormed (mgr : OCCManager) : Prop :=
  ∀ key rec, occFindRecord mgr key = some rec →
    rec.value.length < OCC_VAL_LEN ∧ rec.version < mgr.globalVersion

theorem occEnsureRecord_formed (formed : RecordsFormed mgr) (started : 0 < mgr.globalVersion)
    (short : key.length < OCC_KEY_LEN) : RecordsFormed (occEnsureRecord mgr key initVal).1 := by
  rcases occEnsureRecord_cases mgr key initVal with ⟨idx, -, -, ensured⟩ | ⟨-, -, ensured⟩ |
    ⟨absent, -, ensured⟩
  · rw [ensured]
    exact formed
  · rw [ensured]
    exact formed
  · rw [ensured]
    intro other rec found
    rw [occFindRecord_created absent (occRecordInit_key _ _ short)] at found
    split_ifs at found with same
    · cases found
      exact ⟨Nat.lt_succ_of_le (length_strncpy_le _ _), started⟩
    · exact formed other rec found

/-- The record a commit means to leave behind. -/
def OCCWriteEntry.installs (write : OCCWriteEntry) (commitTs : Int) : OCCRecord :=
  ⟨write.key, write.value, commitTs, commitTs⟩

theorem OCCRecord.put_eq {rec : OCCRecord} (named : rec.key = write.key)
    (fits : write.value.length < OCC_VAL_LEN) : rec.put write.value commitTs = write.installs commitTs := by
  rw [OCCRecord.put, strncpy_of_lt fits, named]
  rfl

theorem occFindRecord_install (short : write.key.length < OCC_KEY_LEN) (fits : write.value.length < OCC_VAL_LEN)
    (room : Table.HasRoom OCC_MAX_KEYS mgr.keys write.key) :
    occFindRecord (occInstall commitTs mgr write) other =
      if other = write.key then some (write.installs commitTs) else occFindRecord mgr other := by
  unfold occInstall
  rcases occEnsureRecord_cases mgr write.key write.value with ⟨idx, present, located, ensured⟩ |
    ⟨absent, full, -⟩ | ⟨absent, -, ensured⟩
  · obtain ⟨rec, found⟩ := Option.isSome_iff_exists.mp (Table.find_isSome_iff.mpr present)
    rw [ensured]
    dsimp only [occFindRecord]
    rw [Table.modify_position located, Table.find_update (OCCRecord.put_key write.value commitTs), found, Option.map_some,
      OCCRecord.put_eq (Table.key_of_find found) fits]
  · rw [← OCCManager.length_keys] at full
    exact absurd (room.resolve_left absent) (Nat.not_lt.mpr full)
  · have named := occRecordInit_key write.value 0 short
    have appended : (mgr.records ++ [occRecordInit write.key write.value 0]).modify mgr.records.length
        (·.put write.value commitTs) = mgr.records ++ [write.installs commitTs] := by
      rw [List.modify_eq_take_cons_drop (by simp)]
      simp [OCCRecord.put_eq named fits]
    rw [ensured]
    dsimp only
    rw [appended]
    exact occFindRecord_created absent rfl

theorem occInstall_keys (commitTs : Int) (short : write.key.length < OCC_KEY_LEN)
    (room : Table.HasRoom OCC_MAX_KEYS mgr.keys write.key) :
    (occInstall commitTs mgr write).keys = Table.enter mgr.keys write.key := by
  unfold occInstall
  rcases occEnsureRecord_cases mgr write.key write.value with ⟨idx, present, located, ensured⟩ |
    ⟨absent, full, -⟩ | ⟨absent, -, ensured⟩
  · rw [ensured, Table.enter, if_pos present]
    dsimp only [OCCManager.keys]
    rw [Table.modify_position located, Table.map_update (OCCRecord.put_key write.value commitTs)]
  · rw [← OCCManager.length_keys] at full
    exact absurd (room.resolve_left absent) (Nat.not_lt.mpr full)
  · have named := occRecordInit_key write.value 0 short
    rw [ensured, Table.enter, if_neg absent]
    dsimp only [OCCManager.keys]
    rw [List.modify_eq_take_cons_drop (by simp)]
    simp [OCCRecord.put_key, named]

@[simp] theorem occInstall_globalVersion : (occInstall commitTs mgr write).globalVersion = mgr.globalVersion := by
  unfold occInstall
  rcases occEnsureRecord_cases mgr write.key write.value with ⟨idx, -, -, ensured⟩ | ⟨-, -, ensured⟩ |
    ⟨-, -, ensured⟩ <;> rw [ensured]

@[simp] theorem occInstalls_globalVersion (writes : List OCCWriteEntry) :
    (writes.foldl (occInstall commitTs) mgr).globalVersion = mgr.globalVersion := by
  induction writes generalizing mgr with
  | nil => rfl
  | cons write rest ih => rw [List.foldl_cons, ih, occInstall_globalVersion]

/-- A write set as the calls of a transaction with short keys build it. -/
structure WritesFormed (writes : List OCCWriteEntry) : Prop where
  distinct : (writes.map OCCWriteEntry.key).Nodup
  short : ∀ write ∈ writes, write.key.length < OCC_KEY_LEN
  values : ∀ write ∈ writes, write.value.length < OCC_VAL_LEN

/-- With room for every key, each written key gets its new record. -/
theorem occFindRecord_installs (mgr : OCCManager) (formed : WritesFormed writes)
    (room : Table.Room OCC_MAX_KEYS mgr.keys (writes.map OCCWriteEntry.key)) (key : CString) :
    occFindRecord (writes.foldl (occInstall commitTs) mgr) key =
      ((Table.find OCCWriteEntry.key writes key).map (·.installs commitTs)).or (occFindRecord mgr key) := by
  induction writes generalizing mgr with
  | nil => rfl
  | cons write rest ih =>
    obtain ⟨distinct, short, values⟩ := formed
    rw [List.map_cons, List.nodup_cons] at distinct
    rw [List.forall_mem_cons] at short values
    obtain ⟨here, later⟩ := (Table.room_cons_iff distinct.1).mp room
    rw [← occInstall_keys commitTs short.1 here] at later
    rw [List.foldl_cons, ih _ ⟨distinct.2, short.2, values.2⟩ later, occFindRecord_install short.1 values.1 here,
      Table.find_cons]
    by_cases same : key = write.key
    · subst same
      rw [if_pos rfl, if_pos rfl, Table.find_eq_none_iff.mpr distinct.1]
      rfl
    · rw [if_neg same, if_neg (Ne.symm same)]

/-- Everything that a read of a short key can do. -/
theorem occTxnRead_cases (mgr : OCCManager) (txn : OCCTransaction) (short : key.length < OCC_KEY_LEN) :
    (txn.phase ≠ .readPhase ∧ occTxnRead mgr txn key = (mgr, txn, none)) ∨
    (∃ entry, txn.phase = .readPhase ∧ Table.find OCCWriteEntry.key txn.writeSet key = some entry ∧
      occTxnRead mgr txn key = (mgr, txn, some (strncpy entry.value (OCC_VAL_LEN - 1), -1))) ∨
    (txn.phase = .readPhase ∧ occTxnRead mgr txn key = ((occEnsureRecord mgr key []).1, txn, none)) ∨
    (∃ rec, txn.phase = .readPhase ∧ Table.find OCCWriteEntry.key txn.writeSet key = none ∧
      occFindRecord (occEnsureRecord mgr key []).1 key = some rec ∧
      occTxnRead mgr txn key = ((occEnsureRecord mgr key []).1,
        { txn with readSet :=
            if txn.readSet.length < OCC_MAX_KEYS then txn.readSet ++ [⟨key, rec.version⟩] else txn.readSet },
        some (strncpy rec.value (OCC_VAL_LEN - 1), rec.version))) := by
  have located := occEnsureRecord_found mgr [] short
  have whole : strncpy key (OCC_KEY_LEN - 1) = key := strncpy_of_lt short
  by_cases phase : txn.phase = .readPhase
  · right
    cases own : Table.find OCCWriteEntry.key txn.writeSet key with
    | some entry => exact .inl ⟨entry, phase, rfl, by simp [occTxnRead, phase, own]⟩
    | none =>
      right
      cases found : occFindRecord (occEnsureRecord mgr key []).1 key with
      | none => exact .inl ⟨phase, by simp [occTxnRead, phase, own, located, found]⟩
      | some rec => exact .inr ⟨rec, phase, rfl, rfl, by simp [occTxnRead, phase, own, located, found, whole]⟩
  · exact .inl ⟨phase, by simp [occTxnRead, phase]⟩

/-- Both validations of a commit. -/
def occValid (mgr : OCCManager) (txn : OCCTransaction) : Bool :=
  occBackwardValidation mgr txn && occForwardValidation mgr txn

/-- The manager after a commit that was let through. -/
def occInstallAll (mgr : OCCManager) (txn : OCCTransaction) : OCCManager :=
  occAdvanceWatermarks (txn.writeSet.foldl (occInstall mgr.globalVersion)
    { mgr with globalVersion := mgr.globalVersion + 1 })

theorem occTxnCommit_eq (mgr : OCCManager) (txn : OCCTransaction) :
    occTxnCommit mgr txn =
      if occValid mgr txn then
        (occInstallAll mgr txn, { txn with phase := .committed, commitTs := mgr.globalVersion }, true)
      else (mgr, { txn with phase := .aborted }, false) := by
  have backward : occBackwardValidation mgr { txn with phase := .validatePhase } =
    occBackwardValidation mgr txn := rfl
  have forward : occForwardValidation mgr { txn with phase := .validatePhase } =
    occForwardValidation mgr txn := rfl
  unfold occTxnCommit occTxnValidate occValid
  dsimp only
  rw [backward, forward]
  cases occBackwardValidation mgr txn <;> cases occForwardValidation mgr txn <;> rfl

@[simp] theorem occInstallAll_globalVersion :
    (occInstallAll mgr txn).globalVersion = mgr.globalVersion + 1 :=
  occInstalls_globalVersion txn.writeSet

theorem occFindRecord_installAll (formed : WritesFormed txn.writeSet)
    (room : Table.Room OCC_MAX_KEYS mgr.keys (txn.writeSet.map OCCWriteEntry.key)) (key : CString) :
    occFindRecord (occInstallAll mgr txn) key =
      ((Table.find OCCWriteEntry.key txn.writeSet key).map (·.installs mgr.globalVersion)).or
        (occFindRecord mgr key) :=
  occFindRecord_installs { mgr with globalVersion := mgr.globalVersion + 1 } formed room key

end MiniNetDist.Transaction.Occ
