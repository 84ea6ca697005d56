import MiniNetDist.Library.Run
import MiniNetDist.Transaction.OccStore

/-! Whether the outcome of a transaction is final. The phase is written by validate, commit
and abort but never read by a commit, so a finished transaction can commit again. -/

namespace MiniNetDist.Transaction.Occ

open Library

variable {mgr : OCCManager} {key initVal : CString} {commitTs : Int} {write : OCCWriteEntry}

/-- A transaction together with what its caller was told about it. -/
structure OCCHandle where
  txn : OCCTransaction
  /-- It was aborted, or a validation or a commit returned false. -/
  aborted : Bool
  /-- A commit returned true. -/
  committed : Bool

inductive OCCTxnCall where
  | read (key : CString)
  | write (key value : CString)
  | validate
  | commit
  | abort
  deriving DecidableEq, Repr

def OCCHandle.call (mgr : OCCManager) (handle : OCCHandle) : OCCTxnCall → OCCManager × OCCHandle
  | .read key =>
    let (mgr, txn, _) := occTxnRead mgr handle.txn key
    (mgr, { handle with txn })
  | .write key value => (mgr, { handle with txn := (occTxnWrite handle.txn key value).1 })
  | .validate =>
    let (txn, ok) := occTxnValidate mgr handle.txn
    (mgr, { handle with txn, aborted := handle.aborted || !ok })
  | .commit =>
    let (mgr, txn, ok) := occTxnCommit mgr handle.txn
    (mgr, ⟨txn, handle.aborted || !ok, handle.committed || ok⟩)
  | .abort => (mgr, { handle with txn := occTxnAbort handle.txn, aborted := true })

structure OCCHistory where
  mgr : OCCManager
  handles : List OCCHandle

def occHistoryInit : OCCHistory := ⟨occManagerInit, []⟩

inductive OCCHistoryCall where
  | begin (txnId : Int)
  | on (txn : Nat) (call : OCCTxnCall)
  deriving DecidableEq, Repr

def occHistoryStep (history : OCCHistory) : OCCHistoryCall → OCCHistory
  | .begin txnId =>
    let (mgr, txn) := occTxnBegin history.mgr txnId
    ⟨mgr, history.handles ++ (txn.map fun txn => ⟨txn, false, false⟩).toList⟩
  | .on t call =>
    match history.handles[t]? with
    | none => history
    | some handle =>
      let (mgr, handle) := handle.call history.mgr call
      ⟨mgr, history.handles.set t handle⟩

/-- A commit of this transaction respects the outcome it already has. -/
def OutcomeKept (mgr : OCCManager) (handle : OCCHandle) : Prop :=
  (handle.aborted → (occTxnCommit mgr handle.txn).1.records = mgr.records) ∧
  (handle.committed → (occTxnCommit mgr handle.txn).1 = mgr ∧
    (occTxnCommit mgr handle.txn).2.1.commitTs = handle.txn.commitTs)

/-- Outcomes are final at this call. -/
def OutcomeFinal (history : OCCHistory) : OCCHistoryCall → Prop
  | .on t .commit => ∀ handle ∈ history.handles[t]?, OutcomeKept history.mgr handle
  | _ => True

/-- A finished transaction that validates once more was not committed, and if it was aborted
none of its writes finds a record or a free place for one. -/
def CommitsOnce (mgr : OCCManager) (handle : OCCHandle) : Prop :=
  occValid mgr handle.txn → handle.committed = false ∧
    (handle.aborted → ∀ write ∈ handle.txn.writeSet, ¬ Table.HasRoom OCC_MAX_KEYS mgr.keys write.key)

def RecommitsNothing (history : OCCHistory) : OCCHistoryCall → Prop
  | .on t .commit => ∀ handle ∈ history.handles[t]?, CommitsOnce history.mgr handle
  | _ => True

/-- Every version was handed out by the manager's clock. -/
structure VersionsPast (mgr : OCCManager) : Prop where
  records : ∀ rec ∈ mgr.records, rec.version < mgr.globalVersion
  started : 0 < mgr.globalVersion

/-- One pass of the loop either finds no place, or leaves one record with the commit's version. -/
theorem occInstall_cases (commitTs : Int) (mgr : OCCManager) (write : OCCWriteEntry) :
    (¬ Table.HasRoom OCC_MAX_KEYS mgr.keys write.key ∧ occInstall commitTs mgr write = mgr) ∨
    (Table.HasRoom OCC_MAX_KEYS mgr.keys write.key ∧ ∃ before rec after,
      (mgr.records = before ++ rec :: after ∨ mgr.records = before ∧ after = []) ∧
      occInstall commitTs mgr write =
        { mgr with records := before ++ rec.put write.value commitTs :: after }) := by
  unfold occInstall
  rcases occEnsureRecord_cases mgr write.key write.value with ⟨idx, present, located, ensured⟩ |
    ⟨absent, full, ensured⟩ | ⟨absent, space, ensured⟩
  · right
    refine ⟨.inl present, ?_⟩
    obtain ⟨rec, found⟩ := Option.isSome_iff_exists.mp (Table.find_isSome_iff.mpr present)
    obtain ⟨inside, same⟩ := List.getElem?_eq_some_iff.mp ((Table.getElem?_position located).trans found)
    refine ⟨mgr.records.take idx, rec, mgr.records.drop (idx + 1), .inl ?_, ?_⟩
    · rw [← same, List.cons_getElem_drop_succ, List.take_append_drop]
    · rw [ensured]
      dsimp only
      rw [List.modify_eq_take_cons_drop inside, same]
  · left
    rw [← OCCManager.length_keys] at full
    rw [ensured]
    exact ⟨fun room => absurd (room.resolve_left absent) (Nat.not_lt.mpr full), rfl⟩
  · right
    rw [← OCCManager.length_keys] at space
    refine ⟨.inr space, mgr.records, occRecordInit write.key write.value 0, [], .inr ⟨rfl, rfl⟩, ?_⟩
    rw [ensured]
    dsimp only
    rw [List.modify_eq_take_cons_drop (by simp)]
    simp

theorem VersionsPast.ensure (past : VersionsPast mgr) : VersionsPast (occEnsureRecord mgr key initVal).1 := by
  rcases occEnsureRecord_cases mgr key initVal with ⟨idx, -, -, ensured⟩ | ⟨-, -, ensured⟩ | ⟨-, -, ensured⟩
  · rw [ensured]
    exact past
  · rw [ensured]
    exact past
  · rw [ensured]
    refine ⟨?_, past.started⟩
    intro rec owned
    rcases List.mem_append.mp owned with old | new
    · exact past.records rec old
    · rw [List.mem_singleton.mp new]
      exact past.started

theorem VersionsPast.install (past : VersionsPast mgr) (given : commitTs < mgr.globalVersion) :
    VersionsPast (occInstall commitTs mgr write) := by
  rcases occInstall_cases commitTs mgr write with ⟨-, same⟩ | ⟨-, before, rec, after, place, landed⟩
  · rw [same]
    exact past
  · rw [landed]
    refine ⟨?_, past.started⟩
    intro other owned
    rcases List.mem_append.mp owned with old | rest
    · apply past.records
      rcases place with split | ⟨split, -⟩
      · rw [split]
        exact List.mem_append_left _ old
      · rw [split]
        exact old
    · rcases List.mem_cons.mp rest with rfl | old
      · exact given
      · apply past.records
        rcases place with split | ⟨-, empty⟩
        · rw [split]
          exact List.mem_append_right _ (List.mem_cons_of_mem _ old)
        · rw [empty] at old
          cases old

theorem VersionsPast.installs (writes : List OCCWriteEntry) (past : VersionsPast mgr)
    (given : commitTs < mgr.globalVersion) : VersionsPast (writes.foldl (occInstall commitTs) mgr) := by
  induction writes generalizing mgr with
  | nil => exact past
  | cons write rest ih =>
    refine ih (past.install given) ?_
    rw [occInstall_globalVersion]
    exact given

theorem VersionsPast.commit {txn : OCCTransaction} (past : VersionsPast mgr) :
    VersionsPast (occTxnCommit mgr txn).1 := by
  rw [occTxnCommit_eq]
  split_ifs
  · have ticked : VersionsPast { mgr with globalVersion := mgr.globalVersion + 1 } :=
      ⟨fun rec owned => Int.lt_trans (past.records rec owned) (Int.lt_succ _),
        Int.lt_trans past.started (Int.lt_succ _)⟩
    have installed := ticked.installs txn.writeSet (Int.lt_succ mgr.globalVersion)
    exact ⟨installed.records, installed.started⟩
  · exact past

theorem occTxnRead_mgr (mgr : OCCManager) (txn : OCCTransaction) (key : CString) :
    (occTxnRead mgr txn key).1 = mgr ∨ (occTxnRead mgr txn key).1 = (occEnsureRecord mgr key []).1 := by
  by_cases phase : txn.phase = .readPhase
  · cases own : Table.find OCCWriteEntry.key txn.writeSet key with
    | some entry => exact .inl (by simp [occTxnRead, phase, own])
    | none =>
      right
      simp only [occTxnRead, phase, own]
      cases (occEnsureRecord mgr key []).2.bind fun idx => (occEnsureRecord mgr key []).1.records[idx]? <;> simp
  · exact .inl (by simp [occTxnRead, phase])

theorem VersionsPast.call (past : VersionsPast mgr) (handle : OCCHandle) (call : OCCTxnCall) :
    VersionsPast (handle.call mgr call).1 := by
  cases call with
  | read key =>
    have read : (handle.call mgr (.read key)).1 = (occTxnRead mgr handle.txn key).1 := rfl
    rcases occTxnRead_mgr mgr handle.txn key with same | ensured
    · rw [read, same]
      exact past
    · rw [read, ensured]
      exact past.ensure
  | write key value => exact past
  | validate => exact past
  | commit => exact past.commit
  | abort => exact past

theorem VersionsPast.step {history : OCCHistory} (past : VersionsPast history.mgr) (call : OCCHistoryCall) :
    VersionsPast (occHistoryStep history call).mgr := by
  cases call with
  | begin txnId =>
    unfold occHistoryStep occTxnBegin
    split_ifs
    · exact past
    · exact ⟨fun rec owned => Int.lt_trans (past.records rec owned) (Int.lt_succ _),
        Int.lt_trans past.started (Int.lt_succ _)⟩
  | on t call =>
    cases found : history.handles[t]? with
    | none =>
      simp only [occHistoryStep, found]
      exact past
    | some handle =>
      simp only [occHistoryStep, found]
      exact past.call handle call

/-- Some record carries the version. -/
def Stamped (commitTs : Int) (mgr : OCCManager) : Prop := ∃ rec ∈ mgr.records, rec.version = commitTs

theorem stamped_of_room (room : Table.HasRoom OCC_MAX_KEYS mgr.keys write.key) :
    Stamped commitTs (occInstall commitTs mgr write) := by
  rcases occInstall_cases commitTs mgr write with ⟨full, -⟩ | ⟨-, before, rec, after, -, landed⟩
  · exact absurd room full
  · rw [landed]
    exact ⟨rec.put write.value commitTs, List.mem_append_right _ List.mem_cons_self, rfl⟩

theorem Stamped.install (stamped : Stamped commitTs mgr) : Stamped commitTs (occInstall commitTs mgr write) := by
  rcases occInstall_cases commitTs mgr write with ⟨-, same⟩ | ⟨room, -⟩
  · rw [same]
    exact stamped
  · exact stamped_of_room room

theorem Stamped.installs (writes : List OCCWriteEntry) (stamped : Stamped commitTs mgr) :
    Stamped commitTs (writes.foldl (occInstall commitTs) mgr) := by
  induction writes generalizing mgr with
  | nil => exact stamped
  | cons write rest ih => exact ih stamped.install

theorem occInstalls_full (writes : List OCCWriteEntry)
    (full : ∀ write ∈ writes, ¬ Table.HasRoom OCC_MAX_KEYS mgr.keys write.key) :
    writes.foldl (occInstall commitTs) mgr = mgr := by
  induction writes with
  | nil => rfl
  | cons write rest ih =>
    rw [List.forall_mem_cons] at full
    rcases occInstall_cases commitTs mgr write with ⟨-, same⟩ | ⟨room, -⟩
    · rw [List.foldl_cons, same, ih full.2]
    · exact absurd room full.1

/-- A write set leaves its mark as soon as one of its writes finds a place: the writes before
that one changed nothing. -/
theorem stamped_installs (writes : List OCCWriteEntry) (lands : write ∈ writes)
    (room : Table.HasRoom OCC_MAX_KEYS mgr.keys write.key) :
    Stamped commitTs (writes.foldl (occInstall commitTs) mgr) := by
  induction writes with
  | nil => cases lands
  | cons first rest ih =>
    rw [List.foldl_cons]
    rcases occInstall_cases commitTs mgr first with ⟨full, same⟩ | ⟨found, -⟩
    · rw [same]
      rcases List.mem_cons.mp lands with rfl | later
      · exact absurd room full
      · exact ih later
    · exact (stamped_of_room found).installs rest

theorem occInstallAll_records_iff (past : VersionsPast mgr) (txn : OCCTransaction) :
    (occInstallAll mgr txn).records = mgr.records ↔
      ∀ write ∈ txn.writeSet, ¬ Table.HasRoom OCC_MAX_KEYS mgr.keys write.key := by
  constructor
  · intro same write owned room
    have stamped : Stamped mgr.globalVersion (txn.writeSet.foldl (occInstall mgr.globalVersion)
        { mgr with globalVersion := mgr.globalVersion + 1 }) := stamped_installs txn.writeSet owned room
    obtain ⟨rec, inside, version⟩ := stamped
    have old : rec ∈ mgr.records := same ▸ inside
    exact absurd version (Int.ne_of_lt (past.records rec old))
  · intro full
    have unmoved : txn.writeSet.foldl (occInstall mgr.globalVersion)
        { mgr with globalVersion := mgr.globalVersion + 1 } =
          { mgr with globalVersion := mgr.globalVersion + 1 } := occInstalls_full txn.writeSet full
    rw [occInstallAll, unmoved]
    rfl

theorem outcomeKept_iff (past : VersionsPast mgr) (handle : OCCHandle) :
    OutcomeKept mgr handle ↔ CommitsOnce mgr handle := by
  unfold OutcomeKept CommitsOnce
  rw [occTxnCommit_eq]
  by_cases valid : occValid mgr handle.txn
  · have moved : occInstallAll mgr handle.txn ≠ mgr := by
      intro same
      have clock := congrArg OCCManager.globalVersion same
      rw [occInstallAll_globalVersion] at clock
      omega
    simp [valid, moved, occInstallAll_records_iff past, and_comm]
  · simp [valid]

/-- Outcomes stay final along a run exactly when every transaction that already has one and is
committed again fails validation, or was aborted and finds no place for any of its writes. -/
theorem outcomesFinal_iff (calls : List OCCHistoryCall) :
    Permitted occHistoryStep OutcomeFinal occHistoryInit calls ↔
      Permitted occHistoryStep RecommitsNothing occHistoryInit calls := by
  refine Permitted.congr (motive := fun history => VersionsPast history.mgr) calls (Permitted.always calls) ?_ ?_ ?_
  · exact ⟨fun _ owned => absurd owned List.not_mem_nil, Int.one_pos⟩
  · intro history call past _ _
    exact past.step call
  · intro history call past _
    unfold OutcomeFinal RecommitsNothing
    split
    · exact forall₂_congr fun handle _ => outcomeKept_iff past handle
    · exact Iff.rfl

instance (mgr : OCCManager) (handle : OCCHandle) : Decidable (CommitsOnce mgr handle) :=
  inferInstanceAs (Decidable (_ → _ ∧ (_ → _)))

/-- A written key, an abort, and a commit all the same. -/
def abortedThenCommitted : List OCCHistoryCall :=
  [.begin 1, .on 0 (.write [120] [49]), .on 0 .abort, .on 0 .commit]

theorem abortedThenCommitted_lands : ¬ Permitted occHistoryStep OutcomeFinal occHistoryInit abortedThenCommitted := by
  intro final
  have kept := final.2.2.2.1 _ rfl
  exact absurd (congrArg List.length (kept.1 rfl)) (by decide)

end MiniNetDist.Transaction.Occ
