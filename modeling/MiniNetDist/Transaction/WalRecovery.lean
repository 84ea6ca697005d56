import MiniNetDist.Library.Recovery
import MiniNetDist.Library.Ring
import MiniNetDist.Transaction.Wal

/-! What `wal_recover` restores. The log of a history is an arrangement of its latest records; the
passes over it are a recovery of the library, whose losers are the unfinished transactions that the
analysis had space for. -/

namespace MiniNetDist.Transaction.Wal

open Library Library.Recovery

section Log

variable {history : List WALRecord} {wm : WALManager} {rec : WALRecord}

/-- The manager after the records have been appended in order. -/
def walLog (history : List WALRecord) : WALManager := history.foldl walAppend walManagerInit

/-- A record without the fields that `wal_append` fills in. -/
def WALRecord.unstamped (rec : WALRecord) : WALRecord := { rec with lsn := 0, prevLsn := 0 }

def retained (history : List WALRecord) : List WALRecord := Ring.retained WAL_MAX_RECORDS history

structure Logged (history : List WALRecord) (wm : WALManager) : Prop where
  records : wm.records.map WALRecord.unstamped = (retained history).map WALRecord.unstamped
  numbered : ∀ rec ∈ wm.records, 1 ≤ rec.lsn
  next : 1 ≤ wm.nextLsn
  unchecked : wm.checkpointLsn = 0
  circular : wm.isCircular = decide (WAL_MAX_RECORDS < history.length)
  slot : WAL_MAX_RECORDS < history.length → wm.writePos = history.length % WAL_MAX_RECORDS

theorem Logged.length (logged : Logged history wm) : wm.records.length = min history.length WAL_MAX_RECORDS := by
  have same := congrArg List.length logged.records
  rw [List.length_map, List.length_map] at same
  rw [same]
  exact Ring.length_retained (by decide) history

theorem Logged.init : Logged [] walManagerInit := by
  refine ⟨rfl, ?_, by decide, rfl, rfl, ?_⟩
  · intro rec none
    cases none
  · intro many
    cases many

theorem Logged.append_short (logged : Logged history wm) (short : history.length < WAL_MAX_RECORDS) :
    Logged (history ++ [rec]) (walAppend wm rec) := by
  have size := logged.length
  have next := logged.next
  obtain ⟨prevLsn, appended⟩ := walAppend_short wm rec (by omega)
  rw [appended]
  refine ⟨?_, ?_, ?_, logged.unchecked, ?_, ?_⟩
  · rw [retained, Ring.retained_append_short short, List.map_append, List.map_append, logged.records]
    rfl
  · intro one inside
    rcases List.mem_append.mp inside with old | new
    · exact logged.numbered one old
    · rw [List.mem_singleton.mp new]
      exact next
  · exact Int.le_add_one next
  · rw [logged.circular, List.length_append, List.length_singleton]
    have before : ¬ WAL_MAX_RECORDS < history.length := by omega
    have after : ¬ WAL_MAX_RECORDS < history.length + 1 := by omega
    simp only [before, after]
  · rw [List.length_append, List.length_singleton]
    omega

theorem Logged.append_full (logged : Logged history wm) (full : WAL_MAX_RECORDS ≤ history.length) :
    Logged (history ++ [rec]) (walAppend wm rec) := by
  have size := logged.length
  have next := logged.next
  have slot : history.length % WAL_MAX_RECORDS = if wm.isCircular then wm.writePos else 0 := by
    rw [logged.circular]
    by_cases lapped : WAL_MAX_RECORDS < history.length
    · rw [if_pos (decide_eq_true lapped), logged.slot lapped]
    · have once : history.length = WAL_MAX_RECORDS := by omega
      rw [if_neg (fun holds => lapped (of_decide_eq_true holds)), once, Nat.mod_self]
  obtain ⟨prevLsn, appended⟩ := walAppend_full wm rec (by omega) slot
  rw [appended]
  refine ⟨?_, ?_, ?_, logged.unchecked, ?_, ?_⟩
  · rw [retained, Ring.retained_append_full (by decide) full, List.map_set, List.map_set, logged.records]
    rfl
  · intro one inside
    rcases List.mem_or_eq_of_mem_set inside with old | new
    · exact logged.numbered one old
    · rw [new]
      exact next
  · exact Int.le_add_one next
  · rw [List.length_append, List.length_singleton, decide_eq_true (by omega)]
  · intro _
    rw [List.length_append, List.length_singleton, Nat.mod_add_mod]

theorem walLog_logged (history : List WALRecord) : Logged history (walLog history) := by
  induction history using List.reverseRecOn with
  | nil => exact .init
  | append_singleton earlier rec ih =>
    rw [walLog, List.foldl_append]
    by_cases short : earlier.length < WAL_MAX_RECORDS
    · exact ih.append_short short
    · exact ih.append_full (Nat.le_of_not_lt short)

end Log

section Passes

variable {records : List WALRecord} {txn : Int}

/-- The change that a record describes. -/
def WALRecord.change (rec : WALRecord) : Option (Change Int CString CString) :=
  match rec.type with
  | .insert => some ⟨rec.txnId, rec.key, none, some rec.newValue⟩
  | .update => some ⟨rec.txnId, rec.key, some rec.oldValue, some rec.newValue⟩
  | .delete => some ⟨rec.txnId, rec.key, some rec.oldValue, none⟩
  | _ => none

def WALRecord.event (rec : WALRecord) : Option (Event Int CString CString) :=
  match rec.type with
  | .begin => some (.begin rec.txnId)
  | .commit => some (.commit rec.txnId)
  | .abort => some (.abort rec.txnId)
  | .checkpoint => none
  | _ => rec.change.map .change

/-- The callback that sets or deletes the key. -/
def kvApply (store : CString → Option CString) (key : CString) (value : Option CString) (_ver : Int) :
    CString → Option CString :=
  Function.update store key value

theorem redoPass_eq {start : Int} (recent : ∀ rec ∈ records, start ≤ rec.lsn) (store : CString → Option CString)
    (count : Nat) :
    (records.foldl (walRedoRecord start kvApply) (store, count)).1 =
      redo (records.filterMap WALRecord.change) store := by
  induction records generalizing store count with
  | nil => rfl
  | cons rec rest ih =>
    have here : ¬ rec.lsn < start := Int.not_lt.mpr (recent rec List.mem_cons_self)
    have later := ih fun rec inside => recent rec (List.mem_cons_of_mem _ inside)
    rw [List.foldl_cons, walRedoRecord, if_neg here, List.filterMap_cons]
    cases kind : rec.type <;> simp only [WALRecord.change, kind] <;> exact later _ _

theorem undoPass_eq (losers : List Int) (store : CString → Option CString) (count : Nat) :
    (records.foldl (walUndoRecord losers kvApply) (store, count)).1 =
      ((records.filterMap WALRecord.change).filter fun change => change.txn ∈ losers).foldl
        (assign Change.before) store := by
  induction records generalizing store count with
  | nil => rfl
  | cons rec rest ih =>
    rw [List.foldl_cons, walUndoRecord, List.filterMap_cons]
    by_cases lost : rec.txnId ∈ losers
    · rw [if_neg (not_not.mpr lost)]
      cases kind : rec.type <;> simp only [WALRecord.change, kind, List.filter_cons, lost, decide_true, if_true] <;>
        exact ih _ _
    · rw [if_pos lost]
      cases kind : rec.type <;> simp only [WALRecord.change, kind, List.filter_cons, lost, decide_false] <;>
        exact ih _ _

/-- The first positive ids of the records, at most `maxTxn` of them. -/
def tracked (maxTxn : Nat) (records : List WALRecord) : List Int :=
  (((records.map WALRecord.txnId).filter (0 < ·)).foldl Table.enter []).take maxTxn

def finishes (records : List WALRecord) (txn : Int) : Bool := records.any fun rec => rec.txnId = txn && rec.ends

/-- The transactions that recovery undoes. -/
def undone (records : List WALRecord) : List Int :=
  (tracked WAL_MAX_LOSERS records).filter fun txn => !finishes records txn

theorem nodup_tracked (maxTxn : Nat) (records : List WALRecord) : (tracked maxTxn records).Nodup :=
  (Table.nodup_enter_all List.nodup_nil).sublist (List.take_sublist _ _)

theorem length_tracked_le (maxTxn : Nat) (records : List WALRecord) : (tracked maxTxn records).length ≤ maxTxn :=
  List.length_take_le _ _

/-- A table with space has an entry for every positive id. -/
theorem mem_tracked {maxTxn : Nat} (space : (tracked maxTxn records).length < maxTxn) (positive : 0 < txn)
    (seen : ∃ rec ∈ records, rec.txnId = txn) : txn ∈ tracked maxTxn records := by
  unfold tracked at space ⊢
  rw [List.length_take] at space
  rw [List.take_of_length_le (by omega), Table.mem_enter_all]
  obtain ⟨rec, inside, rfl⟩ := seen
  exact .inr (List.mem_filter.mpr ⟨List.mem_map_of_mem inside, decide_eq_true positive⟩)

theorem tracked_append (maxTxn : Nat) (records : List WALRecord) (rec : WALRecord) :
    tracked maxTxn (records ++ [rec]) =
      if rec.txnId ∉ tracked maxTxn records ∧ (tracked maxTxn records).length < maxTxn ∧ rec.txnId > 0
      then tracked maxTxn records ++ [rec.txnId] else tracked maxTxn records := by
  unfold tracked
  rw [List.map_append, List.filter_append, List.foldl_append]
  by_cases positive : rec.txnId > 0
  · have counted : ([rec].map WALRecord.txnId).filter (0 < ·) = [rec.txnId] := by simp [positive]
    rw [counted, List.foldl_cons, List.foldl_nil, Table.take_enter]
    simp only [positive, and_true]
  · have ignored : ([rec].map WALRecord.txnId).filter (0 < ·) = [] := by simp [positive]
    rw [ignored, List.foldl_nil, if_neg (fun all => positive all.2.2)]

theorem finishes_append (records : List WALRecord) (rec : WALRecord) (txn : Int) :
    finishes (records ++ [rec]) txn = (finishes records txn || (rec.txnId = txn && rec.ends)) := by
  simp [finishes]

/-- The table that `wal_analyze_pass` keeps while it reads the records. -/
def entries (records : List WALRecord) (txns : List Int) : List (Int × Bool) :=
  txns.map fun txn => (txn, finishes records txn)

theorem find_entries (records : List WALRecord) (txns : List Int) (txn : Int) :
    (Table.find Prod.fst (entries records txns) txn).isNone ↔ txn ∉ txns := by
  rw [Option.isNone_iff_eq_none, Table.find_eq_none_iff, entries, List.map_map]
  simp [Function.comp_def]

theorem walTrackTxn_entries (maxTxn : Nat) (records : List WALRecord) (rec : WALRecord) :
    walTrackTxn maxTxn (entries records (tracked maxTxn records)) rec.txnId =
      entries records (tracked maxTxn (records ++ [rec])) := by
  have size : (entries records (tracked maxTxn records)).length = (tracked maxTxn records).length := List.length_map _
  unfold walTrackTxn
  rw [tracked_append, size]
  simp only [find_entries]
  split_ifs with fresh
  · obtain ⟨absent, space, positive⟩ := fresh
    -- with space left, an id that is not in the table has not been seen
    have unseen : finishes records rec.txnId = false := by
      rw [finishes, List.any_eq_false]
      intro earlier inside ends
      rw [Bool.and_eq_true, decide_eq_true_iff] at ends
      exact absent (mem_tracked space positive ⟨earlier, inside, ends.1⟩)
    rw [entries, entries, List.map_append, List.map_singleton, unseen]
  · rfl

theorem walEndTxn_entries (records : List WALRecord) (rec : WALRecord) {txns : List Int} (distinct : txns.Nodup) :
    walEndTxn (entries records txns) rec = entries (records ++ [rec]) txns := by
  unfold walEndTxn
  split_ifs with ends
  · rw [Table.update_eq_map (by simpa [entries, Function.comp_def] using distinct), entries, entries, List.map_map]
    apply List.map_congr_left
    intro txn _
    rw [Function.comp_apply, finishes_append, ends]
    by_cases same : txn = rec.txnId
    · simp [same]
    · simp [same, Ne.symm same]
  · apply List.map_congr_left
    intro txn _
    simp [finishes_append, ends]

/-- The table after the loop of `wal_analyze_pass`. -/
theorem analysis_txns (maxTxn : Nat) (records : List WALRecord) :
    (records.foldl (walAnalyzeRecord maxTxn) ⟨[], INT64_MAX⟩).txns = entries records (tracked maxTxn records) := by
  induction records using List.reverseRecOn with
  | nil => simp [tracked, entries]
  | append_singleton earlier rec ih =>
    rw [List.foldl_append, List.foldl_cons, List.foldl_nil, walAnalyzeRecord_txns, ih, walTrackTxn_entries,
      walEndTxn_entries earlier rec (nodup_tracked _ _)]

theorem walAnalyzePass_losers (wm : WALManager) : (walAnalyzePass wm WAL_MAX_LOSERS).1 = undone wm.records := by
  simp only [walAnalyzePass, analysis_txns]
  rw [entries, List.filter_map, List.map_map]
  have names : (Prod.fst ∘ fun txn => (txn, finishes wm.records txn)) = id := rfl
  rw [names, List.map_id]
  exact List.take_of_length_le (Nat.le_trans (List.length_filter_le _ _) (length_tracked_le _ _))

theorem tracked_unstamped (maxTxn : Nat) (records : List WALRecord) :
    tracked maxTxn (records.map WALRecord.unstamped) = tracked maxTxn records := by
  rw [tracked, List.map_map]
  rfl

theorem finishes_unstamped (records : List WALRecord) (txn : Int) :
    finishes (records.map WALRecord.unstamped) txn = finishes records txn := by
  rw [finishes, List.any_map]
  rfl

theorem undone_unstamped (records : List WALRecord) : undone (records.map WALRecord.unstamped) = undone records := by
  simp only [undone, tracked_unstamped, finishes_unstamped]

theorem change_unstamped (records : List WALRecord) :
    (records.map WALRecord.unstamped).filterMap WALRecord.change = records.filterMap WALRecord.change := by
  rw [List.filterMap_map]
  rfl

/-- The key-value state after recovery from an empty one. -/
def recovered (history : List WALRecord) (now : Int) : CString → Option CString :=
  (walRecover (walLog history) kvApply kvApply (fun _ => none) now).2

theorem recovered_apply (history : List WALRecord) (now : Int) (key : CString) :
    recovered history now key =
      decided (fun txn => txn ∈ undone (retained history)) ((retained history).filterMap WALRecord.change) key := by
  have logged := walLog_logged history
  have sameChanges : (walLog history).records.filterMap WALRecord.change =
      (retained history).filterMap WALRecord.change := by
    rw [← change_unstamped, logged.records, change_unstamped]
  have sameUndone : undone (walLog history).records = undone (retained history) := by
    rw [← undone_unstamped, logged.records, undone_unstamped]
  have start : (if (walLog history).checkpointLsn > 0 then (walLog history).checkpointLsn else 1) = 1 := by
    rw [logged.unchecked]
    rfl
  rw [recovered, walRecover_ctx, start, walAnalyzePass_losers, sameUndone, walRedoPass, redoPass_eq logged.numbered,
    walUndoPass, undoPass_eq, List.filterMap_reverse, List.filter_reverse, sameChanges]
  exact recovered_eq (fun txn => decide (txn ∈ undone (retained history))) _ key

end Passes

section Histories

variable {history : List WALRecord} {txn : Int}

def events (history : List WALRecord) : List (Event Int CString CString) := history.filterMap WALRecord.event

/-- The records of a well-formed history; a log without checkpoints. -/
def WellFormedLog (history : List WALRecord) : Prop :=
  (∀ rec ∈ history, rec.type ≠ .checkpoint) ∧ WellFormed (events history)

instance (history : List WALRecord) : Decidable (WellFormedLog history) := inferInstanceAs (Decidable (_ ∧ _))

theorem changes_events (history : List WALRecord) : changes (events history) = history.filterMap WALRecord.change := by
  rw [changes, events, List.filterMap_filterMap]
  congr 1
  funext rec
  cases kind : rec.type <;> simp [WALRecord.event, WALRecord.change, kind]

theorem mem_committers :
    txn ∈ committers (events history) ↔ ∃ rec ∈ history, rec.type = .commit ∧ rec.txnId = txn := by
  rw [committers, events, List.filterMap_filterMap, List.mem_filterMap]
  refine exists_congr fun rec => and_congr_right fun _ => ?_
  cases kind : rec.type <;> simp [WALRecord.event, WALRecord.change, kind]

theorem mem_aborters :
    txn ∈ aborters (events history) ↔ ∃ rec ∈ history, rec.type = .abort ∧ rec.txnId = txn := by
  rw [aborters, events, List.filterMap_filterMap, List.mem_filterMap]
  refine exists_congr fun rec => and_congr_right fun _ => ?_
  cases kind : rec.type <;> simp [WALRecord.event, WALRecord.change, kind]

theorem finishes_iff : finishes history txn = true ↔ txn ∈ ended (events history) := by
  rw [ended, List.mem_append, mem_committers, mem_aborters, finishes, List.any_eq_true, ← exists_or]
  refine exists_congr fun rec => ?_
  rw [← and_or_left, ← or_and_right, Bool.and_eq_true, WALRecord.ends, Bool.or_eq_true, decide_eq_true_iff,
    decide_eq_true_iff, decide_eq_true_iff]
  tauto

theorem mem_undone : txn ∈ undone history ↔ txn ∈ tracked WAL_MAX_LOSERS history ∧ txn ∉ ended (events history) := by
  rw [undone, List.mem_filter, ← finishes_iff, Bool.not_eq_true', Bool.not_eq_true]

/-- When the log is recovered. Before the ring is full: every key whose last operation was neither
committed nor undone has been left as it was committed. After that the records in the ring decide, in
array order. -/
def Settled (history : List WALRecord) : Prop :=
  if history.length ≤ WAL_MAX_RECORDS then
    ∀ key last, lastChange (changes (events history)) key = some last →
      last.txn ∉ committers (events history) →
      last.txn ∈ aborters (events history) ∨ last.txn ∉ tracked WAL_MAX_LOSERS history →
      last.after = committed (events history) key
  else
    Carries (fun txn => txn ∈ undone (retained history)) (changes (events (retained history)))
      (committed (events history))

/-- Recovery restores the committed state of a well-formed history exactly when it is settled. -/
theorem recovered_iff (formed : WellFormedLog history) (now : Int) :
    recovered history now = committed (events history) ↔ Settled history := by
  have pointwise : recovered history now = committed (events history) ↔
      ∀ key, decided (fun txn => txn ∈ undone (retained history)) (changes (events (retained history))) key =
        committed (events history) key := by
    rw [funext_iff]
    refine forall_congr' fun key => ?_
    rw [recovered_apply, changes_events]
  rw [pointwise, Settled]
  split_ifs with short
  · have whole : retained history = history := Ring.retained_short short
    rw [whole, formed.2.orderly.recovers_iff]
    · refine forall_congr' fun key => forall_congr' fun last => forall_congr' fun found => forall_congr' fun lost => ?_
      rw [decide_eq_false_iff_not, mem_undone, ended, List.mem_append]
      have same : ¬ (last.txn ∈ tracked WAL_MAX_LOSERS history ∧
          ¬ (last.txn ∈ committers (events history) ∨ last.txn ∈ aborters (events history))) ↔
          last.txn ∈ aborters (events history) ∨ last.txn ∉ tracked WAL_MAX_LOSERS history := by
        tauto
      rw [same]
    · intro txn loses
      exact (mem_undone.mp (of_decide_eq_true loses)).2
  · exact decided_iff

/-- A committed insertion, and an update of it that was cut short. -/
def cutShort : List WALRecord :=
  [walRecordInit .begin 1 none none none 0,
    walRecordInit .insert 1 (some [107]) none (some [97]) 0,
    walRecordInit .commit 1 none none none 0,
    walRecordInit .begin 2 none none none 0,
    walRecordInit .update 2 (some [107]) (some [97]) (some [98]) 0]

theorem cutShort_recovered : WellFormedLog cutShort ∧ recovered cutShort 0 = committed (events cutShort) := by
  have formed : WellFormedLog cutShort := by decide
  refine ⟨formed, (recovered_iff formed 0).mpr ?_⟩
  have known : ∀ change ∈ changes (events cutShort), change.txn ∈ committers (events cutShort) ∨
      change.txn ∉ aborters (events cutShort) ∧ change.txn ∈ tracked WAL_MAX_LOSERS cutShort := by decide
  rw [Settled, if_pos (by decide)]
  intro key last found lost remaining
  rcases known last (lastChange_mem found).1 with winner | ⟨unaborted, within⟩
  · exact absurd winner lost
  · rcases remaining with aborted | outside
    · exact absurd aborted unaborted
    · exact absurd within outside

/-- An insertion that was aborted. -/
def abortedInsert : List WALRecord :=
  [walRecordInit .begin 1 none none none 0,
    walRecordInit .insert 1 (some [107]) none (some [97]) 0,
    walRecordInit .abort 1 none none none 0]

theorem abortedInsert_restored :
    ¬ ∀ history now, WellFormedLog history → recovered history now = committed (events history) := by
  intro always
  have same := congrFun (always abortedInsert 0 (by decide)) [107]
  revert same
  decide

end Histories

end MiniNetDist.Transaction.Wal
