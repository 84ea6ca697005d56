import MiniNetDist.Library.Table

/-! The write-ahead log of `mini-dist-transaction/src/wal.c`: appending to a ring of records, and
recovery in three passes. The callbacks of the passes act on a context of any type. -/

namespace MiniNetDist.Transaction.Wal

open Library

def WAL_MAX_RECORDS : Nat := 512
def WAL_KEY_LEN : Nat := 32
def WAL_VAL_LEN : Nat := 128
def INT64_MAX : Int := 9223372036854775807

inductive WALRecordType where
  | insert
  | update
  | delete
  | begin
  | commit
  | abort
  | checkpoint
  deriving DecidableEq, Repr

structure WALRecord where
  lsn : Int
  type : WALRecordType
  txnId : Int
  key : CString
  oldValue : CString
  newValue : CString
  prevLsn : Int
  timestamp : Int
  deriving DecidableEq, Repr

/-- The records in array order; their number is the count. -/
structure WALManager where
  records : List WALRecord
  nextLsn : Int
  flushedLsn : Int
  checkpointLsn : Int
  writePos : Nat
  flushPos : Nat
  isCircular : Bool
  deriving DecidableEq, Repr

def walManagerInit : WALManager := ⟨[], 1, 0, 0, 0, 0, false⟩

/-- A null pointer leaves the field empty; `now` is the wall clock. -/
def walRecordInit (type : WALRecordType) (txnId : Int) (key oldVal newVal : Option CString) (now : Int) : WALRecord :=
  { lsn := 0
    type
    txnId
    key := (key.map (strncpy · (WAL_KEY_LEN - 1))).getD []
    oldValue := (oldVal.map (strncpy · (WAL_VAL_LEN - 1))).getD []
    newValue := (newVal.map (strncpy · (WAL_VAL_LEN - 1))).getD []
    prevLsn := 0
    timestamp := now }

def walAppend (wm : WALManager) (rec : WALRecord) : WALManager :=
  let wm := if wm.records.length ≥ WAL_MAX_RECORDS ∧ !wm.isCircular then
      { wm with isCircular := true, writePos := 0 } else wm
  if wm.records.length ≥ WAL_MAX_RECORDS ∧ wm.isCircular then
    let prevLsn := (wm.records[wm.writePos]?.map (·.lsn)).getD 0
    { wm with
      records := wm.records.set wm.writePos { rec with lsn := wm.nextLsn, prevLsn }
      writePos := (wm.writePos + 1) % WAL_MAX_RECORDS
      nextLsn := wm.nextLsn + 1 }
  else
    let prevLsn := (wm.records.getLast?.map (·.lsn)).getD 0
    { wm with
      records := wm.records ++ [{ rec with lsn := wm.nextLsn, prevLsn }]
      writePos := wm.records.length
      nextLsn := wm.nextLsn + 1 }

section Append

variable (wm : WALManager) (rec : WALRecord)

/-- While there is space a record goes to the end of the array. -/
theorem walAppend_short (space : wm.records.length < WAL_MAX_RECORDS) :
    ∃ prevLsn, walAppend wm rec = { wm with
      records := wm.records ++ [{ rec with lsn := wm.nextLsn, prevLsn }]
      writePos := wm.records.length
      nextLsn := wm.nextLsn + 1 } := by
  have notFull : ¬ wm.records.length ≥ WAL_MAX_RECORDS := Nat.not_le.mpr space
  refine ⟨(wm.records.getLast?.map (·.lsn)).getD 0, ?_⟩
  simp only [walAppend, notFull, false_and, if_false]

/-- In a full array it replaces a record, the first one to begin with. -/
theorem walAppend_full (full : wm.records.length ≥ WAL_MAX_RECORDS) {slot : Nat}
    (next : slot = if wm.isCircular then wm.writePos else 0) :
    ∃ prevLsn, walAppend wm rec = { wm with
      records := wm.records.set slot { rec with lsn := wm.nextLsn, prevLsn }
      writePos := (slot + 1) % WAL_MAX_RECORDS
      isCircular := true
      nextLsn := wm.nextLsn + 1 } := by
  obtain ⟨records, nextLsn, flushedLsn, checkpointLsn, writePos, flushPos, isCircular⟩ := wm
  subst next
  cases isCircular with
  | true =>
    refine ⟨(records[writePos]?.map (·.lsn)).getD 0, ?_⟩
    simp only [walAppend, Bool.not_true, Bool.false_eq_true, and_false, if_false, full, true_and, if_true]
  | false =>
    refine ⟨(records[0]?.map (·.lsn)).getD 0, ?_⟩
    simp only [walAppend, Bool.not_false, full, and_self, if_true, Bool.false_eq_true, if_false]

end Append

def walFlush (wm : WALManager) : WALManager :=
  if wm.writePos = wm.flushPos ∧ wm.flushedLsn ≥ wm.nextLsn - 1 then wm
  else { wm with flushedLsn := wm.nextLsn - 1, flushPos := wm.writePos }

/-- The table of `wal_analyze_pass`: ids seen, and whether they have ended. -/
structure WALAnalysis where
  txns : List (Int × Bool)
  firstUndoneLsn : Int

def WALRecord.ends (rec : WALRecord) : Bool := rec.type = .commit || rec.type = .abort

/-- The search for the id, which enters it if it is new, positive and there is space. -/
def walTrackTxn (maxTxn : Nat) (txns : List (Int × Bool)) (txnId : Int) : List (Int × Bool) :=
  if (Table.find Prod.fst txns txnId).isNone ∧ txns.length < maxTxn ∧ txnId > 0 then txns ++ [(txnId, false)] else txns

def walEndTxn (txns : List (Int × Bool)) (rec : WALRecord) : List (Int × Bool) :=
  if rec.ends then Table.update Prod.fst txns rec.txnId fun txn => (txn.1, true) else txns

/-- One pass of the loop in `wal_analyze_pass`. -/
def walAnalyzeRecord (maxTxn : Nat) (analysis : WALAnalysis) (rec : WALRecord) : WALAnalysis :=
  let txns := walEndTxn (walTrackTxn maxTxn analysis.txns rec.txnId) rec
  { txns
    firstUndoneLsn :=
      match Table.find Prod.fst txns rec.txnId with
      | none => analysis.firstUndoneLsn
      | some txn => if !txn.2 ∧ rec.lsn < analysis.firstUndoneLsn then rec.lsn else analysis.firstUndoneLsn }

theorem walAnalyzeRecord_txns (maxTxn : Nat) (analysis : WALAnalysis) (rec : WALRecord) :
    (walAnalyzeRecord maxTxn analysis rec).txns = walEndTxn (walTrackTxn maxTxn analysis.txns rec.txnId) rec := rfl

/-- The ids of the unfinished transactions, and the first log sequence number to undo. -/
def walAnalyzePass (wm : WALManager) (maxTxn : Nat) : List Int × Int :=
  let analysis := wm.records.foldl (walAnalyzeRecord maxTxn) ⟨[], INT64_MAX⟩
  (((analysis.txns.filter fun txn => !txn.2).map (·.1)).take maxTxn, analysis.firstUndoneLsn)

section Passes

variable {Ctx : Type}

/-- One pass of the loop in `wal_redo_pass`. -/
def walRedoRecord (startLsn : Int) (apply : Ctx → CString → Option CString → Int → Ctx)
    (state : Ctx × Nat) (rec : WALRecord) : Ctx × Nat :=
  if rec.lsn < startLsn then state
  else match rec.type with
  | .insert => (apply state.1 rec.key (some rec.newValue) rec.lsn, state.2 + 1)
  | .update => (apply state.1 rec.key (some rec.newValue) rec.lsn, state.2 + 1)
  | .delete => (apply state.1 rec.key none rec.lsn, state.2 + 1)
  | _ => state

def walRedoPass (wm : WALManager) (startLsn : Int) (apply : Ctx → CString → Option CString → Int → Ctx) (ctx : Ctx) :
    Ctx × Nat :=
  wm.records.foldl (walRedoRecord startLsn apply) (ctx, 0)

/-- One pass of the loop in `wal_undo_pass`. -/
def walUndoRecord (losers : List Int) (rollback : Ctx → CString → Option CString → Int → Ctx)
    (state : Ctx × Nat) (rec : WALRecord) : Ctx × Nat :=
  if rec.txnId ∉ losers then state
  else match rec.type with
  | .insert => (rollback state.1 rec.key none rec.lsn, state.2 + 1)
  | .update => (rollback state.1 rec.key (some rec.oldValue) rec.lsn, state.2 + 1)
  | .delete => (rollback state.1 rec.key (some rec.oldValue) rec.lsn, state.2 + 1)
  | _ => state

def walUndoPass (wm : WALManager) (losers : List Int) (rollback : Ctx → CString → Option CString → Int → Ctx)
    (ctx : Ctx) : Ctx × Nat :=
  wm.records.reverse.foldl (walUndoRecord losers rollback) (ctx, 0)

/-- The size of the losers' array in `wal_recover`. -/
def WAL_MAX_LOSERS : Nat := 64

def walRecover (wm : WALManager) (redoFn undoFn : Ctx → CString → Option CString → Int → Ctx) (ctx : Ctx) (now : Int) :
    WALManager × Ctx :=
  let start := if wm.checkpointLsn > 0 then wm.checkpointLsn else 1
  let (ctx, _) := walRedoPass wm start redoFn ctx
  let (losers, _) := walAnalyzePass wm WAL_MAX_LOSERS
  let ctx := if losers.length > 0 then (walUndoPass wm losers undoFn ctx).1 else ctx
  let wm := losers.foldl (fun wm txnId => walAppend wm (walRecordInit .abort txnId none none none now)) wm
  (walFlush wm, ctx)

theorem walUndoPass_nil (wm : WALManager) (rollback : Ctx → CString → Option CString → Int → Ctx) (ctx : Ctx) :
    walUndoPass wm [] rollback ctx = (ctx, 0) := by
  unfold walUndoPass
  induction wm.records.reverse with
  | nil => rfl
  | cons rec rest ih => exact ih

/-- The undo pass may as well run without losers. -/
theorem walRecover_ctx (wm : WALManager) (redoFn undoFn : Ctx → CString → Option CString → Int → Ctx) (ctx : Ctx)
    (now : Int) :
    (walRecover wm redoFn undoFn ctx now).2 =
      (walUndoPass wm (walAnalyzePass wm WAL_MAX_LOSERS).1 undoFn
        (walRedoPass wm (if wm.checkpointLsn > 0 then wm.checkpointLsn else 1) redoFn ctx).1).1 := by
  by_cases any : (walAnalyzePass wm WAL_MAX_LOSERS).1.length > 0
  · simp only [walRecover, any, if_true]
  · have nobody : (walAnalyzePass wm WAL_MAX_LOSERS).1 = [] :=
      List.length_eq_zero_iff.mp (Nat.eq_zero_of_not_pos any)
    rw [nobody, walUndoPass_nil]
    simp only [walRecover, any, if_false]

end Passes

end MiniNetDist.Transaction.Wal
