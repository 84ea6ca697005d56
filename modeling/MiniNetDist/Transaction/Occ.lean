import MiniNetDist.Library.Serial
import MiniNetDist.Library.Table

/-! Optimistic concurrency control, `mini-dist-transaction/src/occ.c`: reads note the
version they saw, writes are buffered, and a commit validates the noted versions before
it installs the buffer. Transactions live with their callers; the manager keeps only the
copies it made when they began. -/

namespace MiniNetDist.Transaction.Occ

open Library

def OCC_MAX_KEYS : Nat := 64
def OCC_MAX_TXN : Nat := 32
def OCC_KEY_LEN : Nat := 32
def OCC_VAL_LEN : Nat := 128

inductive OCCTxnPhase where
  | readPhase
  | validatePhase
  | writePhase
  | committed
  | aborted
  deriving DecidableEq, Repr

structure OCCReadEntry where
  key : CString
  versionAtRead : Int

structure OCCWriteEntry where
  key : CString
  value : CString

structure OCCTransaction where
  txnId : Int
  phase : OCCTxnPhase
  startTs : Int
  commitTs : Int
  readSet : List OCCReadEntry
  writeSet : List OCCWriteEntry
  abortCount : Nat

structure OCCRecord where
  key : CString
  value : CString
  version : Int
  lastCommittedTs : Int

structure OCCManager where
  records : List OCCRecord
  globalVersion : Int
  activeTxns : List OCCTransaction
  lowWatermark : Int
  highWatermark : Int

def occManagerInit : OCCManager := ⟨[], 1, [], 1, 1⟩

def occRecordInit (key value : CString) (version : Int) : OCCRecord :=
  ⟨strncpy key (OCC_KEY_LEN - 1), strncpy value (OCC_VAL_LEN - 1), version, version⟩

def occTxnInit (txnId : Int) : OCCTransaction := ⟨txnId, .readPhase, 0, 0, [], [], 0⟩

def occFindRecord (mgr : OCCManager) (key : CString) : Option OCCRecord :=
  Table.find OCCRecord.key mgr.records key

/-- The index of the record with the key, new at the end if there is room. -/
def occEnsureRecord (mgr : OCCManager) (key initVal : CString) : OCCManager × Option Nat :=
  match Table.position OCCRecord.key mgr.records key with
  | some idx => (mgr, some idx)
  | none =>
    if mgr.records.length ≥ OCC_MAX_KEYS then (mgr, none)
    else ({ mgr with records := mgr.records ++ [occRecordInit key initVal 0] }, some mgr.records.length)

/-- The transaction begun, unless the table of active ones is full. -/
def occTxnBegin (mgr : OCCManager) (txnId : Int) : OCCManager × Option OCCTransaction :=
  if mgr.activeTxns.length ≥ OCC_MAX_TXN then (mgr, none)
  else
    let txn := { occTxnInit txnId with startTs := mgr.globalVersion }
    ({ mgr with
      globalVersion := mgr.globalVersion + 1
      activeTxns := mgr.activeTxns ++ [txn] }, some txn)

/-- The value and version read, or `none` for a read that returns false. -/
def occTxnRead (mgr : OCCManager) (txn : OCCTransaction) (key : CString) :
    OCCManager × OCCTransaction × Option (CString × Int) :=
  if txn.phase ≠ .readPhase then (mgr, txn, none)
  else match Table.find OCCWriteEntry.key txn.writeSet key with
  | some entry => (mgr, txn, some (strncpy entry.value (OCC_VAL_LEN - 1), -1))
  | none =>
    let (mgr, idx) := occEnsureRecord mgr key []
    match idx.bind fun idx => mgr.records[idx]? with
    | none => (mgr, txn, none)
    | some rec =>
      (mgr,
        { txn with readSet :=
            -- a full read set drops the entry, and the read succeeds all the same
            if txn.readSet.length < OCC_MAX_KEYS then
              txn.readSet ++ [⟨strncpy key (OCC_KEY_LEN - 1), rec.version⟩]
            else txn.readSet },
        some (strncpy rec.value (OCC_VAL_LEN - 1), rec.version))

def OCCWriteEntry.put (value : CString) (entry : OCCWriteEntry) : OCCWriteEntry :=
  { entry with value := strncpy value (OCC_VAL_LEN - 1) }

def occTxnWrite (txn : OCCTransaction) (key value : CString) : OCCTransaction × Bool :=
  if txn.phase ≠ .readPhase then (txn, false)
  else if txn.writeSet.length ≥ OCC_MAX_KEYS then (txn, false)
  else if (Table.find OCCWriteEntry.key txn.writeSet key).isSome then
    ({ txn with writeSet := Table.update OCCWriteEntry.key txn.writeSet key (·.put value) }, true)
  else
    ({ txn with writeSet := txn.writeSet ++
        [⟨strncpy key (OCC_KEY_LEN - 1), strncpy value (OCC_VAL_LEN - 1)⟩] }, true)

/-- The check for one read: the record has not moved past the version noted. -/
def occUnchanged (mgr : OCCManager) (entry : OCCReadEntry) : Bool :=
  match occFindRecord mgr entry.key with
  | some rec => !decide (rec.version > entry.versionAtRead)
  | none => true

def occBackwardValidation (mgr : OCCManager) (txn : OCCTransaction) : Bool :=
  txn.readSet.all (occUnchanged mgr)

def occForwardValidation (mgr : OCCManager) (txn : OCCTransaction) : Bool :=
  mgr.activeTxns.all fun other =>
    other.txnId = txn.txnId || other.phase = .aborted ||
      !txn.writeSet.any fun write => other.readSet.any fun read => write.key = read.key

def occTxnValidate (mgr : OCCManager) (txn : OCCTransaction) : OCCTransaction × Bool :=
  let txn := { txn with phase := .validatePhase }
  if !occBackwardValidation mgr txn then ({ txn with phase := .aborted }, false)
  else if !occForwardValidation mgr txn then ({ txn with phase := .aborted }, false)
  else ({ txn with phase := .writePhase }, true)

def OCCRecord.put (value : CString) (commitTs : Int) (rec : OCCRecord) : OCCRecord :=
  { rec with
    value := strncpy value (OCC_VAL_LEN - 1)
    version := commitTs
    lastCommittedTs := commitTs }

/-- One pass of the loop in `occ_txn_commit`. -/
def occInstall (commitTs : Int) (mgr : OCCManager) (write : OCCWriteEntry) : OCCManager :=
  match occEnsureRecord mgr write.key write.value with
  | (mgr, none) => mgr
  | (mgr, some idx) => { mgr with records := mgr.records.modify idx (·.put write.value commitTs) }

def occAdvanceWatermarks (mgr : OCCManager) : OCCManager :=
  { mgr with lowWatermark := mgr.highWatermark, highWatermark := mgr.globalVersion }

def occTxnCommit (mgr : OCCManager) (txn : OCCTransaction) : OCCManager × OCCTransaction × Bool :=
  match occTxnValidate mgr txn with
  | (txn, false) => (mgr, { txn with phase := .aborted }, false)
  | (txn, true) =>
    let txn := { txn with commitTs := mgr.globalVersion }
    let mgr := { mgr with globalVersion := mgr.globalVersion + 1 }
    let mgr := txn.writeSet.foldl (occInstall txn.commitTs) mgr
    (occAdvanceWatermarks mgr, { txn with phase := .committed }, true)

def occTxnAbort (txn : OCCTransaction) : OCCTransaction :=
  { txn with phase := .aborted, abortCount := txn.abortCount + 1 }

/-- A transaction as its caller sees it: the accesses that returned true, with the values
read and the values stored, and whether a commit returned true. -/
structure OCCSession where
  txn : OCCTransaction
  accesses : List (Access CString CString)
  committed : Bool

def OCCSession.read (key : CString) (mgr : OCCManager) (session : OCCSession) : OCCManager × OCCSession :=
  let (mgr, txn, result) := occTxnRead mgr session.txn key
  (mgr, { session with
    txn
    accesses := session.accesses ++ (result.map fun result => .read key result.1).toList })

def OCCSession.write (key value : CString) (mgr : OCCManager) (session : OCCSession) : OCCManager × OCCSession :=
  let (txn, ok) := occTxnWrite session.txn key value
  (mgr, { session with
    txn
    accesses := session.accesses ++ if ok then [.write key (strncpy value (OCC_VAL_LEN - 1))] else [] })

def OCCSession.commit (mgr : OCCManager) (session : OCCSession) : OCCManager × OCCSession :=
  let (mgr, txn, ok) := occTxnCommit mgr session.txn
  (mgr, { session with txn, committed := session.committed || ok })

def OCCSession.abort (mgr : OCCManager) (session : OCCSession) : OCCManager × OCCSession :=
  (mgr, { session with txn := occTxnAbort session.txn })

structure OCCSystem where
  mgr : OCCManager
  sessions : List OCCSession

def occSystemInit : OCCSystem := ⟨occManagerInit, []⟩

/-- The calls of the interleaved transactions; `txn` numbers them as they begin. -/
inductive OCCCall where
  | begin (txnId : Int)
  | read (txn : Nat) (key : CString)
  | write (txn : Nat) (key value : CString)
  | commit (txn : Nat)
  | abort (txn : Nat)

def OCCSystem.on (sys : OCCSystem) (t : Nat)
    (call : OCCManager → OCCSession → OCCManager × OCCSession) : OCCSystem :=
  match sys.sessions[t]? with
  | none => sys
  | some session =>
    let (mgr, session) := call sys.mgr session
    ⟨mgr, sys.sessions.set t session⟩

def occStep (sys : OCCSystem) : OCCCall → OCCSystem
  | .begin txnId =>
    let (mgr, txn) := occTxnBegin sys.mgr txnId
    ⟨mgr, sys.sessions ++ (txn.map fun txn => ⟨txn, [], false⟩).toList⟩
  | .read t key => sys.on t (OCCSession.read key)
  | .write t key value => sys.on t (OCCSession.write key value)
  | .commit t => sys.on t OCCSession.commit
  | .abort t => sys.on t OCCSession.abort

end MiniNetDist.Transaction.Occ
