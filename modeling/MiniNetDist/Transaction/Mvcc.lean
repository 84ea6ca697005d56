import MiniNetDist.Library.Table

/-! The multi-version store of `mini-dist-transaction/src/mvcc.c`. A record keeps
its versions newest first, as `head` and the `prev` pointers do. A transaction
holds the strings its key pointers point to, and timestamps count up from one. -/

namespace MiniNetDist.Transaction.Mvcc

open Library

def MVCC_MAX_KEYS : Nat := 128
def MVCC_MAX_VERSIONS : Nat := 1024
def MVCC_MAX_TXN : Nat := 64
def MVCC_KEY_LEN : Nat := 32
def MVCC_VAL_LEN : Nat := 128

inductive MVCCTxnStatus where
  | active
  | committed
  | aborted
  deriving DecidableEq, Repr

inductive MVCCRecStatus where
  | init
  | committed
  | aborted
  deriving DecidableEq, Repr

structure MVCCVersion where
  txnId : Int
  commitTs : Int
  value : CString
  status : MVCCRecStatus
  deriving DecidableEq

structure MVCCRecord where
  key : CString
  chain : List MVCCVersion
  versionCount : Int

/-- `writes` pairs `write_keys` with `write_vals`. -/
structure MVCCTransaction where
  txnId : Int
  readTs : Int
  commitTs : Int
  status : MVCCTxnStatus
  readKeys : List CString
  writes : List (CString × CString)

structure MVCCStore where
  records : List MVCCRecord
  versionCount : Nat
  globalTs : Int
  activeTxns : List MVCCTransaction

def mvccStoreInit : MVCCStore := ⟨[], 0, 1, []⟩

def mvccVersionInit (txnId commitTs : Int) (value : CString) (status : MVCCRecStatus) : MVCCVersion :=
  ⟨txnId, commitTs, strncpy value (MVCC_VAL_LEN - 1), status⟩

def mvccRecordInit (key : CString) : MVCCRecord := ⟨strncpy key (MVCC_KEY_LEN - 1), [], 0⟩

def mvccTxnInit (txnId : Int) : MVCCTransaction := ⟨txnId, 0, 0, .active, [], []⟩

def mvccAllocateTs (store : MVCCStore) : MVCCStore × Int :=
  ({ store with globalTs := store.globalTs + 1 }, store.globalTs)

/-- The transaction begun, unless the table of active ones is full. -/
def mvccTxnBegin (store : MVCCStore) (txnId : Int) : MVCCStore × Option MVCCTransaction :=
  if store.activeTxns.length ≥ MVCC_MAX_TXN then (store, none)
  else
    let (store, readTs) := mvccAllocateTs store
    let txn := { mvccTxnInit txnId with readTs := readTs }
    ({ store with activeTxns := store.activeTxns ++ [txn] }, some txn)

/-- The versions of the first record with the key, newest first. -/
def mvccChain (store : MVCCStore) (key : CString) : List MVCCVersion :=
  ((Table.find MVCCRecord.key store.records key).map (·.chain)).getD []

def mvccVersionChainHead (store : MVCCStore) (key : CString) : Option MVCCVersion :=
  (mvccChain store key).head?

def mvccVisibleVersion (store : MVCCStore) (key : CString) (readTs : Int) : Option MVCCVersion :=
  (mvccChain store key).find? fun version => version.status = .committed ∧ version.commitTs ≤ readTs

/-- The index of the record with the key, new at the end if there is room. -/
def mvccFindOrCreateRecord (store : MVCCStore) (key : CString) : MVCCStore × Option Nat :=
  match Table.position MVCCRecord.key store.records key with
  | some idx => (store, some idx)
  | none =>
    if store.records.length ≥ MVCC_MAX_KEYS then (store, none)
    else ({ store with records := store.records ++ [mvccRecordInit key] }, some store.records.length)

/-- `mvcc_link_version`, for a record. -/
def MVCCRecord.push (version : MVCCVersion) (rec : MVCCRecord) : MVCCRecord :=
  { rec with chain := version :: rec.chain, versionCount := rec.versionCount + 1 }

def mvccVersionChainAppend (store : MVCCStore) (key : CString) (version : MVCCVersion) : MVCCStore :=
  match mvccFindOrCreateRecord store key with
  | (store, none) => store
  | (store, some idx) =>
    if store.versionCount ≥ MVCC_MAX_VERSIONS then store
    else { store with
      records := store.records.modify idx (·.push version)
      versionCount := store.versionCount + 1 }

/-- The values read and, if a version was found, the read recorded. `none` stands
for a read that returns false with an empty value. -/
def mvccSnapshotRead (store : MVCCStore) (txn : MVCCTransaction) (key : CString) :
    MVCCTransaction × Option CString :=
  match Table.find Prod.fst txn.writes key with
  | some write => (txn, some (strncpy write.2 (MVCC_VAL_LEN - 1)))
  | none =>
    match mvccVisibleVersion store key txn.readTs with
    | none => (txn, none)
    | some version =>
      ({ txn with readKeys :=
          if txn.readKeys.length < MVCC_MAX_KEYS then txn.readKeys ++ [key] else txn.readKeys },
        some (strncpy version.value (MVCC_VAL_LEN - 1)))

def mvccPrepareWrite (txn : MVCCTransaction) (key value : CString) : MVCCTransaction × Bool :=
  if txn.status ≠ .active then (txn, false)
  else if txn.writes.length ≥ MVCC_MAX_KEYS then (txn, false)
  else if (Table.find Prod.fst txn.writes key).isSome then
    ({ txn with writes := Table.update Prod.fst txn.writes key fun write =>
        (write.1, strncpy value (MVCC_VAL_LEN - 1)) }, true)
  else ({ txn with writes := txn.writes ++ [(key, strncpy value (MVCC_VAL_LEN - 1))] }, true)

/-- The check for one key: no version newer than the transaction's snapshot. -/
def mvccUnchanged (store : MVCCStore) (txn : MVCCTransaction) (key : CString) : Bool :=
  match mvccVersionChainHead store key with
  | some head => !decide (head.commitTs > txn.readTs)
  | none => true

def mvccValidateWriteSet (store : MVCCStore) (txn : MVCCTransaction) : Bool :=
  txn.writes.all fun write => mvccUnchanged store txn write.1

def MVCCVersion.commit (commitTs : Int) (version : MVCCVersion) : MVCCVersion :=
  { version with status := .committed, commitTs := commitTs }

def MVCCRecord.patch (commitTs : Int) (rec : MVCCRecord) : MVCCRecord :=
  { rec with chain := rec.chain.modifyHead (·.commit commitTs) }

/-- One pass of the loop in `mvcc_txn_commit`: append a version, then mark whatever
is now the head of the key's chain as committed. -/
def mvccInstall (txn : MVCCTransaction) (store : MVCCStore) (write : CString × CString) : MVCCStore :=
  let store := mvccVersionChainAppend store write.1 (mvccVersionInit txn.txnId txn.commitTs write.2 .init)
  { store with records := Table.update MVCCRecord.key store.records write.1 (·.patch txn.commitTs) }

/-- Drop the first entry of the active table with the transaction's id. -/
def mvccRemoveActive (store : MVCCStore) (txnId : Int) : MVCCStore :=
  { store with activeTxns := store.activeTxns.eraseP fun other => other.txnId = txnId }

def mvccTxnAbort (store : MVCCStore) (txn : MVCCTransaction) : MVCCStore × MVCCTransaction :=
  (mvccRemoveActive store txn.txnId, { txn with status := .aborted })

def mvccTxnCommit (store : MVCCStore) (txn : MVCCTransaction) : MVCCStore × MVCCTransaction × Bool :=
  if txn.status ≠ .active then (store, txn, false)
  else
    let (store, commitTs) := mvccAllocateTs store
    let txn := { txn with commitTs := commitTs }
    if mvccValidateWriteSet store txn then
      (mvccRemoveActive (txn.writes.foldl (mvccInstall txn) store) txn.txnId,
        { txn with status := .committed }, true)
    else
      let (store, txn) := mvccTxnAbort store txn
      (store, txn, false)

/-- The versions behind the head that are older than the oldest snapshot. -/
def MVCCRecord.removable (oldestActiveTs : Int) (rec : MVCCRecord) : Nat :=
  rec.chain.tail.countP fun version => version.commitTs < oldestActiveTs

/-- The body of the loop in `mvcc_gc_old_versions`: only the counter changes, no
version is unlinked. -/
def MVCCRecord.discount (oldestActiveTs : Int) (rec : MVCCRecord) : MVCCRecord :=
  { rec with versionCount := rec.versionCount - rec.removable oldestActiveTs }

def mvccGcOldVersions (store : MVCCStore) (oldestActiveTs : Int) : MVCCStore × Nat :=
  ({ store with records := store.records.map (·.discount oldestActiveTs) },
    store.records.foldl (fun removed rec => removed + rec.removable oldestActiveTs) 0)

/-- One of the reader's recorded reads is in the writer's write set. -/
def mvccReadsFrom (reader writer : MVCCTransaction) : Bool :=
  reader.readKeys.any fun key => writer.writes.any fun write => key = write.1

def mvccSerializableSiValidation (store : MVCCStore) (txn : MVCCTransaction) : Bool :=
  mvccValidateWriteSet store txn && store.activeTxns.all fun other =>
    other.txnId = txn.txnId || other.status = .aborted ||
      !(mvccReadsFrom other txn && mvccReadsFrom txn other)

/-- A commit that returned true. -/
structure MVCCCommit where
  txn : Nat
  txnId : Int
  readTs : Int
  commitTs : Int
  writes : List (CString × CString)

/-- The store, all transactions begun on it in order, its commits, newest first, and
who has read which key. -/
structure MVCCSystem where
  store : MVCCStore
  txns : List MVCCTransaction
  commits : List MVCCCommit
  reads : List (Nat × CString)

def mvccSystemInit : MVCCSystem := ⟨mvccStoreInit, [], [], []⟩

/-- The calls of the interleaved transactions; `txn` numbers them as they begin. -/
inductive MVCCCall where
  | begin (txnId : Int)
  | prepareWrite (txn : Nat) (key value : CString)
  | snapshotRead (txn : Nat) (key : CString)
  | commit (txn : Nat)
  | abort (txn : Nat)
  | gc (oldestActiveTs : Int)

def mvccStep (sys : MVCCSystem) : MVCCCall → MVCCSystem
  | .begin txnId =>
    let (store, txn) := mvccTxnBegin sys.store txnId
    { sys with store, txns := sys.txns ++ txn.toList }
  | .prepareWrite t key value =>
    match sys.txns[t]? with
    | none => sys
    | some txn => { sys with txns := sys.txns.set t (mvccPrepareWrite txn key value).1 }
  | .snapshotRead t key =>
    match sys.txns[t]? with
    | none => sys
    | some txn => { sys with
      txns := sys.txns.set t (mvccSnapshotRead sys.store txn key).1
      reads := (t, key) :: sys.reads }
  | .commit t =>
    match sys.txns[t]? with
    | none => sys
    | some txn =>
      let (store, txn, ok) := mvccTxnCommit sys.store txn
      { sys with
        store
        txns := sys.txns.set t txn
        commits := if ok then ⟨t, txn.txnId, txn.readTs, txn.commitTs, txn.writes⟩ :: sys.commits
          else sys.commits }
  | .abort t =>
    match sys.txns[t]? with
    | none => sys
    | some txn =>
      let (store, txn) := mvccTxnAbort sys.store txn
      { sys with store, txns := sys.txns.set t txn }
  | .gc oldestActiveTs => { sys with store := (mvccGcOldVersions sys.store oldestActiveTs).1 }

end MiniNetDist.Transaction.Mvcc
