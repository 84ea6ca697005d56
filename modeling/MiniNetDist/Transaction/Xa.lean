import Mathlib.Data.List.Basic

/-! XA transactions, `mini-dist-transaction/src/xa.c`. A resource manager is the codes its
callbacks return; a callback that is missing counts as one that returns `XA_OK`, as in the
loops of the source. Every operation also gives the trace of what it asked of whom. -/

namespace MiniNetDist.Transaction.Xa

def XA_MAX_RMS : Nat := 8

def XA_OK : Int := 0
def XA_RDONLY : Int := 3
def XA_HEURHAZ : Int := 8
def XAER_PROTO : Int := -4

inductive XATxnState where
  | active
  | idle
  | prepared
  | committed
  | rolledBack
  | heuristic
  deriving DecidableEq, Repr

structure XID where
  formatId : Int
  gtridLen : Nat
  bqualLen : Nat
  data : List UInt8
  deriving DecidableEq, Repr

structure XAResourceManager where
  xaStart : Option (XID → Int → Int)
  xaEnd : Option (XID → Int → Int)
  xaPrepare : Option (XID → Int)
  xaCommit : Option (XID → Bool → Int)
  xaRollback : Option (XID → Int)

structure XATransaction where
  rms : List XAResourceManager
  state : XATxnState
  currentXid : XID

inductive XAOperation where
  | start
  | finish
  | prepare
  | commit
  | rollback
  deriving DecidableEq, Repr

/-- The operation asked of the manager at this place, and the code it gave. -/
structure XAEvent where
  operation : XAOperation
  rm : Nat
  code : Int
  deriving DecidableEq, Repr

namespace XAResourceManager

def startCode (xid : XID) (rm : XAResourceManager) : Int := rm.xaStart.elim XA_OK (· xid 0)
def endCode (xid : XID) (rm : XAResourceManager) : Int := rm.xaEnd.elim XA_OK (· xid 0)
def prepareCode (xid : XID) (rm : XAResourceManager) : Int := rm.xaPrepare.elim XA_OK (· xid)
def commitCode (xid : XID) (rm : XAResourceManager) : Int := rm.xaCommit.elim XA_OK (· xid false)
def rollbackCode (xid : XID) (rm : XAResourceManager) : Int := rm.xaRollback.elim XA_OK (· xid)

end XAResourceManager

def xidZero : XID := ⟨0, 0, 0, List.replicate 64 0⟩

def xaTransactionInit : XATransaction := ⟨[], .idle, xidZero⟩

def xaEnlistRm (txn : XATransaction) (rm : XAResourceManager) : XATransaction × Bool :=
  if txn.rms.length ≥ XA_MAX_RMS then (txn, false) else ({ txn with rms := txn.rms ++ [rm] }, true)

/-- A loop that asks every manager, whatever they answer. -/
def askAll (operation : XAOperation) (code : XAResourceManager → Int) (rms : List XAResourceManager) :
    List XAEvent :=
  rms.zipIdx.map fun (rm, i) => ⟨operation, i, code rm⟩

/-- The loop of `xa_start` from the `i`-th manager on, left at the first negative code. -/
def xaStartFrom (xid : XID) (i : Nat) : List XAResourceManager → List XAEvent × Bool
  | [] => ([], true)
  | rm :: rest =>
    let event := ⟨.start, i, rm.startCode xid⟩
    if rm.startCode xid < 0 then ([event], false)
    else
      let (trace, ok) := xaStartFrom xid (i + 1) rest
      (event :: trace, ok)

def xaStart (txn : XATransaction) (xid : Option XID) : XATransaction × List XAEvent × Bool :=
  if txn.state ≠ .idle then (txn, [], false)
  else
    let txn := { txn with state := .active, currentXid := xid.getD txn.currentXid }
    (txn, xaStartFrom txn.currentXid 0 txn.rms)

def xaEnd (txn : XATransaction) : XATransaction × List XAEvent × Bool :=
  if txn.state ≠ .active then (txn, [], false)
  else ({ txn with state := .idle }, askAll .finish (·.endCode txn.currentXid) txn.rms, true)

/-- The loop of `xa_prepare_all`, left with `-(i + 1)` at the first vote that is not a yes. -/
def xaPrepareFrom (xid : XID) (i : Nat) (ok : Int) : List XAResourceManager → List XAEvent × Int
  | [] => ([], ok)
  | rm :: rest =>
    let rc := rm.prepareCode xid
    let event := ⟨.prepare, i, rc⟩
    if rc = XA_OK ∨ rc = XA_RDONLY then
      let (trace, result) := xaPrepareFrom xid (i + 1) (ok + 1) rest
      (event :: trace, result)
    else ([event], -(i + 1))

def xaPrepareAll (txn : XATransaction) : XATransaction × List XAEvent × Int :=
  let (trace, ok) := xaPrepareFrom txn.currentXid 0 0 txn.rms
  ({ txn with state := if ok = txn.rms.length then .prepared else txn.state }, trace, ok)

def xaCommitAll (txn : XATransaction) : XATransaction × List XAEvent × Int :=
  if txn.state ≠ .prepared then (txn, [], XAER_PROTO)
  else
    let codes := txn.rms.map (·.commitCode txn.currentXid)
    let heuristic := codes.any fun rc => rc ≠ XA_OK && rc ≥ XA_HEURHAZ
    ({ txn with state := if heuristic then .heuristic else .committed },
      askAll .commit (·.commitCode txn.currentXid) txn.rms, codes.count XA_OK)

def xaRollbackAll (txn : XATransaction) : XATransaction × List XAEvent × Int :=
  ({ txn with state := .rolledBack }, askAll .rollback (·.rollbackCode txn.currentXid) txn.rms,
    (txn.rms.map (·.rollbackCode txn.currentXid)).count XA_OK)

def xaTwoPhaseExecute (txn : XATransaction) (xid : Option XID) : XATransaction × List XAEvent × Bool :=
  let (txn, started, ok) := xaStart txn xid
  if !ok then (txn, started, false)
  else
    let (txn, ended, _) := xaEnd txn
    let (txn, prepared, votes) := xaPrepareAll txn
    if votes = txn.rms.length then
      let (txn, committed, _) := xaCommitAll txn
      (txn, started ++ ended ++ prepared ++ committed, true)
    else
      let (txn, rolledBack, _) := xaRollbackAll txn
      (txn, started ++ ended ++ prepared ++ rolledBack, false)

/-- A fresh transaction with these managers enlisted. -/
def xaEnlisted (rms : List XAResourceManager) : XATransaction :=
  rms.foldl (fun txn rm => (xaEnlistRm txn rm).1) xaTransactionInit

/-- Every manager voted yes and committed, or every manager that was started was rolled back.
`readOnly` tells at which places the code 3 is a read-only vote and not a deadlock. -/
structure AtomicOutcome (readOnly : Nat → Prop) (run : XATransaction × List XAEvent × Bool) : Prop where
  committed : run.2.2 = true → ∀ i < run.1.rms.length,
    (∃ event ∈ run.2.1, event.operation = .prepare ∧ event.rm = i ∧
      (event.code = XA_OK ∨ event.code = XA_RDONLY ∧ readOnly i)) ∧
    ∃ event ∈ run.2.1, event.operation = .commit ∧ event.rm = i ∧ event.code = XA_OK
  rolledBack : run.2.2 = false → run.1.state = .rolledBack ∧
    ∀ event ∈ run.2.1, event.operation = .start → 0 ≤ event.code →
      ∃ undo ∈ run.2.1, undo.operation = .rollback ∧ undo.rm = event.rm

/-- The codes for which the outcome is atomic. -/
def CodesAtomic (readOnly : Nat → Prop) (xid : XID) (rms : List XAResourceManager) : Prop :=
  (∀ rm ∈ rms, 0 ≤ rm.startCode xid) ∧
  ((∃ rm ∈ rms, ¬ (rm.prepareCode xid = XA_OK ∨ rm.prepareCode xid = XA_RDONLY)) ∨
    ∀ i rm, rms[i]? = some rm → (rm.prepareCode xid = XA_RDONLY → readOnly i) ∧ rm.commitCode xid = XA_OK)

section Loops

variable {xid : XID} {rms : List XAResourceManager} {event : XAEvent} {operation : XAOperation}
  {code : XAResourceManager → Int}

theorem mem_askAll : event ∈ askAll operation code rms ↔
    ∃ rm, rms[event.rm]? = some rm ∧ event = ⟨operation, event.rm, code rm⟩ := by
  unfold askAll
  rw [List.mem_map]
  constructor
  · rintro ⟨⟨rm, i⟩, inside, rfl⟩
    exact ⟨rm, List.mem_zipIdx_iff_getElem?.mp inside, rfl⟩
  · rintro ⟨rm, located, same⟩
    exact ⟨(rm, event.rm), List.mem_zipIdx_iff_getElem?.mpr located, same.symm⟩

/-- Only a negative code ends the start loop early. -/
theorem xaStartFrom_ok_iff (i : Nat) : (xaStartFrom xid i rms).2 = true ↔ ∀ rm ∈ rms, 0 ≤ rm.startCode xid := by
  induction rms generalizing i with
  | nil => simp [xaStartFrom]
  | cons rm rest ih =>
    rw [xaStartFrom, List.forall_mem_cons]
    by_cases failed : rm.startCode xid < 0
    · simp [failed, Int.not_le.mpr failed]
    · simp [failed, ih, Int.not_lt.mp failed]

theorem mem_xaStartFrom {i : Nat} (asked : event ∈ (xaStartFrom xid i rms).1) :
    event.operation = .start ∧ event.rm < i + rms.length := by
  induction rms generalizing i with
  | nil => cases asked
  | cons rm rest ih =>
    rw [xaStartFrom] at asked
    rw [List.length_cons]
    by_cases failed : rm.startCode xid < 0
    · rw [if_pos failed, List.mem_singleton] at asked
      subst asked
      exact ⟨rfl, by simp⟩
    · rw [if_neg failed] at asked
      rcases List.mem_cons.mp asked with rfl | later
      · exact ⟨rfl, by simp⟩
      · obtain ⟨started, bound⟩ := ih later
        exact ⟨started, by omega⟩

/-- Managers that all vote yes are all asked, and their number is returned. -/
theorem xaPrepareFrom_yes (i : Nat) (ok : Int)
    (yes : ∀ rm ∈ rms, rm.prepareCode xid = XA_OK ∨ rm.prepareCode xid = XA_RDONLY) :
    xaPrepareFrom xid i ok rms =
      ((rms.zipIdx i).map fun (rm, i) => ⟨.prepare, i, rm.prepareCode xid⟩, ok + rms.length) := by
  induction rms generalizing i ok with
  | nil => simp [xaPrepareFrom]
  | cons rm rest ih =>
    rw [List.forall_mem_cons] at yes
    rw [xaPrepareFrom, if_pos yes.1, ih (i + 1) (ok + 1) yes.2]
    refine Prod.ext ?_ ?_
    · simp
    · simp only [List.length_cons]
      omega

theorem xaPrepareFrom_no {i : Nat} {ok : Int}
    (no : ∃ rm ∈ rms, ¬ (rm.prepareCode xid = XA_OK ∨ rm.prepareCode xid = XA_RDONLY)) :
    (xaPrepareFrom xid i ok rms).2 < 0 := by
  induction rms generalizing i ok with
  | nil =>
    obtain ⟨rm, inside, -⟩ := no
    cases inside
  | cons rm rest ih =>
    rw [xaPrepareFrom]
    by_cases yes : rm.prepareCode xid = XA_OK ∨ rm.prepareCode xid = XA_RDONLY
    · rw [if_pos yes]
      obtain ⟨other, inside, refused⟩ := no
      rcases List.mem_cons.mp inside with rfl | later
      · exact absurd yes refused
      · exact ih ⟨other, later, refused⟩
    · rw [if_neg yes]
      dsimp only
      omega

theorem mem_xaPrepareFrom {i : Nat} {ok : Int} (asked : event ∈ (xaPrepareFrom xid i ok rms).1) :
    event.operation = .prepare := by
  induction rms generalizing i ok with
  | nil => cases asked
  | cons rm rest ih =>
    rw [xaPrepareFrom] at asked
    split_ifs at asked
    · rcases List.mem_cons.mp asked with rfl | later
      · rfl
      · exact ih later
    · rw [List.mem_singleton.mp asked]

theorem operation_of_mem_askAll (asked : event ∈ askAll operation code rms) : event.operation = operation := by
  obtain ⟨rm, -, same⟩ := mem_askAll.mp asked
  exact congrArg XAEvent.operation same

theorem askAll_asks {i : Nat} {rm : XAResourceManager} (located : rms[i]? = some rm) :
    ⟨operation, i, code rm⟩ ∈ askAll operation code rms :=
  mem_askAll.mpr ⟨rm, located, rfl⟩

end Loops

section Execute

variable {txn : XATransaction} (xid : Option XID)

/-- A refused start ends the execution with the transaction still active. -/
theorem xaTwoPhaseExecute_unstarted (idle : txn.state = .idle)
    (refused : ¬ ∀ rm ∈ txn.rms, 0 ≤ rm.startCode (xid.getD txn.currentXid)) :
    (xaTwoPhaseExecute txn xid).2.2 = false ∧ (xaTwoPhaseExecute txn xid).1.state = .active := by
  rw [← xaStartFrom_ok_iff 0, Bool.not_eq_true] at refused
  simp [xaTwoPhaseExecute, xaStart, idle, refused]

theorem xaTwoPhaseExecute_yes (idle : txn.state = .idle)
    (started : ∀ rm ∈ txn.rms, 0 ≤ rm.startCode (xid.getD txn.currentXid))
    (yes : ∀ rm ∈ txn.rms, rm.prepareCode (xid.getD txn.currentXid) = XA_OK ∨
      rm.prepareCode (xid.getD txn.currentXid) = XA_RDONLY) :
    (xaTwoPhaseExecute txn xid).2.2 = true ∧ (xaTwoPhaseExecute txn xid).1.rms = txn.rms ∧
    (xaTwoPhaseExecute txn xid).2.1 =
      (xaStartFrom (xid.getD txn.currentXid) 0 txn.rms).1 ++
      askAll .finish (·.endCode (xid.getD txn.currentXid)) txn.rms ++
      askAll .prepare (·.prepareCode (xid.getD txn.currentXid)) txn.rms ++
      askAll .commit (·.commitCode (xid.getD txn.currentXid)) txn.rms := by
  rw [← xaStartFrom_ok_iff 0] at started
  have voted := xaPrepareFrom_yes 0 0 yes
  simp [xaTwoPhaseExecute, xaStart, xaEnd, xaPrepareAll, xaCommitAll, idle, started, voted, askAll]

theorem xaTwoPhaseExecute_no (idle : txn.state = .idle)
    (started : ∀ rm ∈ txn.rms, 0 ≤ rm.startCode (xid.getD txn.currentXid))
    (no : ∃ rm ∈ txn.rms, ¬ (rm.prepareCode (xid.getD txn.currentXid) = XA_OK ∨
      rm.prepareCode (xid.getD txn.currentXid) = XA_RDONLY)) :
    (xaTwoPhaseExecute txn xid).2.2 = false ∧ (xaTwoPhaseExecute txn xid).1.state = .rolledBack ∧
    (xaTwoPhaseExecute txn xid).2.1 =
      (xaStartFrom (xid.getD txn.currentXid) 0 txn.rms).1 ++
      askAll .finish (·.endCode (xid.getD txn.currentXid)) txn.rms ++
      (xaPrepareFrom (xid.getD txn.currentXid) 0 0 txn.rms).1 ++
      askAll .rollback (·.rollbackCode (xid.getD txn.currentXid)) txn.rms := by
  rw [← xaStartFrom_ok_iff 0] at started
  have negative : (xaPrepareFrom (xid.getD txn.currentXid) 0 0 txn.rms).2 < 0 := xaPrepareFrom_no no
  have short : (xaPrepareFrom (xid.getD txn.currentXid) 0 0 txn.rms).2 ≠ txn.rms.length := by omega
  simp [xaTwoPhaseExecute, xaStart, xaEnd, xaPrepareAll, xaRollbackAll, idle, started, short]

/-- A vote against rolls every started manager back. -/
theorem atomicOutcome_no (readOnly : Nat → Prop) (idle : txn.state = .idle)
    (started : ∀ rm ∈ txn.rms, 0 ≤ rm.startCode (xid.getD txn.currentXid))
    (no : ∃ rm ∈ txn.rms, ¬ (rm.prepareCode (xid.getD txn.currentXid) = XA_OK ∨
      rm.prepareCode (xid.getD txn.currentXid) = XA_RDONLY)) :
    AtomicOutcome readOnly (xaTwoPhaseExecute txn xid) := by
  obtain ⟨failed, state, trace⟩ := xaTwoPhaseExecute_no xid idle started no
  refine ⟨fun ok => absurd (failed.symm.trans ok) Bool.false_ne_true, fun _ => ⟨state, ?_⟩⟩
  rw [trace]
  intro event asked start _
  simp only [List.mem_append] at asked
  rcases asked with ((asked | asked) | asked) | asked
  · obtain ⟨-, bound⟩ := mem_xaStartFrom asked
    rw [Nat.zero_add] at bound
    obtain ⟨rm, located⟩ : ∃ rm, txn.rms[event.rm]? = some rm := ⟨_, List.getElem?_eq_getElem bound⟩
    exact ⟨_, List.mem_append_right _ (askAll_asks located), rfl, rfl⟩
  · cases start.symm.trans (operation_of_mem_askAll asked)
  · cases start.symm.trans (mem_xaPrepareFrom asked)
  · cases start.symm.trans (operation_of_mem_askAll asked)

/-- Without a vote against, everything hangs on what the codes 3 meant and on the commits. -/
theorem atomicOutcome_yes_iff (readOnly : Nat → Prop) (idle : txn.state = .idle)
    (started : ∀ rm ∈ txn.rms, 0 ≤ rm.startCode (xid.getD txn.currentXid))
    (yes : ∀ rm ∈ txn.rms, rm.prepareCode (xid.getD txn.currentXid) = XA_OK ∨
      rm.prepareCode (xid.getD txn.currentXid) = XA_RDONLY) :
    AtomicOutcome readOnly (xaTwoPhaseExecute txn xid) ↔
      ∀ i rm, txn.rms[i]? = some rm →
        (rm.prepareCode (xid.getD txn.currentXid) = XA_RDONLY → readOnly i) ∧
        rm.commitCode (xid.getD txn.currentXid) = XA_OK := by
  obtain ⟨ok, rms, trace⟩ := xaTwoPhaseExecute_yes xid idle started yes
  constructor
  · intro atomic i rm located
    have inside : i < txn.rms.length := (List.getElem?_eq_some_iff.mp located).1
    obtain ⟨⟨vote, voted, prepare, rfl, meant⟩, ⟨commit, asked, committing, here, done⟩⟩ :=
      atomic.committed ok i (rms ▸ inside)
    rw [trace] at voted asked
    simp only [List.mem_append] at voted asked
    constructor
    · intro readOnlyCode
      rcases voted with ((voted | voted) | voted) | voted
      · cases prepare.symm.trans (mem_xaStartFrom voted).1
      · cases prepare.symm.trans (operation_of_mem_askAll voted)
      · obtain ⟨other, found, same⟩ := mem_askAll.mp voted
        rw [located] at found
        cases found
        rw [same, readOnlyCode] at meant
        rcases meant with zero | ⟨-, genuine⟩
        · cases zero
        · exact genuine
      · cases prepare.symm.trans (operation_of_mem_askAll voted)
    · rcases asked with ((asked | asked) | asked) | asked
      · cases committing.symm.trans (mem_xaStartFrom asked).1
      · cases committing.symm.trans (operation_of_mem_askAll asked)
      · cases committing.symm.trans (operation_of_mem_askAll asked)
      · obtain ⟨other, found, same⟩ := mem_askAll.mp asked
        rw [here, located] at found
        cases found
        rw [same] at done
        exact done
  · intro codes
    refine ⟨fun _ i inside => ?_, fun failed => absurd (ok.symm.trans failed) Bool.noConfusion⟩
    rw [rms] at inside
    obtain ⟨rm, located⟩ : ∃ rm, txn.rms[i]? = some rm := ⟨_, List.getElem?_eq_getElem inside⟩
    obtain ⟨genuine, committed⟩ := codes i rm located
    rw [trace]
    refine ⟨⟨_, List.mem_append_left _ (List.mem_append_right _ (askAll_asks located)), rfl, rfl, ?_⟩,
      ⟨_, List.mem_append_right _ (askAll_asks located), rfl, rfl, committed⟩⟩
    exact (yes rm (List.mem_of_getElem? located)).imp_right fun readOnlyCode => ⟨readOnlyCode, genuine readOnlyCode⟩

/-- An executed transaction has an atomic outcome exactly for these codes. -/
theorem atomicOutcome_execute (readOnly : Nat → Prop) (idle : txn.state = .idle) :
    AtomicOutcome readOnly (xaTwoPhaseExecute txn xid) ↔
      CodesAtomic readOnly (xid.getD txn.currentXid) txn.rms := by
  by_cases started : ∀ rm ∈ txn.rms, 0 ≤ rm.startCode (xid.getD txn.currentXid)
  · by_cases no : ∃ rm ∈ txn.rms, ¬ (rm.prepareCode (xid.getD txn.currentXid) = XA_OK ∨
      rm.prepareCode (xid.getD txn.currentXid) = XA_RDONLY)
    · exact iff_of_true (atomicOutcome_no xid readOnly idle started no) ⟨started, .inl no⟩
    · have yes : ∀ rm ∈ txn.rms, rm.prepareCode (xid.getD txn.currentXid) = XA_OK ∨
          rm.prepareCode (xid.getD txn.currentXid) = XA_RDONLY := by
        intro rm inside
        by_contra refused
        exact no ⟨rm, inside, refused⟩
      rw [atomicOutcome_yes_iff xid readOnly idle started yes]
      exact ⟨fun codes => ⟨started, .inr codes⟩, fun codes => codes.2.resolve_left no⟩
  · obtain ⟨failed, state⟩ := xaTwoPhaseExecute_unstarted xid idle started
    refine iff_of_false ?_ fun codes => started codes.1
    intro atomic
    cases state.symm.trans (atomic.rolledBack failed).1

end Execute

/-- The first managers are enlisted, as many as there is room for. -/
theorem xaEnlisted_eq (rms : List XAResourceManager) :
    xaEnlisted rms = { xaTransactionInit with rms := rms.take XA_MAX_RMS } := by
  have general : ∀ txn : XATransaction, txn.rms.length ≤ XA_MAX_RMS →
      rms.foldl (fun txn rm => (xaEnlistRm txn rm).1) txn =
        { txn with rms := txn.rms ++ rms.take (XA_MAX_RMS - txn.rms.length) } := by
    induction rms with
    | nil => intro txn _; simp
    | cons rm rest ih =>
      intro txn bounded
      rw [List.foldl_cons, xaEnlistRm]
      by_cases full : txn.rms.length ≥ XA_MAX_RMS
      · rw [if_pos full, ih txn bounded]
        simp [Nat.sub_eq_zero_of_le full]
      · rw [if_neg full, ih _ (by simp; omega)]
        obtain ⟨left, more⟩ : ∃ left, XA_MAX_RMS - txn.rms.length = left + 1 :=
          ⟨XA_MAX_RMS - txn.rms.length - 1, by omega⟩
        have less : XA_MAX_RMS - (txn.rms.length + 1) = left := by omega
        simp [more, less]
  have fresh := general xaTransactionInit (Nat.zero_le _)
  simpa [xaEnlisted, xaTransactionInit] using fresh

/-- The two-phase execution of a fresh transaction has an atomic outcome exactly when every
start is accepted and either some manager votes against, or every code 3 is a genuine
read-only vote and every commit succeeds. -/
theorem atomicOutcome_iff (readOnly : Nat → Prop) (rms : List XAResourceManager) (xid : Option XID) :
    AtomicOutcome readOnly (xaTwoPhaseExecute (xaEnlisted rms) xid) ↔
      CodesAtomic readOnly (xid.getD xidZero) (rms.take XA_MAX_RMS) := by
  have idle : (xaEnlisted rms).state = .idle := by rw [xaEnlisted_eq]; rfl
  rw [atomicOutcome_execute xid readOnly idle, xaEnlisted_eq]
  exact Iff.rfl

/-- A manager that answers with these codes. -/
def answering (start prepare commit : Int) : XAResourceManager :=
  ⟨some fun _ _ => start, none, some fun _ => prepare, some fun _ _ => commit, none⟩

/-- A manager votes yes and then fails to commit, and the execution returns true. -/
theorem failedCommit_unnoticed :
    ¬ AtomicOutcome (fun _ => True) (xaTwoPhaseExecute (xaEnlisted [answering 0 0 5]) none) := by
  intro atomic
  obtain ⟨-, commit, asked, committing, -, done⟩ := atomic.committed (by decide) 0 (by decide)
  have failed : ∀ event ∈ (xaTwoPhaseExecute (xaEnlisted [answering 0 0 5]) none).2.1,
      event.operation = .commit → event.code = 5 := by decide
  rw [failed commit asked committing] at done
  cases done

end MiniNetDist.Transaction.Xa
