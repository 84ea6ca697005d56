import MiniNetDist.Library.Recency
import MiniNetDist.Library.Table
import Mathlib.Data.List.Induction
import Mathlib.Algebra.Ring.Nat

/-! The request cache of `mini-dist-transaction/src/idempotency.c`, which gives up the request that was not used for
longest. A step whose signed counter would overflow, which C leaves undefined, has no result. -/

namespace MiniNetDist.Transaction.Idempotency

open Library Library.Recency

def IDEMPOTENT_CACHE_SIZE : Nat := 1024

inductive IdempotentStatus where
  | new
  | processing
  | processed
  deriving DecidableEq, Repr

structure IdempotentRequest where
  requestId : CString
  method : CString
  resource : CString
  bodyHash : UInt64
  timestamp : Int
  status : IdempotentStatus
  cachedResult : CString
  lruCounter : Int
  deriving DecidableEq, Repr

/-- The first `count` entries, and what earlier entries have left in the slots after them; the others are zero. -/
structure IdempotentStore where
  processedIds : List IdempotentRequest
  behind : List IdempotentRequest
  lruCounter : Int
  deriving DecidableEq, Repr

/-- An entry in zeroed memory. -/
def blankRequest : IdempotentRequest := ⟨[], [], [], 0, 0, .new, [], 0⟩

def idempotentStoreInit : IdempotentStore := ⟨[], [], 0⟩

/-- The largest `int32_t`. -/
def INT32_MAX : Int := 2147483647

/-- `++counter`. -/
def increment (counter : Int) : Option Int := if counter < INT32_MAX then some (counter + 1) else none

def idempotentStoreFind (store : IdempotentStore) (requestId : CString) : Option (IdempotentStore × Option Nat) :=
  match Table.position IdempotentRequest.requestId store.processedIds requestId with
  | none => some (store, none)
  | some i => do
    let lru ← increment store.lruCounter
    some ({ store with processedIds := store.processedIds.modify i fun req => { req with lruCounter := lru },
                       lruCounter := lru }, some i)

/-- The status, and what is copied to `cached_result_out`. The method, the resource and the hash are not looked at. -/
def idempotentCheck (store : IdempotentStore) (requestId _method _resource : CString) (_bodyHash : UInt64) :
    Option (IdempotentStore × IdempotentStatus × Option CString) := do
  let (store, idx) ← idempotentStoreFind store requestId
  match idx.bind (store.processedIds[·]?) with
  | some req => some (store, req.status, if req.status = .processed then some (strncpy req.cachedResult 255) else none)
  | none => some (store, .new, none)

/-- The loop that looks for the smallest counter, with the position and the counter of the smallest so far. -/
def minLruFrom : Nat → Nat × Int → List IdempotentRequest → Nat
  | _, best, [] => best.1
  | i, best, req :: rest => minLruFrom (i + 1) (if req.lruCounter < best.2 then (i, req.lruCounter) else best) rest

/-- The last entry stays behind in its slot. The function is called for a full store only. -/
def idempotentStoreEvictLru (store : IdempotentStore) : IdempotentStore :=
  match store.processedIds with
  | [] => store
  | first :: rest =>
    { store with processedIds := (first :: rest).eraseIdx (minLruFrom 1 (0, first.lruCounter) rest),
                 behind := rest.getLast?.getD first :: store.behind }

/-- The eviction in `idempotent_record`. -/
def IdempotentStore.makeRoom (store : IdempotentStore) : IdempotentStore :=
  if store.processedIds.length ≥ IDEMPOTENT_CACHE_SIZE then idempotentStoreEvictLru store else store

/-- A new entry in the next slot, where what is not assigned stays as it was. -/
def insertRequest (store : IdempotentStore) (requestId method resource : CString) (bodyHash : UInt64) (now : Int) :
    IdempotentStore :=
  { store with
    processedIds := store.processedIds ++ [{ store.behind.headD blankRequest with
      requestId := strncpy requestId 63, method := strncpy method 15, resource := strncpy resource 127,
      bodyHash := bodyHash, timestamp := now }],
    behind := store.behind.tail }

/-- The assignments at the end of `idempotent_record`. -/
def IdempotentRequest.recorded (result : Option CString) (lru : Int) (req : IdempotentRequest) : IdempotentRequest :=
  { req with status := .processed, lruCounter := lru,
             cachedResult := match result with
               | some result => strncpy result 255
               | none => req.cachedResult }

/-- The store after the call, which always returns true. -/
def idempotentRecord (store : IdempotentStore) (requestId method resource : CString) (bodyHash : UInt64)
    (result : Option CString) (now : Int) : Option IdempotentStore := do
  let (store, found) ← idempotentStoreFind store requestId
  let (store, idx) :=
    match found with
    | some idx => (store, idx)
    | none =>
      (insertRequest store.makeRoom requestId method resource bodyHash now, store.makeRoom.processedIds.length)
  let lru ← increment store.lruCounter
  some { store with processedIds := store.processedIds.modify idx (·.recorded result lru), lruCounter := lru }

inductive IdempotentCall where
  | record (requestId method resource : CString) (bodyHash : UInt64) (result : Option CString) (now : Int)
  | check (requestId method resource : CString) (bodyHash : UInt64)
  deriving DecidableEq, Repr

/-- The store, and the ids that were touched so far. -/
structure IdempotentRun where
  store : IdempotentStore
  touches : List CString
  deriving DecidableEq, Repr

/-- A record touches its id, a check one that it finds. -/
def idempotentCall (run : IdempotentRun) : IdempotentCall → Option IdempotentRun
  | .record requestId method resource bodyHash result now => do
    let store ← idempotentRecord run.store requestId method resource bodyHash result now
    some ⟨store, run.touches ++ [requestId]⟩
  | .check requestId method resource bodyHash => do
    let (store, status, _) ← idempotentCheck run.store requestId method resource bodyHash
    some ⟨store, if status = .new then run.touches else run.touches ++ [requestId]⟩

def idempotentRun (calls : List IdempotentCall) : Option IdempotentRun :=
  calls.foldlM idempotentCall ⟨idempotentStoreInit, []⟩

/-- What was recorded under an id. -/
structure Recorded where
  method : CString
  resource : CString
  bodyHash : UInt64
  result : Option CString
  deriving DecidableEq, Repr

def recordedUnder (requestId : CString) : IdempotentCall → Option Recorded
  | .record id method resource bodyHash result _ =>
    if id = requestId then some ⟨method, resource, bodyHash, result⟩ else none
  | .check .. => none

def lastRecorded (requestId : CString) (calls : List IdempotentCall) : Option Recorded :=
  (calls.filterMap (recordedUnder requestId)).getLast?

section Steps

variable {store : IdempotentStore} {requestId method resource : CString} {bodyHash : UInt64} {result : Option CString}
  {now : Int}

theorem increment_eq (room : store.lruCounter < INT32_MAX) : increment store.lruCounter = some (store.lruCounter + 1) :=
  if_pos room

/-- The search stamps the first entry with the id. -/
theorem idempotentStoreFind_cases (store : IdempotentStore) (requestId : CString)
    (room : store.lruCounter < INT32_MAX) :
    ((∀ req ∈ store.processedIds, req.requestId ≠ requestId) ∧
      idempotentStoreFind store requestId = some (store, none)) ∨
    ∃ earlier req later, store.processedIds = earlier ++ req :: later ∧ req.requestId = requestId ∧
      idempotentStoreFind store requestId = some
        (⟨earlier ++ { req with lruCounter := store.lruCounter + 1 } :: later, store.behind, store.lruCounter + 1⟩,
          some earlier.length) := by
  unfold idempotentStoreFind
  cases found : Table.position IdempotentRequest.requestId store.processedIds requestId with
  | none =>
    refine .inl ⟨fun req inside same => ?_, rfl⟩
    have absent := Table.find_eq_none_iff.mp (Table.position_eq_none_iff.mp found)
    exact absent (same ▸ List.mem_map_of_mem inside)
  | some i =>
    obtain ⟨earlier, req, later, whole, rfl, named, _⟩ := split_of_findIdx? found
    refine .inr ⟨earlier, req, later, whole, of_decide_eq_true named, ?_⟩
    simp only [increment_eq room, whole, modify_middle]
    rfl

/-- The loop over the rest ends at the first of the smallest counters. -/
theorem minLruFrom_spec {seen rest : List IdempotentRequest} {best : Nat × Int}
    (smallest : ∃ earlier req later, seen = earlier ++ req :: later ∧ earlier.length = best.1 ∧
      req.lruCounter = best.2 ∧ ∀ other ∈ seen, best.2 ≤ other.lruCounter) :
    ∃ earlier req later, seen ++ rest = earlier ++ req :: later ∧ earlier.length = minLruFrom seen.length best rest ∧
      ∀ other ∈ seen ++ rest, req.lruCounter ≤ other.lruCounter := by
  induction rest generalizing seen best with
  | nil =>
    obtain ⟨earlier, req, later, whole, position, counter, least⟩ := smallest
    exact ⟨earlier, req, later, by rw [List.append_nil, whole], position, by
      rw [List.append_nil, counter]
      exact least⟩
  | cons next rest ih =>
    obtain ⟨earlier, req, later, whole, position, counter, least⟩ := smallest
    have extended : seen ++ next :: rest = (seen ++ [next]) ++ rest := by simp
    have length : (seen ++ [next]).length = seen.length + 1 := by simp
    rw [extended, minLruFrom, ← length]
    apply ih
    by_cases smaller : next.lruCounter < best.2
    · rw [if_pos smaller]
      refine ⟨seen, next, [], rfl, rfl, rfl, fun other inside => ?_⟩
      rcases List.mem_append.mp inside with old | new
      · exact Int.le_of_lt (Int.lt_of_lt_of_le smaller (least other old))
      · obtain rfl := List.mem_singleton.mp new
        exact Int.le_refl _
    · rw [if_neg smaller]
      refine ⟨earlier, req, later ++ [next], by simp [whole], position, counter, fun other inside => ?_⟩
      rcases List.mem_append.mp inside with old | new
      · exact least other old
      · rw [List.mem_singleton.mp new]
        exact Int.not_lt.mp smaller

/-- The entry that is given up has the smallest counter. -/
theorem idempotentStoreEvictLru_cases (full : store.processedIds ≠ []) :
    ∃ earlier req later, store.processedIds = earlier ++ req :: later ∧
      (∀ other ∈ store.processedIds, req.lruCounter ≤ other.lruCounter) ∧
      (idempotentStoreEvictLru store).processedIds = earlier ++ later ∧
      (idempotentStoreEvictLru store).lruCounter = store.lruCounter := by
  unfold idempotentStoreEvictLru
  cases entries : store.processedIds with
  | nil => exact absurd entries full
  | cons first rest =>
    have start : ∃ earlier req later, [first] = earlier ++ req :: later ∧ earlier.length = (0, first.lruCounter).1 ∧
        req.lruCounter = (0, first.lruCounter).2 ∧ ∀ other ∈ [first], (0, first.lruCounter).2 ≤ other.lruCounter :=
      ⟨[], first, [], rfl, rfl, rfl, by simp⟩
    obtain ⟨earlier, req, later, whole, position, least⟩ := @minLruFrom_spec [first] rest _ start
    refine ⟨earlier, req, later, whole, least, ?_, rfl⟩
    have erased : (first :: rest).eraseIdx (minLruFrom 1 (0, first.lruCounter) rest) = earlier ++ later := by
      rw [show first :: rest = earlier ++ req :: later from whole]
      rw [show minLruFrom 1 (0, first.lruCounter) rest = earlier.length from position.symm,
        List.eraseIdx_append_of_length_le (Nat.le_refl _), Nat.sub_self, List.eraseIdx_cons_zero]
    exact erased

theorem lruCounter_makeRoom : store.makeRoom.lruCounter = store.lruCounter := by
  unfold IdempotentStore.makeRoom idempotentStoreEvictLru
  split_ifs
  · cases store.processedIds <;> rfl
  · rfl

/-- A record renews the first entry with the id, or enters it as the last one. -/
theorem idempotentRecord_cases (store : IdempotentStore) (requestId method resource : CString) (bodyHash : UInt64)
    (result : Option CString) (now : Int) (room : store.lruCounter + 1 < INT32_MAX) :
    ∃ store', idempotentRecord store requestId method resource bodyHash result now = some store' ∧
      ((∃ earlier req later, store.processedIds = earlier ++ req :: later ∧ req.requestId = requestId ∧
        store'.processedIds = earlier ++ req.recorded result (store.lruCounter + 2) :: later ∧
        store'.lruCounter = store.lruCounter + 2) ∨
      (∀ req ∈ store.processedIds, req.requestId ≠ requestId) ∧
        (∃ req : IdempotentRequest, req.requestId = strncpy requestId 63 ∧
          store'.processedIds = store.makeRoom.processedIds ++ [req.recorded result (store.lruCounter + 1)]) ∧
        store'.lruCounter = store.lruCounter + 1) := by
  unfold idempotentRecord
  rcases idempotentStoreFind_cases store requestId (by omega) with
    ⟨absent, found⟩ | ⟨earlier, req, later, whole, named, found⟩
  · rw [found]
    have counter : increment store.makeRoom.lruCounter = some (store.lruCounter + 1) := by
      rw [lruCounter_makeRoom]
      exact increment_eq (by omega)
    have placed : (insertRequest store.makeRoom requestId method resource bodyHash now).processedIds.modify
        store.makeRoom.processedIds.length (·.recorded result (store.lruCounter + 1)) =
        store.makeRoom.processedIds ++ [({ store.makeRoom.behind.headD blankRequest with
          requestId := strncpy requestId 63, method := strncpy method 15, resource := strncpy resource 127,
          bodyHash := bodyHash, timestamp := now } : IdempotentRequest).recorded result (store.lruCounter + 1)] :=
      modify_middle _ _ [] _
    refine ⟨{ insertRequest store.makeRoom requestId method resource bodyHash now with
        processedIds := _, lruCounter := store.lruCounter + 1 }, ?_, .inr ⟨absent, ⟨_, ?_, placed⟩, rfl⟩⟩
    · simp only [Option.bind_eq_bind, Option.bind_some]
      rw [show (insertRequest store.makeRoom requestId method resource bodyHash now).lruCounter =
        store.makeRoom.lruCounter from rfl, counter]
      rfl
    · rfl
  · rw [found]
    have counter : increment (store.lruCounter + 1) = some (store.lruCounter + 2) := by
      rw [increment, if_pos room]
      congr 1
      omega
    refine ⟨⟨earlier ++ req.recorded result (store.lruCounter + 2) :: later, store.behind, store.lruCounter + 2⟩, ?_,
      .inl ⟨earlier, req, later, whole, named, rfl, rfl⟩⟩
    simp only [Option.bind_eq_bind, Option.bind_some, counter, modify_middle]
    rfl

/-- A check answers from the first entry with the id, which it stamps. -/
theorem idempotentCheck_cases (store : IdempotentStore) (requestId method resource : CString) (bodyHash : UInt64)
    (room : store.lruCounter < INT32_MAX) :
    ((∀ req ∈ store.processedIds, req.requestId ≠ requestId) ∧
      idempotentCheck store requestId method resource bodyHash = some (store, .new, none)) ∨
    ∃ earlier req later, store.processedIds = earlier ++ req :: later ∧ req.requestId = requestId ∧
      idempotentCheck store requestId method resource bodyHash = some
        (⟨earlier ++ { req with lruCounter := store.lruCounter + 1 } :: later, store.behind, store.lruCounter + 1⟩,
          req.status, if req.status = .processed then some (strncpy req.cachedResult 255) else none) := by
  unfold idempotentCheck
  rcases idempotentStoreFind_cases store requestId room with
    ⟨absent, found⟩ | ⟨earlier, req, later, whole, named, found⟩
  · exact .inl ⟨absent, by rw [found]; rfl⟩
  · refine .inr ⟨earlier, req, later, whole, named, ?_⟩
    rw [found]
    simp

end Steps

section History

variable {calls : List IdempotentCall} {requestId other method resource : CString} {bodyHash : UInt64}
  {result : Option CString} {now : Int}

theorem lastRecorded_record : lastRecorded requestId (calls ++ [.record other method resource bodyHash result now]) =
    if other = requestId then some ⟨method, resource, bodyHash, result⟩ else lastRecorded requestId calls := by
  unfold lastRecorded
  rw [List.filterMap_append]
  by_cases same : other = requestId <;> simp [recordedUnder, same]

theorem lastRecorded_check : lastRecorded requestId (calls ++ [.check other method resource bodyHash]) =
    lastRecorded requestId calls := by
  unfold lastRecorded
  rw [List.filterMap_append]
  simp [recordedUnder]

end History

section Latest

/-- The id fits its field, and so does the result, which is given. -/
def IdempotentCall.Fits : IdempotentCall → Prop
  | .record requestId _ _ _ result _ => requestId.length < 64 ∧ ∃ text, result = some text ∧ text.length < 256
  | .check requestId _ _ _ => requestId.length < 64

/-- The cache holds the ids touched last, each with the result last recorded. -/
structure Latest (calls : List IdempotentCall) (run : IdempotentRun) : Prop where
  stamped : Stamped IdempotentRequest.requestId IdempotentRequest.lruCounter run.store.processedIds run.store.lruCounter
    ((recency run.touches).take IDEMPOTENT_CACHE_SIZE)
  counted : run.store.lruCounter ≤ 2 * calls.length
  known : ∀ requestId, requestId ∈ recency run.touches ↔ (lastRecorded requestId calls).isSome
  answers : ∀ req ∈ run.store.processedIds, req.status = .processed ∧ req.cachedResult.length < 256 ∧
    (lastRecorded req.requestId calls).map (·.result) = some (some req.cachedResult)

variable {calls : List IdempotentCall} {run : IdempotentRun} {requestId method resource : CString} {bodyHash : UInt64}
  {text : CString} {now : Int}

theorem latest_init : Latest [] ⟨idempotentStoreInit, []⟩ :=
  ⟨stamped_nil 0, Int.le_refl 0, by simp [recency, lastRecorded], by simp [idempotentStoreInit]⟩

theorem nodup_latest (touches : List CString) : ((recency touches).take IDEMPOTENT_CACHE_SIZE).Nodup :=
  (nodup_recency touches).sublist (List.take_sublist _ _)

/-- A touch of an id in the cache. -/
theorem take_recency_of_mem {touches : List CString}
    (inside : requestId ∈ (recency touches).take IDEMPOTENT_CACHE_SIZE) :
    (recency (touches ++ [requestId])).take IDEMPOTENT_CACHE_SIZE =
      touch requestId ((recency touches).take IDEMPOTENT_CACHE_SIZE) := by
  rw [recency_concat, take_touch_of_mem inside]

theorem idempotentCall_check {store : IdempotentStore} {status : IdempotentStatus} {out : Option CString}
    (checked : idempotentCheck run.store requestId method resource bodyHash = some (store, status, out)) :
    idempotentCall run (.check requestId method resource bodyHash) =
      some ⟨store, if status = .new then run.touches else run.touches ++ [requestId]⟩ := by
  simp [idempotentCall, checked]

theorem idempotentCall_record {store : IdempotentStore} {result : Option CString}
    (recorded : idempotentRecord run.store requestId method resource bodyHash result now = some store) :
    idempotentCall run (.record requestId method resource bodyHash result now) =
      some ⟨store, run.touches ++ [requestId]⟩ := by
  simp [idempotentCall, recorded]

theorem Latest.check (latest : Latest calls run) (room : run.store.lruCounter < INT32_MAX) :
    ∃ run', idempotentCall run (.check requestId method resource bodyHash) = some run' ∧
      Latest (calls ++ [.check requestId method resource bodyHash]) run' := by
  have counted := latest.counted
  rcases idempotentCheck_cases run.store requestId method resource bodyHash room with
    ⟨_, checked⟩ | ⟨earlier, req, later, whole, named, checked⟩
  · refine ⟨_, idempotentCall_check checked, latest.stamped, ?_, fun other => ?_, fun req inside => ?_⟩
    · simp only [List.length_append, List.length_singleton]
      omega
    · rw [lastRecorded_check]
      exact latest.known other
    · rw [lastRecorded_check]
      exact latest.answers req inside
  · have present : req ∈ run.store.processedIds := whole ▸ by simp
    have status := (latest.answers req present).1
    have inside : req.requestId ∈ (recency run.touches).take IDEMPOTENT_CACHE_SIZE :=
      latest.stamped.mem_iff.mpr ⟨req, present, rfl⟩
    have stamped := latest.stamped
    rw [whole] at stamped
    have found : ¬ req.status = .new := by
      rw [status]
      decide
    refine ⟨_, idempotentCall_check checked, ?_, ?_, fun other => ?_, fun other inside' => ?_⟩
    · simp only [if_neg found, ← named]
      rw [take_recency_of_mem inside]
      exact stamped.touch (nodup_latest _) (Int.lt_succ _) rfl rfl
    · simp only [List.length_append, List.length_singleton]
      omega
    · simp only [if_neg found, ← named]
      rw [lastRecorded_check, ← latest.known other, recency_concat, mem_touch, or_iff_right_of_imp]
      rintro rfl
      exact List.mem_of_mem_take inside
    · rw [lastRecorded_check]
      have answers := latest.answers
      rw [whole] at answers
      rcases List.mem_append.mp inside' with old | inside'
      · exact answers other (by simp [old])
      · rcases List.mem_cons.mp inside' with rfl | old
        · exact answers req (by simp)
        · exact answers other (by simp [old])

/-- The room for a new id is made by giving up the last one, if it has to be made. -/
theorem Latest.makeRoom (latest : Latest calls run) :
    Stamped IdempotentRequest.requestId IdempotentRequest.lruCounter run.store.makeRoom.processedIds
      run.store.lruCounter ((recency run.touches).take (IDEMPOTENT_CACHE_SIZE - 1)) ∧
    run.store.makeRoom.processedIds ⊆ run.store.processedIds := by
  have stamped := latest.stamped
  have length := stamped.length_eq
  rw [List.length_take] at length
  unfold IdempotentStore.makeRoom
  split_ifs with full
  · have some' : run.store.processedIds ≠ [] := by
      intro none
      rw [none] at full
      exact absurd full (by decide)
    obtain ⟨earlier, req, later, whole, smallest, kept, _⟩ := idempotentStoreEvictLru_cases some'
    rw [whole] at stamped smallest
    have evicted := stamped.evict smallest
    have many : min IDEMPOTENT_CACHE_SIZE (recency run.touches).length = IDEMPOTENT_CACHE_SIZE := by omega
    rw [List.dropLast_eq_take, List.length_take, many, List.take_take, Nat.min_eq_left (Nat.sub_le _ _)] at evicted
    rw [kept, whole]
    refine ⟨evicted, fun other inside => ?_⟩
    rcases List.mem_append.mp inside with old | old <;> simp [old]
  · have short : (recency run.touches).length ≤ IDEMPOTENT_CACHE_SIZE - 1 := by
      unfold IDEMPOTENT_CACHE_SIZE at *
      omega
    rw [List.take_of_length_le (Nat.le_trans short (Nat.sub_le _ _))] at stamped
    rw [List.take_of_length_le short]
    exact ⟨stamped, fun _ inside => inside⟩

theorem Latest.known_record (latest : Latest calls run) {result : Option CString} (other : CString) :
    other ∈ recency (run.touches ++ [requestId]) ↔
      (lastRecorded other (calls ++ [.record requestId method resource bodyHash result now])).isSome := by
  rw [recency_concat, mem_touch, lastRecorded_record]
  by_cases same : requestId = other
  · simp [same]
  · rw [if_neg same, latest.known other, or_iff_right (Ne.symm same)]

/-- Entries under other ids have the results they had. -/
theorem Latest.others (latest : Latest calls run) {entries : List IdempotentRequest}
    (subset : entries ⊆ run.store.processedIds) (different : ∀ req ∈ entries, req.requestId ≠ requestId)
    {result : Option CString} : ∀ req ∈ entries, req.status = .processed ∧ req.cachedResult.length < 256 ∧
      (lastRecorded req.requestId (calls ++ [.record requestId method resource bodyHash result now])).map (·.result) =
        some (some req.cachedResult) := by
  intro req inside
  rw [lastRecorded_record, if_neg (Ne.symm (different req inside))]
  exact latest.answers req (subset inside)

/-- The entry of a result that fits has it as it was recorded. -/
theorem recorded_answer (req : IdempotentRequest) (lru : Int) (same : requestId = req.requestId)
    (fits : text.length < 256) :
    (req.recorded (some text) lru).status = .processed ∧ (req.recorded (some text) lru).cachedResult.length < 256 ∧
      (lastRecorded req.requestId (calls ++ [.record requestId method resource bodyHash (some text) now])).map
        (·.result) = some (some (req.recorded (some text) lru).cachedResult) := by
  have stored : (req.recorded (some text) lru).cachedResult = text := strncpy_of_lt fits
  rw [lastRecorded_record, if_pos same, stored]
  exact ⟨rfl, fits, rfl⟩

/-- A record of an id in the cache. -/
theorem Latest.renew (latest : Latest calls run) {earlier later : List IdempotentRequest} {req : IdempotentRequest}
    {store : IdempotentStore} (whole : run.store.processedIds = earlier ++ req :: later)
    (named : req.requestId = requestId)
    (entries : store.processedIds = earlier ++ req.recorded (some text) (run.store.lruCounter + 2) :: later)
    (counter : store.lruCounter = run.store.lruCounter + 2) (fits : text.length < 256) :
    Latest (calls ++ [.record requestId method resource bodyHash (some text) now])
      ⟨store, run.touches ++ [requestId]⟩ := by
  have counted := latest.counted
  have stamped := latest.stamped
  have inside : req.requestId ∈ (recency run.touches).take IDEMPOTENT_CACHE_SIZE :=
    stamped.mem_iff.mpr ⟨req, whole ▸ by simp, rfl⟩
  -- no other entry has the id
  have distinct : ((earlier ++ req :: later).map IdempotentRequest.requestId).Nodup :=
    whole ▸ stamped.perm_keys.nodup_iff.mpr (nodup_latest _)
  rw [List.map_append, List.map_cons, List.nodup_middle, List.nodup_cons, ← List.map_append] at distinct
  have rest : ∀ other ∈ earlier ++ later, other.requestId ≠ requestId := fun other old same =>
    distinct.1 (named.trans same.symm ▸ List.mem_map_of_mem old)
  have subset : earlier ++ later ⊆ run.store.processedIds := by
    rw [whole]
    exact ((List.sublist_cons_self req later).append_left earlier).subset
  refine ⟨?_, ?_, latest.known_record, fun other member => ?_⟩
  · rw [whole] at stamped
    rw [entries, counter, ← named, take_recency_of_mem inside]
    exact stamped.touch (nodup_latest _) (by omega) rfl rfl
  · simp only [counter, List.length_append, List.length_singleton]
    omega
  · rw [entries, List.mem_append, List.mem_cons, or_left_comm, ← List.mem_append] at member
    rcases member with rfl | old
    · exact recorded_answer req _ named.symm fits
    · exact latest.others subset rest other old

/-- A record of an id that is not in the cache. -/
theorem Latest.enter (latest : Latest calls run) {req : IdempotentRequest} {store : IdempotentStore}
    (absent : ∀ other ∈ run.store.processedIds, other.requestId ≠ requestId) (same : req.requestId = requestId)
    (entries : store.processedIds =
      run.store.makeRoom.processedIds ++ [req.recorded (some text) (run.store.lruCounter + 1)])
    (counter : store.lruCounter = run.store.lruCounter + 1) (fits : text.length < 256) :
    Latest (calls ++ [.record requestId method resource bodyHash (some text) now])
      ⟨store, run.touches ++ [requestId]⟩ := by
  have counted := latest.counted
  obtain ⟨stamped, subset⟩ := latest.makeRoom
  have outside : requestId ∉ (recency run.touches).take (IDEMPOTENT_CACHE_SIZE - 1 + 1) := by
    intro inside
    obtain ⟨other, present, found⟩ := latest.stamped.mem_iff.mp inside
    exact absent other present found
  refine ⟨?_, ?_, latest.known_record, fun other member => ?_⟩
  · rw [entries, counter, recency_concat, show IDEMPOTENT_CACHE_SIZE = IDEMPOTENT_CACHE_SIZE - 1 + 1 from rfl,
      take_touch_of_not_mem outside, ← same]
    exact stamped.insert (Int.lt_succ _) rfl
  · simp only [counter, List.length_append, List.length_singleton]
    omega
  · rw [entries] at member
    rcases List.mem_append.mp member with old | new
    · exact latest.others subset (fun req inside => absent req (subset inside)) other old
    · rw [List.mem_singleton.mp new]
      exact recorded_answer req _ same.symm fits

theorem Latest.record (latest : Latest calls run) (room : run.store.lruCounter + 1 < INT32_MAX)
    (short : requestId.length < 64) (fits : text.length < 256) :
    ∃ run', idempotentCall run (.record requestId method resource bodyHash (some text) now) = some run' ∧
      Latest (calls ++ [.record requestId method resource bodyHash (some text) now]) run' := by
  obtain ⟨store, recorded, ⟨earlier, req, later, whole, named, entries, counter⟩ |
    ⟨absent, ⟨req, named, entries⟩, counter⟩⟩ := idempotentRecord_cases run.store requestId method resource bodyHash
      (some text) now room
  · exact ⟨_, idempotentCall_record recorded, latest.renew whole named entries counter fits⟩
  · have same : req.requestId = requestId := named.trans (strncpy_of_lt short)
    exact ⟨_, idempotentCall_record recorded, latest.enter absent same entries counter fits⟩

theorem latest_of_few (calls : List IdempotentCall) (few : calls.length < 2 ^ 30) (fits : ∀ call ∈ calls, call.Fits) :
    ∃ run, idempotentRun calls = some run ∧ Latest calls run := by
  induction calls using List.reverseRecOn with
  | nil => exact ⟨_, rfl, latest_init⟩
  | append_singleton calls call ih =>
    rw [List.length_append, List.length_singleton] at few
    obtain ⟨run, ran, latest⟩ := ih (by omega) fun call inside => fits call (List.mem_append_left _ inside)
    have counted := latest.counted
    have room : run.store.lruCounter + 1 < INT32_MAX := by
      unfold INT32_MAX
      omega
    have next : idempotentRun (calls ++ [call]) = idempotentCall run call := by
      unfold idempotentRun at ran ⊢
      simp [ran]
    rw [next]
    have here := fits call (by simp)
    cases call with
    | record requestId method resource bodyHash result now =>
      obtain ⟨short, text, rfl, whole⟩ := here
      exact latest.record room short whole
    | check requestId method resource bodyHash => exact latest.check (by omega)

/-- What a check of an id in the cache returns. -/
theorem Latest.replays (latest : Latest calls run) (room : run.store.lruCounter < INT32_MAX)
    (inside : requestId ∈ (recency run.touches).take IDEMPOTENT_CACHE_SIZE) :
    ∃ store result,
      idempotentCheck run.store requestId method resource bodyHash = some (store, .processed, some result) ∧
      (lastRecorded requestId calls).map (·.result) = some (some result) := by
  obtain ⟨req, present, named⟩ := latest.stamped.mem_iff.mp inside
  rcases idempotentCheck_cases run.store requestId method resource bodyHash room with
    ⟨absent, _⟩ | ⟨earlier, req, later, whole, named, checked⟩
  · exact absurd named (absent req present)
  · obtain ⟨status, short, last⟩ := latest.answers req (whole ▸ by simp)
    rw [checked, status, if_pos rfl, show strncpy req.cachedResult 255 = req.cachedResult from strncpy_of_lt short]
    exact ⟨_, _, rfl, named ▸ last⟩

/-- After fewer than `2 ^ 30` calls, the store holds the ids that were touched last, each once, and a check of each of
them gives the result that was last recorded for it. -/
theorem idempotentRun_latest (calls : List IdempotentCall) (few : calls.length < 2 ^ 30)
    (fits : ∀ call ∈ calls, call.Fits) :
    ∃ run, idempotentRun calls = some run ∧
      (run.store.processedIds.map (·.requestId)).Perm ((recency run.touches).take IDEMPOTENT_CACHE_SIZE) ∧
      (recency run.touches).Nodup ∧ (∀ requestId, requestId ∈ recency run.touches ↔
        (lastRecorded requestId calls).isSome) ∧
      ∀ requestId ∈ (recency run.touches).take IDEMPOTENT_CACHE_SIZE, ∀ method resource bodyHash,
        ∃ store result, idempotentCheck run.store requestId method resource bodyHash =
            some (store, .processed, some result) ∧
          (lastRecorded requestId calls).map (·.result) = some (some result) := by
  obtain ⟨run, ran, latest⟩ := latest_of_few calls few fits
  have counted := latest.counted
  have room : run.store.lruCounter < INT32_MAX := by
    unfold INT32_MAX
    omega
  exact ⟨run, ran, latest.stamped.perm_keys, nodup_recency run.touches, latest.known,
    fun _ inside _ _ _ => latest.replays room inside⟩

theorem idempotentRun_latest_two :
    ∃ run, idempotentRun [.record [1] [] [] 0 (some [7]) 0, .record [2] [] [] 0 (some [8]) 0, .check [1] [] [] 0] =
        some run ∧
      (run.store.processedIds.map (·.requestId)).Perm ((recency run.touches).take IDEMPOTENT_CACHE_SIZE) ∧
      (recency run.touches).Nodup ∧ (∀ requestId, requestId ∈ recency run.touches ↔
        (lastRecorded requestId [.record [1] [] [] 0 (some [7]) 0, .record [2] [] [] 0 (some [8]) 0,
          .check [1] [] [] 0]).isSome) ∧
      ∀ requestId ∈ (recency run.touches).take IDEMPOTENT_CACHE_SIZE, ∀ method resource bodyHash,
        ∃ store result, idempotentCheck run.store requestId method resource bodyHash =
            some (store, .processed, some result) ∧
          (lastRecorded requestId [.record [1] [] [] 0 (some [7]) 0, .record [2] [] [] 0 (some [8]) 0,
            .check [1] [] [] 0]).map (·.result) = some (some result) :=
  idempotentRun_latest [.record [1] [] [] 0 (some [7]) 0, .record [2] [] [] 0 (some [8]) 0, .check [1] [] [] 0]
    (by decide) (by simp [IdempotentCall.Fits])

end Latest

end MiniNetDist.Transaction.Idempotency
