import MiniNetDist.Transaction.Idempotency

/-! Which results the request cache replays: it answers by the id alone, of which it keeps 63 bytes. -/

namespace MiniNetDist.Transaction.Idempotency

open Library Library.Recency

/-- The call makes the store give up an entry. -/
def Evicts (store : IdempotentStore) : IdempotentCall → Prop
  | .record requestId .. =>
    store.processedIds.length ≥ IDEMPOTENT_CACHE_SIZE ∧ ∀ req ∈ store.processedIds, req.requestId ≠ requestId
  | .check .. => False

/-- None of the calls does. -/
def KeepsAll : IdempotentRun → List IdempotentCall → Prop
  | _, [] => True
  | run, call :: rest => ¬ Evicts run.store call ∧ ∀ run' ∈ idempotentCall run call, KeepsAll run' rest

/-- A check after these calls that is answered as processed gives a result recorded for the same request, and a request
that was recorded, and not given up since, is answered as processed. -/
def Replays (calls : List IdempotentCall) (requestId method resource : CString) (bodyHash : UInt64) : Prop :=
  ∃ run store status out, idempotentRun calls = some run ∧
    idempotentCheck run.store requestId method resource bodyHash = some (store, status, out) ∧
    (status = .processed → ∃ result now, out = some result ∧
      .record requestId method resource bodyHash (some result) now ∈ calls) ∧
    ∀ earlier later result now, calls = earlier ++ .record requestId method resource bodyHash result now :: later →
      (∀ run ∈ idempotentRun (earlier ++ [.record requestId method resource bodyHash result now]), KeepsAll run later) →
      status = .processed

/-- The id of a record. -/
def IdempotentCall.recordedId : IdempotentCall → Option CString
  | .record requestId .. => some requestId
  | .check .. => none

/-- The store has an entry under the id. -/
def Holds (requestId : CString) (store : IdempotentStore) : Prop :=
  ∃ req ∈ store.processedIds, req.requestId = requestId

/-- The id fits its field and no longer one begins with it, and unless its entry was given up, it was last recorded for
this request, with a result that fits its field; or the id does not fit, and the request was not recorded. -/
def Identifies (calls : List IdempotentCall) (requestId method resource : CString) (bodyHash : UInt64) : Prop :=
  (requestId.length < 64 ∧
    (∀ call ∈ calls, ∀ other ∈ call.recordedId, 64 ≤ other.length → strncpy other 63 ≠ requestId) ∧
    ∀ run ∈ idempotentRun calls, Holds requestId run.store →
      ∀ recorded ∈ lastRecorded requestId calls, recorded.method = method ∧ recorded.resource = resource ∧
        recorded.bodyHash = bodyHash ∧ ∃ text, recorded.result = some text ∧ text.length < 256) ∨
  (64 ≤ requestId.length ∧ ∀ call ∈ calls, ∀ recorded ∈ recordedUnder requestId call,
    (recorded.method, recorded.resource, recorded.bodyHash) ≠ (method, resource, bodyHash))

section Invariant

/-- What the store holds under an id that no longer one is cut down to. -/
structure Under (requestId : CString) (calls : List IdempotentCall) (store : IdempotentStore) : Prop where
  counted : store.lruCounter ≤ 2 * calls.length
  cut : ∀ req ∈ store.processedIds, req.requestId.length < 64
  once : (store.processedIds.filter (·.requestId = requestId)).length ≤ 1
  answers : ∀ req ∈ store.processedIds, req.requestId = requestId → req.status = .processed ∧
    ∃ recorded, lastRecorded requestId calls = some recorded ∧
      ∀ text, recorded.result = some text → req.cachedResult = strncpy text 255

variable {calls : List IdempotentCall} {run run' : IdempotentRun} {store : IdempotentStore}
  {requestId other method resource : CString} {bodyHash : UInt64} {result : Option CString} {now : Int}
  {earlier later : List IdempotentRequest} {req req' : IdempotentRequest}

theorem under_init (requestId : CString) : Under requestId [] idempotentStoreInit :=
  ⟨Int.le_refl 0, by simp [idempotentStoreInit], by simp [idempotentStoreInit], by simp [idempotentStoreInit]⟩

theorem makeRoom_sublist (store : IdempotentStore) : store.makeRoom.processedIds.Sublist store.processedIds := by
  unfold IdempotentStore.makeRoom
  split_ifs with full
  · have some' : store.processedIds ≠ [] := by
      intro none
      rw [none] at full
      exact absurd full (by decide)
    obtain ⟨earlier, req, later, whole, _, kept, _⟩ := idempotentStoreEvictLru_cases some'
    rw [kept, whole]
    exact (List.sublist_cons_self req later).append_left earlier
  · exact .refl _

/-- Where an id stands once, it does not stand before or after. -/
theorem other_of_once (once : ((earlier ++ req :: later).filter (·.requestId = requestId)).length ≤ 1)
    (named : req.requestId = requestId) : ∀ other ∈ earlier ++ later, other.requestId ≠ requestId := by
  intro other inside same
  have present : other ∈ (earlier ++ later).filter (·.requestId = requestId) :=
    List.mem_filter.mpr ⟨inside, decide_eq_true same⟩
  rw [List.filter_append] at once present
  rw [List.filter_cons_of_pos (by simpa using named), List.length_append, List.length_cons] at once
  have positive := List.length_pos_of_mem present
  rw [List.length_append] at positive
  omega

/-- A renewed entry keeps its id, so that the entries of an id stay as many. -/
theorem filter_renewed (same : req'.requestId = req.requestId) :
    ((earlier ++ req' :: later).filter (·.requestId = requestId)).length =
      ((earlier ++ req :: later).filter (·.requestId = requestId)).length := by
  rw [List.filter_append, List.filter_append, List.filter_cons, List.filter_cons, same]
  split_ifs <;> simp

variable {calls' : List IdempotentCall} {store' : IdempotentStore}

theorem Under.renewed (under : Under requestId calls store) (whole : store.processedIds = earlier ++ req :: later)
    (entries : store'.processedIds = earlier ++ req' :: later) (same : req'.requestId = req.requestId)
    (counted : store'.lruCounter ≤ 2 * calls'.length)
    (others : req.requestId ≠ requestId → lastRecorded requestId calls' = lastRecorded requestId calls)
    (answer : req.requestId = requestId → req'.status = .processed ∧
      ∃ recorded, lastRecorded requestId calls' = some recorded ∧
        ∀ text, recorded.result = some text → req'.cachedResult = strncpy text 255) :
    Under requestId calls' store' := by
  have rest : ∀ other ∈ earlier ++ later, other ∈ store.processedIds := by
    rw [whole]
    exact fun other inside => ((List.sublist_cons_self req later).append_left earlier).subset inside
  have once := under.once
  rw [whole] at once
  refine ⟨counted, fun other inside => ?_, ?_, fun other inside named => ?_⟩
  · rw [entries, List.mem_append, List.mem_cons, or_left_comm, ← List.mem_append] at inside
    rcases inside with rfl | old
    · exact same ▸ under.cut req (whole ▸ by simp)
    · exact under.cut other (rest other old)
  · rw [entries, filter_renewed same]
    exact once
  · rw [entries, List.mem_append, List.mem_cons, or_left_comm, ← List.mem_append] at inside
    rcases inside with rfl | old
    · exact answer (same.symm.trans named)
    · by_cases here : req.requestId = requestId
      · exact absurd named (other_of_once once here other old)
      · rw [others here]
        exact under.answers other (rest other old) named

theorem Under.entered (under : Under requestId calls store)
    (entries : store'.processedIds = store.makeRoom.processedIds ++ [req]) (short : req.requestId.length < 64)
    (counted : store'.lruCounter ≤ 2 * calls'.length)
    (absent : req.requestId = requestId → ∀ other ∈ store.processedIds, other.requestId ≠ requestId)
    (others : req.requestId ≠ requestId → lastRecorded requestId calls' = lastRecorded requestId calls)
    (answer : req.requestId = requestId → req.status = .processed ∧
      ∃ recorded, lastRecorded requestId calls' = some recorded ∧
        ∀ text, recorded.result = some text → req.cachedResult = strncpy text 255) :
    Under requestId calls' store' := by
  have room := makeRoom_sublist store
  refine ⟨counted, fun other inside => ?_, ?_, fun other inside named => ?_⟩
  · rw [entries] at inside
    rcases List.mem_append.mp inside with old | new
    · exact under.cut other (room.subset old)
    · exact List.mem_singleton.mp new ▸ short
  · rw [entries, List.filter_append, List.length_append]
    by_cases here : req.requestId = requestId
    · have none : store.makeRoom.processedIds.filter (·.requestId = requestId) = [] :=
        List.filter_eq_nil_iff.mpr fun other inside => by simpa using absent here other (room.subset inside)
      rw [none, List.length_nil, Nat.zero_add]
      exact List.length_filter_le _ [req]
    · have kept := Nat.le_trans (room.filter _).length_le under.once
      simpa [here] using kept
  · rw [entries] at inside
    rcases List.mem_append.mp inside with old | new
    · by_cases here : req.requestId = requestId
      · exact absurd named (absent here other (room.subset old))
      · rw [others here]
        exact under.answers other (room.subset old) named
    · rw [List.mem_singleton.mp new] at named ⊢
      exact answer named

theorem holds_renewed (whole : store.processedIds = earlier ++ req :: later)
    (entries : store'.processedIds = earlier ++ req' :: later) (same : req'.requestId = req.requestId)
    (holds : Holds requestId store) :
    Holds requestId store' := by
  obtain ⟨other, inside, named⟩ := holds
  rw [whole, List.mem_append, List.mem_cons, or_left_comm, ← List.mem_append] at inside
  rcases inside with rfl | old
  · exact ⟨req', entries ▸ by simp, same.trans named⟩
  · refine ⟨other, ?_, named⟩
    rw [entries]
    exact ((List.sublist_cons_self req' later).append_left earlier).subset old

/-- What a call that leads to `run'` does to what the store holds under an id. -/
structure Follows (requestId : CString) (calls : List IdempotentCall) (run : IdempotentRun) (call : IdempotentCall)
    (run' : IdempotentRun) : Prop where
  under : Under requestId (calls ++ [call]) run'.store
  kept : ¬ Evicts run.store call → Holds requestId run.store → Holds requestId run'.store
  entered : call.recordedId = some requestId → Holds requestId run'.store

/-- The counter may grow by two in a call. -/
theorem Under.grown (under : Under requestId calls store) {counter : Int} (less : counter ≤ store.lruCounter + 2)
    (call : IdempotentCall) : counter ≤ 2 * ((calls ++ [call]).length : Int) := by
  have counted := under.counted
  rw [List.length_append, List.length_singleton]
  omega

theorem Under.check (under : Under requestId calls run.store) (room : run.store.lruCounter < INT32_MAX) :
    ∃ run', idempotentCall run (.check other method resource bodyHash) = some run' ∧
      Follows requestId calls run (.check other method resource bodyHash) run' := by
  rcases idempotentCheck_cases run.store other method resource bodyHash room with
    ⟨_, checked⟩ | ⟨earlier, req, later, whole, named, checked⟩
  · have same : run.store.lruCounter ≤ run.store.lruCounter + 2 := Int.le_add_of_nonneg_right (by decide)
    refine ⟨_, idempotentCall_check checked, ⟨under.grown same _, under.cut, under.once, fun req inside => ?_⟩,
      fun _ holds => holds, nofun⟩
    rw [lastRecorded_check]
    exact under.answers req inside
  · refine ⟨_, idempotentCall_check checked, under.renewed whole rfl rfl (under.grown (by simp) _)
      (fun _ => lastRecorded_check) fun here => ?_, fun _ holds => holds_renewed whole rfl rfl holds, nofun⟩
    rw [lastRecorded_check]
    exact under.answers req (whole ▸ by simp) here

/-- The result that is stored is the one that is now recorded last. -/
theorem recorded_under (req : IdempotentRequest) (lru : Int) (here : other = requestId) :
    (req.recorded result lru).status = .processed ∧ ∃ recorded,
      lastRecorded requestId (calls ++ [.record other method resource bodyHash result now]) = some recorded ∧
      ∀ text, recorded.result = some text → (req.recorded result lru).cachedResult = strncpy text 255 := by
  refine ⟨rfl, _, by rw [lastRecorded_record, if_pos here], ?_⟩
  rintro text given
  rw [show result = some text from given]
  rfl

/-- An id that is cut when it is entered is another one. -/
theorem strncpy_eq_iff (fits : requestId.length < 64) (alone : 64 ≤ other.length → strncpy other 63 ≠ requestId) :
    strncpy other 63 = requestId ↔ other = requestId := by
  by_cases short : other.length < 64
  · rw [show strncpy other 63 = other from strncpy_of_lt short]
  · refine ⟨fun here => absurd here (alone (Nat.not_lt.mp short)), fun here => ?_⟩
    exact absurd (here ▸ fits) short

theorem Under.record (under : Under requestId calls run.store) (room : run.store.lruCounter + 1 < INT32_MAX)
    (fits : requestId.length < 64) (alone : 64 ≤ other.length → strncpy other 63 ≠ requestId) :
    ∃ run', idempotentCall run (.record other method resource bodyHash result now) = some run' ∧
      Follows requestId calls run (.record other method resource bodyHash result now) run' := by
  have others : other ≠ requestId →
      lastRecorded requestId (calls ++ [.record other method resource bodyHash result now]) =
        lastRecorded requestId calls := fun different => by rw [lastRecorded_record, if_neg different]
  obtain ⟨store', recorded, ⟨earlier, req, later, whole, named, entries, counter⟩ |
    ⟨absent, ⟨req, named, entries⟩, counter⟩⟩ := idempotentRecord_cases run.store other method resource bodyHash
      result now room
  · refine ⟨_, idempotentCall_record recorded, under.renewed whole entries rfl (under.grown (Int.le_of_eq counter) _)
      (fun different => others (named ▸ different)) (fun here => recorded_under req _ (named.symm.trans here)),
      fun _ holds => holds_renewed whole entries rfl holds, fun here => ?_⟩
    exact ⟨req.recorded result (run.store.lruCounter + 2), by rw [entries]; simp, named.trans (Option.some.inj here)⟩
  · have cut : req.requestId.length < 64 := by
      rw [named]
      exact Nat.lt_succ_of_le (length_strncpy_le other 63)
    have same : req.requestId = requestId ↔ other = requestId := named ▸ strncpy_eq_iff fits alone
    refine ⟨_, idempotentCall_record recorded, under.entered entries cut (under.grown (by simp [counter]) _)
      (fun here => same.mp here ▸ absent) (fun different => others fun here => different (same.mpr here))
      (fun here => recorded_under req _ (same.mp here)), fun roomy holds => ?_, fun here => ?_⟩
    · have space : run.store.makeRoom = run.store := if_neg fun full => roomy ⟨full, absent⟩
      obtain ⟨old, inside, named⟩ := holds
      exact ⟨old, by rw [entries, space]; exact List.mem_append_left _ inside, named⟩
    · exact ⟨req.recorded result (run.store.lruCounter + 1), by rw [entries]; simp, same.mpr (Option.some.inj here)⟩

/-- After few calls there is a next state, and it follows. -/
theorem Under.call (under : Under requestId calls run.store) (few : calls.length + 1 < 2 ^ 30)
    (fits : requestId.length < 64) (call : IdempotentCall)
    (alone : ∀ other ∈ call.recordedId, 64 ≤ other.length → strncpy other 63 ≠ requestId) :
    ∃ run', idempotentCall run call = some run' ∧ Follows requestId calls run call run' := by
  have counted := under.counted
  have room : run.store.lruCounter + 1 < INT32_MAX := by
    unfold INT32_MAX
    omega
  cases call with
  | check other method resource bodyHash => exact under.check (by omega)
  | record other method resource bodyHash result now => exact under.record room fits (alone other rfl)

theorem idempotentRun_append (calls later : List IdempotentCall) :
    idempotentRun (calls ++ later) = (idempotentRun calls).bind fun run => later.foldlM idempotentCall run := by
  unfold idempotentRun
  rw [List.foldlM_append]
  rfl

theorem under_of_few (fits : requestId.length < 64) (calls : List IdempotentCall) (few : calls.length < 2 ^ 30)
    (alone : ∀ call ∈ calls, ∀ other ∈ call.recordedId, 64 ≤ other.length → strncpy other 63 ≠ requestId) :
    ∃ run, idempotentRun calls = some run ∧ Under requestId calls run.store := by
  induction calls using List.reverseRecOn with
  | nil => exact ⟨_, rfl, under_init requestId⟩
  | append_singleton calls call ih =>
    rw [List.length_append, List.length_singleton] at few
    obtain ⟨run, ran, under⟩ := ih (by omega) fun call inside => alone call (List.mem_append_left _ inside)
    obtain ⟨run', next, under', _⟩ := under.call few fits call (alone call (by simp))
    refine ⟨run', ?_, under'⟩
    rw [idempotentRun_append, ran]
    simpa using next

/-- What is not given up stays. -/
theorem Under.holds_run {later : List IdempotentCall} (under : Under requestId calls run.store)
    (fits : requestId.length < 64) (few : calls.length + later.length < 2 ^ 30)
    (alone : ∀ call ∈ later, ∀ other ∈ call.recordedId, 64 ≤ other.length → strncpy other 63 ≠ requestId)
    (keeps : KeepsAll run later) (holds : Holds requestId run.store)
    (ran : later.foldlM idempotentCall run = some run') : Holds requestId run'.store := by
  induction later generalizing calls run with
  | nil => exact Option.some.inj ran ▸ holds
  | cons call rest ih =>
    rw [List.length_cons] at few
    obtain ⟨next, called, under', kept, _⟩ := under.call (by omega) fits call (alone call List.mem_cons_self)
    rw [List.foldlM_cons, called] at ran
    have shorter : (calls ++ [call]).length + rest.length < 2 ^ 30 := by
      rw [List.length_append, List.length_singleton]
      omega
    exact ih under' shorter (fun call inside => alone call (List.mem_cons_of_mem _ inside)) (keeps.2 next called)
      (kept keeps.1 holds) ran

theorem mem_of_lastRecorded {recorded : Recorded} (last : lastRecorded requestId calls = some recorded) :
    ∃ now, .record requestId recorded.method recorded.resource recorded.bodyHash recorded.result now ∈ calls := by
  obtain ⟨call, inside, here⟩ := List.mem_filterMap.mp (List.mem_of_getLast? last)
  cases call with
  | check => cases here
  | record id method resource bodyHash result now =>
    simp only [recordedUnder] at here
    split_ifs at here with same
    obtain rfl := same
    obtain rfl := Option.some.inj here
    exact ⟨now, inside⟩

/-- A request that was recorded and not given up since has an entry. -/
theorem holds_of_recorded {earlier later : List IdempotentCall} (fits : requestId.length < 64)
    (few : (earlier ++ .record requestId method resource bodyHash result now :: later).length < 2 ^ 30)
    (alone : ∀ call ∈ earlier ++ .record requestId method resource bodyHash result now :: later,
      ∀ other ∈ call.recordedId, 64 ≤ other.length → strncpy other 63 ≠ requestId)
    (keeps : ∀ run ∈ idempotentRun (earlier ++ [.record requestId method resource bodyHash result now]),
      KeepsAll run later)
    (ran : idempotentRun (earlier ++ .record requestId method resource bodyHash result now :: later) = some run) :
    Holds requestId run.store := by
  rw [List.length_append, List.length_cons] at few
  obtain ⟨start, started, under⟩ := under_of_few fits earlier (by omega)
    fun call inside => alone call (List.mem_append_left _ inside)
  obtain ⟨run', called, next, _, entered⟩ := under.call (by omega) fits
    (.record requestId method resource bodyHash result now) (alone _ (by simp))
  have reached : idempotentRun (earlier ++ [.record requestId method resource bodyHash result now]) = some run' := by
    rw [idempotentRun_append, started]
    simpa using called
  have rest : later.foldlM idempotentCall run' = some run := by
    rw [List.append_cons, idempotentRun_append, reached] at ran
    exact ran
  refine next.holds_run fits ?_ (fun call inside => alone call (by simp [inside])) (keeps run' reached)
    (entered rfl) rest
  rw [List.length_append, List.length_singleton]
  omega

/-- After few calls the counter is below its maximum. -/
theorem Under.room (under : Under requestId calls store) (few : calls.length < 2 ^ 30) :
    store.lruCounter < INT32_MAX := by
  have counted := under.counted
  unfold INT32_MAX
  omega

theorem replays_of_fits (few : calls.length < 2 ^ 30) (fits : requestId.length < 64)
    (alone : ∀ call ∈ calls, ∀ other ∈ call.recordedId, 64 ≤ other.length → strncpy other 63 ≠ requestId)
    (last : ∀ run ∈ idempotentRun calls, Holds requestId run.store →
      ∀ recorded ∈ lastRecorded requestId calls, recorded.method = method ∧ recorded.resource = resource ∧
        recorded.bodyHash = bodyHash ∧ ∃ text, recorded.result = some text ∧ text.length < 256) :
    Replays calls requestId method resource bodyHash := by
  obtain ⟨run, ran, under⟩ := under_of_few fits calls few alone
  rcases idempotentCheck_cases run.store requestId method resource bodyHash (under.room few) with
    ⟨absent, checked⟩ | ⟨earlier, req, later, whole, named, checked⟩
  · refine ⟨run, _, _, _, ran, checked, fun processed => ?_, fun earlier later result now whole keeps => ?_⟩
    · cases processed
    · subst whole
      obtain ⟨req, inside, named⟩ := holds_of_recorded fits few alone keeps ran
      exact absurd named (absent req inside)
  · obtain ⟨status, recorded, under', cached⟩ := under.answers req (whole ▸ by simp) named
    obtain ⟨rfl, rfl, rfl, text, given, short⟩ := last run ran ⟨req, whole ▸ by simp, named⟩ recorded under'
    have result : strncpy req.cachedResult 255 = text := by
      rw [cached text given, show strncpy text 255 = text from strncpy_of_lt short]
      exact strncpy_of_lt short
    obtain ⟨now, inside⟩ := mem_of_lastRecorded under'
    refine ⟨run, _, _, _, ran, checked, fun _ => ⟨text, now, ?_, given ▸ inside⟩, fun _ _ _ _ _ _ => status⟩
    rw [if_pos status, result]

/-- No entry has an id that does not fit, so that a check of it finds none. -/
theorem replays_of_long (few : calls.length < 2 ^ 30) (long : 64 ≤ requestId.length)
    (unrecorded : ∀ call ∈ calls, ∀ recorded ∈ recordedUnder requestId call,
      (recorded.method, recorded.resource, recorded.bodyHash) ≠ (method, resource, bodyHash)) :
    Replays calls requestId method resource bodyHash := by
  have alone : ∀ call ∈ calls, ∀ other ∈ call.recordedId, 64 ≤ other.length → strncpy other 63 ≠ [] := by
    intro call _ other _ long empty
    have length := congrArg List.length empty
    rw [strncpy, List.length_take] at length
    simp only [List.length_nil] at length
    omega
  obtain ⟨run, ran, under⟩ := under_of_few (by decide : ([] : CString).length < 64) calls few alone
  rcases idempotentCheck_cases run.store requestId method resource bodyHash (under.room few) with
    ⟨absent, checked⟩ | ⟨earlier, req, later, whole, named, checked⟩
  · refine ⟨run, _, _, _, ran, checked, fun processed => ?_, fun earlier later result now whole keeps => ?_⟩
    · cases processed
    · have inside : .record requestId method resource bodyHash result now ∈ calls := by
        rw [whole]
        simp
      exact absurd rfl (unrecorded _ inside _ (if_pos rfl))
  · have cut := under.cut req (whole ▸ by simp)
    rw [named] at cut
    omega

end Invariant

/-- A check after fewer than `2 ^ 30` calls, of an id that identifies the request, replays the right result. -/
theorem idempotentCheck_replays (calls : List IdempotentCall) (requestId method resource : CString) (bodyHash : UInt64)
    (few : calls.length < 2 ^ 30) (identifies : Identifies calls requestId method resource bodyHash) :
    Replays calls requestId method resource bodyHash := by
  rcases identifies with ⟨fits, alone, last⟩ | ⟨long, unrecorded⟩
  · exact replays_of_fits few fits alone last
  · exact replays_of_long few long unrecorded

/-- A request is recorded twice, and another one and a check come between. -/
def recordedTwice : List IdempotentCall :=
  [.record [1] [2] [3] 4 (some [5]) 0, .record [6] [2] [3] 4 (some [7]) 1, .check [6] [2] [3] 4,
    .record [1] [2] [3] 4 (some [8]) 2]

theorem idempotentCheck_replays_twice : Replays recordedTwice [1] [2] [3] 4 := by
  refine idempotentCheck_replays _ _ _ _ _ (by decide) (.inl ⟨by decide, ?_, ?_⟩)
  · simp [recordedTwice, IdempotentCall.recordedId]
  · intro run _ _ recorded same
    have last : lastRecorded [1] recordedTwice = some ⟨[2], [3], 4, some [8]⟩ := by decide
    cases last.symm.trans same
    exact ⟨rfl, rfl, rfl, [8], rfl, by decide⟩

/-- The result of one request is given for another that has its id. -/
theorem idempotentCheck_confuses :
    ¬ ∀ (calls : List IdempotentCall) (requestId method resource : CString) (bodyHash : UInt64),
      calls.length < 2 ^ 30 → Replays calls requestId method resource bodyHash := by
  intro replays
  obtain ⟨run, store, status, out, ran, checked, replayed, _⟩ :=
    replays [.record [1] [2] [3] 4 (some [5]) 0] [1] [2] [3] 6 (by decide)
  obtain rfl : run = ⟨⟨[⟨[1], [2], [3], 4, 0, .processed, [5], 1⟩], [], 1⟩, [[1]]⟩ :=
    (Option.some.inj (ran.symm.trans rfl))
  have processed : status = .processed := by
    have same := congrArg (Option.map fun answer => answer.2.1) checked
    exact (Option.some.inj same).symm
  obtain ⟨result, now, _, inside⟩ := replayed processed
  simp at inside

end MiniNetDist.Transaction.Idempotency
