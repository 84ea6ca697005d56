import MiniNetDist.Library.Run
import MiniNetDist.Transaction.OccStore

/-! Serializability of the optimistic transactions. What a transaction read from a record
is current as long as the record keeps the version noted, so a commit that validates could
have run as a whole at the point of its commit. This needs the read to be noted and the
writes to find a record: a full read set and a full table drop them silently. -/

namespace MiniNetDist.Transaction.Occ

open Library

variable {mgr after : OCCManager} {sys : OCCSystem} {session : OCCSession} {txn : OCCTransaction}
  {key value : CString} {t : Nat}

/-- The session with a number. One that has not begun has done nothing. -/
def OCCSystem.sessionAt (sys : OCCSystem) (t : Nat) : OCCSession :=
  (sys.sessions[t]?).getD ⟨occTxnInit 0, [], false⟩

/-- The transactions with a commit that returned true, by commit timestamp. -/
structure SerialOrder (sys : OCCSystem) (order : List Nat) : Prop where
  committed : ∀ t, t ∈ order ↔ (sys.sessionAt t).committed = true
  sorted : order.Pairwise fun first second =>
    (sys.sessionAt first).txn.commitTs < (sys.sessionAt second).txn.commitTs

/-- Executed one after another in that order, from the empty database, the committed
transactions read the values they did read and leave those the records hold. -/
def Serializable (sys : OCCSystem) : Prop :=
  ∃ order, SerialOrder sys order ∧
    Serial.replay (fun _ => []) (order.flatMap fun t => (sys.sessionAt t).accesses) = some (occValue sys.mgr)

def KeysShort (_ : OCCSystem) : OCCCall → Prop
  | .read _ key | .write _ key _ => key.length < OCC_KEY_LEN
  | .begin _ | .commit _ | .abort _ => True

/-- A read that will take its value from a record finds space for its entry, or an
earlier entry of the key. -/
def ReadNoted (mgr : OCCManager) (txn : OCCTransaction) (key : CString) : Prop :=
  txn.phase = .readPhase → key ∉ txn.writeSet.map OCCWriteEntry.key →
    Table.HasRoom OCC_MAX_KEYS mgr.keys key →
      txn.readSet.length < OCC_MAX_KEYS ∨ key ∈ txn.readSet.map OCCReadEntry.key

/-- A commit that will be let through is the transaction's first, and finds room for the
records it needs. -/
def CommitLands (mgr : OCCManager) (session : OCCSession) : Prop :=
  occValid mgr session.txn = true → session.committed = false ∧
    Table.Room OCC_MAX_KEYS mgr.keys (session.txn.writeSet.map OCCWriteEntry.key)

def Tracked (sys : OCCSystem) : OCCCall → Prop
  | .read t key => ∀ session ∈ sys.sessions[t]?, ReadNoted sys.mgr session.txn key
  | .commit t => ∀ session ∈ sys.sessions[t]?, CommitLands sys.mgr session
  | .begin _ | .write _ _ _ | .abort _ => True

instance (sys : OCCSystem) : (call : OCCCall) → Decidable (KeysShort sys call)
  | .read _ _ | .write _ _ _ => inferInstanceAs (Decidable (_ < _))
  | .begin _ | .commit _ | .abort _ => .isTrue trivial

instance (mgr : OCCManager) (txn : OCCTransaction) (key : CString) : Decidable (ReadNoted mgr txn key) :=
  inferInstanceAs (Decidable (_ → _ → _ → _ ∨ _))

instance (mgr : OCCManager) (session : OCCSession) : Decidable (CommitLands mgr session) :=
  inferInstanceAs (Decidable (_ → _ ∧ _))

instance (sys : OCCSystem) : (call : OCCCall) → Decidable (Tracked sys call)
  | .read t key => inferInstanceAs (Decidable (∀ session ∈ sys.sessions[t]?, ReadNoted sys.mgr session.txn key))
  | .commit t => inferInstanceAs (Decidable (∀ session ∈ sys.sessions[t]?, CommitLands sys.mgr session))
  | .begin _ | .write _ _ _ | .abort _ => .isTrue trivial

/-- The value the transaction has written to a key itself. -/
def OCCTransaction.buffer (txn : OCCTransaction) (key : CString) : Option CString :=
  (Table.find OCCWriteEntry.key txn.writeSet key).map (·.value)

/-- Some entry of the read set answers for the value read: it is still the record's as
long as the record has the version of the entry. -/
def AnsweredFor (mgr : OCCManager) (txn : OCCTransaction) (read : CString × CString) : Prop :=
  ∃ entry ∈ txn.readSet, entry.key = read.1 ∧
    ∀ rec, occFindRecord mgr entry.key = some rec → rec.version = entry.versionAtRead → rec.value = read.2

structure SessionSound (mgr : OCCManager) (session : OCCSession) : Prop where
  writes : WritesFormed session.txn.writeSet
  noted : ∀ entry ∈ session.txn.readSet, ∃ rec, occFindRecord mgr entry.key = some rec ∧
    entry.versionAtRead ≤ rec.version
  buffered : ∃ seen, Serial.Buffered session.accesses session.txn.buffer seen ∧
    ∀ read ∈ seen, AnsweredFor mgr session.txn read
  closed : session.committed = true → session.txn.phase ≠ .readPhase
  stamped : session.committed = true → session.txn.commitTs < mgr.globalVersion

theorem SessionSound.newer (sound : SessionSound mgr session) (newer : Newer mgr after) :
    SessionSound after session where
  writes := sound.writes
  noted := by
    intro entry present
    obtain ⟨rec, found, bound⟩ := sound.noted entry present
    obtain ⟨next, later, rfl | moved⟩ := newer.records _ rec found
    · exact ⟨next, later, bound⟩
    · exact ⟨next, later, by omega⟩
  buffered := by
    obtain ⟨seen, buffered, answered⟩ := sound.buffered
    refine ⟨seen, buffered, ?_⟩
    intro read present
    obtain ⟨entry, inside, named, current⟩ := answered read present
    refine ⟨entry, inside, named, ?_⟩
    intro next later sameVersion
    obtain ⟨rec, found, bound⟩ := sound.noted entry inside
    obtain ⟨moved, kept, same⟩ := newer.records _ rec found
    rw [kept] at later
    cases later
    rcases same with rfl | advanced
    · exact current _ found sameVersion
    · omega
  closed := sound.closed
  stamped := fun committed => Int.lt_of_lt_of_le (sound.stamped committed) newer.clock

theorem OCCWriteEntry.put_key (value : CString) (entry : OCCWriteEntry) : (entry.put value).key = entry.key := rfl

/-- A write that succeeds puts the value into the buffer. -/
theorem occTxnWrite_cases (formed : WritesFormed txn.writeSet) (value : CString)
    (short : key.length < OCC_KEY_LEN) :
    occTxnWrite txn key value = (txn, false) ∨
      ∃ writes, txn.phase = .readPhase ∧ occTxnWrite txn key value = ({ txn with writeSet := writes }, true) ∧
        WritesFormed writes ∧ OCCTransaction.buffer { txn with writeSet := writes } =
          Function.update txn.buffer key (some (strncpy value (OCC_VAL_LEN - 1))) := by
  have fits : (strncpy value (OCC_VAL_LEN - 1)).length < OCC_VAL_LEN :=
    Nat.lt_succ_of_le (length_strncpy_le _ _)
  unfold occTxnWrite
  split_ifs with phase full known
  · exact .inl rfl
  · exact .inl rfl
  · refine .inr ⟨_, not_not.mp phase, rfl, ⟨?_, ?_, ?_⟩, ?_⟩
    · rw [Table.map_update (OCCWriteEntry.put_key value)]
      exact formed.distinct
    · intro write present
      rcases Table.mem_update_cases present with old | ⟨old, inside, rfl⟩
      · exact formed.short write old
      · exact formed.short old inside
    · intro write present
      rcases Table.mem_update_cases present with old | ⟨old, inside, rfl⟩
      · exact formed.values write old
      · exact fits
    · obtain ⟨entry, found⟩ := Option.isSome_iff_exists.mp known
      funext other
      unfold OCCTransaction.buffer
      dsimp only
      rw [Table.find_update (OCCWriteEntry.put_key value), Function.update_apply, found]
      split_ifs <;> rfl
  · have missing := Option.not_isSome_iff_eq_none.mp known
    rw [strncpy_of_lt short]
    refine .inr ⟨_, not_not.mp phase, rfl, ⟨?_, ?_, ?_⟩, ?_⟩
    · rw [List.map_append]
      refine List.Nodup.append formed.distinct (List.nodup_singleton _) ?_
      exact List.disjoint_singleton.mpr (Table.find_eq_none_iff.mp missing)
    · exact List.forall_mem_append.mpr ⟨formed.short, List.forall_mem_singleton.mpr short⟩
    · exact List.forall_mem_append.mpr ⟨formed.values, List.forall_mem_singleton.mpr fits⟩
    · funext other
      unfold OCCTransaction.buffer
      rw [Table.find_append, Function.update_apply]
      by_cases same : other = key
      · subst same
        simp [missing]
      · simp [same, Ne.symm same]

/-- What a call other than a successful commit may change: nothing that a committed
transaction did, and no value. -/
structure Quiet (mgr : OCCManager) (session : OCCSession) (result : OCCManager × OCCSession) : Prop where
  newer : Newer mgr result.1
  formed : RecordsFormed result.1
  values : occValue result.1 = occValue mgr
  sound : SessionSound result.1 result.2
  committed : result.2.committed = session.committed
  kept : session.committed = true →
    result.2.accesses = session.accesses ∧ result.2.txn.commitTs = session.txn.commitTs

theorem Quiet.unchanged (formed : RecordsFormed mgr) (sound : SessionSound mgr session) :
    Quiet mgr session (mgr, session) :=
  ⟨Newer.refl mgr, formed, rfl, sound, rfl, fun _ => ⟨rfl, rfl⟩⟩

/-- Leaving the read phase is quiet. -/
theorem Quiet.leave {next : OCCTransaction} (formed : RecordsFormed mgr) (sound : SessionSound mgr session)
    (reads : next.readSet = session.txn.readSet) (writes : next.writeSet = session.txn.writeSet)
    (stamp : next.commitTs = session.txn.commitTs) (left : next.phase ≠ .readPhase) :
    Quiet mgr session (mgr, { session with txn := next }) where
  newer := Newer.refl mgr
  formed := formed
  values := rfl
  sound := by
    obtain ⟨seen, buffered, answered⟩ := sound.buffered
    have sameBuffer : next.buffer = session.txn.buffer := by
      funext key
      rw [OCCTransaction.buffer, writes]
      rfl
    refine ⟨?_, ?_, ⟨seen, ?_, ?_⟩, fun _ => left, ?_⟩
    · exact writes ▸ sound.writes
    · exact reads ▸ sound.noted
    · exact sameBuffer ▸ buffered
    · intro read present
      obtain ⟨entry, inside, rest⟩ := answered read present
      exact ⟨entry, reads ▸ inside, rest⟩
    · exact stamp ▸ sound.stamped
  committed := rfl
  kept := fun _ => ⟨rfl, stamp⟩

theorem quiet_abort (formed : RecordsFormed mgr) (sound : SessionSound mgr session) :
    Quiet mgr session (session.abort mgr) :=
  Quiet.leave formed sound rfl rfl rfl (by simp [occTxnAbort])

theorem quiet_write (formed : RecordsFormed mgr) (sound : SessionSound mgr session) (value : CString)
    (short : key.length < OCC_KEY_LEN) : Quiet mgr session (session.write key value mgr) := by
  unfold OCCSession.write
  rcases occTxnWrite_cases sound.writes value short with refused | ⟨writes, phase, written, kept, buffer⟩
  · rw [refused]
    simpa using Quiet.unchanged formed sound
  · have running : session.committed ≠ true := fun committed => sound.closed committed phase
    obtain ⟨seen, buffered, answered⟩ := sound.buffered
    rw [written]
    refine ⟨Newer.refl mgr, formed, rfl, ⟨kept, sound.noted, ⟨seen, ?_, answered⟩, sound.closed, sound.stamped⟩,
      rfl, fun committed => absurd committed running⟩
    dsimp only
    rw [if_pos rfl, buffer]
    exact buffered.write key _

theorem OCCTransaction.buffer_eq_none (absent : Table.find OCCWriteEntry.key txn.writeSet key = none) :
    txn.buffer key = none := by
  rw [OCCTransaction.buffer, absent]
  rfl

/-- A value read from a record is answered for by the new entry or, when the read set
is full, by an earlier one of the key. -/
theorem SessionSound.readRecord {rec : OCCRecord} (sound : SessionSound mgr session)
    (outside : session.txn.buffer key = none) (found : occFindRecord mgr key = some rec)
    (space : session.txn.readSet.length < OCC_MAX_KEYS ∨ key ∈ session.txn.readSet.map OCCReadEntry.key) :
    SessionSound mgr { session with
      txn := { session.txn with readSet :=
        if session.txn.readSet.length < OCC_MAX_KEYS then session.txn.readSet ++ [⟨key, rec.version⟩]
        else session.txn.readSet }
      accesses := session.accesses ++ [.read key rec.value] } := by
  obtain ⟨seen, buffered, answered⟩ := sound.buffered
  refine ⟨sound.writes, ?_, ⟨(key, rec.value) :: seen, buffered.readOutside outside, ?_⟩, sound.closed,
    sound.stamped⟩
  · dsimp only
    split_ifs
    · refine List.forall_mem_append.mpr ⟨sound.noted, List.forall_mem_singleton.mpr ?_⟩
      exact ⟨rec, found, Int.le_refl _⟩
    · exact sound.noted
  · have current : ∀ other, occFindRecord mgr key = some other → other.value = rec.value := by
      intro other here
      rw [found] at here
      cases here
      rfl
    have grows : ∀ entry ∈ session.txn.readSet, entry ∈ if session.txn.readSet.length < OCC_MAX_KEYS
        then session.txn.readSet ++ [⟨key, rec.version⟩] else session.txn.readSet := by
      intro entry inside
      split_ifs
      · exact List.mem_append_left _ inside
      · exact inside
    refine List.forall_mem_cons.mpr ⟨?_, ?_⟩
    · by_cases fits : session.txn.readSet.length < OCC_MAX_KEYS
      · exact ⟨⟨key, rec.version⟩, by simp [fits], rfl, fun other here _ => current other here⟩
      · obtain ⟨entry, inside, rfl⟩ := List.mem_map.mp (space.resolve_left fits)
        exact ⟨entry, grows entry inside, rfl, fun other here _ => current other here⟩
    · intro read present
      obtain ⟨entry, inside, rest⟩ := answered read present
      exact ⟨entry, grows entry inside, rest⟩

theorem quiet_read (formed : RecordsFormed mgr) (started : 0 < mgr.globalVersion)
    (sound : SessionSound mgr session) (short : key.length < OCC_KEY_LEN)
    (noted : ReadNoted mgr session.txn key) : Quiet mgr session (session.read key mgr) := by
  have newer : Newer mgr (occEnsureRecord mgr key []).1 := occEnsureRecord_newer short
  have ensured : RecordsFormed (occEnsureRecord mgr key []).1 := occEnsureRecord_formed formed started short
  have running : session.txn.phase = .readPhase → session.committed ≠ true :=
    fun phase committed => sound.closed committed phase
  unfold OCCSession.read
  rcases occTxnRead_cases mgr session.txn short with ⟨-, read⟩ | ⟨entry, phase, own, read⟩ | ⟨phase, read⟩ |
    ⟨rec, phase, outside, found, read⟩
  · rw [read]
    simpa using Quiet.unchanged formed sound
  · obtain ⟨seen, buffered, answered⟩ := sound.buffered
    have fits := sound.writes.values entry (List.mem_of_find?_eq_some own)
    have stored : session.txn.buffer key = some entry.value := by
      rw [OCCTransaction.buffer, own]
      rfl
    rw [read, strncpy_of_lt fits]
    exact ⟨Newer.refl mgr, formed, rfl,
      ⟨sound.writes, sound.noted, ⟨seen, buffered.readOwn stored, answered⟩, sound.closed, sound.stamped⟩,
      rfl, fun committed => absurd committed (running phase)⟩
  · rw [read]
    refine ⟨newer, ensured, occValue_ensure short, ?_, rfl, fun committed => absurd committed (running phase)⟩
    simpa using sound.newer newer
  · have space := noted phase (Table.find_eq_none_iff.mp outside) (hasRoom_of_found found)
    rw [read, strncpy_of_lt (ensured key rec found).1]
    exact ⟨newer, ensured, occValue_ensure short,
      (sound.newer newer).readRecord (OCCTransaction.buffer_eq_none outside) found space, rfl,
      fun committed => absurd committed (running phase)⟩

theorem quiet_commit (formed : RecordsFormed mgr) (sound : SessionSound mgr session)
    (refused : ¬ occValid mgr session.txn = true) : Quiet mgr session (session.commit mgr) := by
  unfold OCCSession.commit
  rw [occTxnCommit_eq, if_neg refused]
  dsimp only
  rw [Bool.or_false]
  exact Quiet.leave formed sound rfl rfl rfl (by simp)

/-- Validation: every value read from a record is still the record's. -/
theorem AnsweredFor.current {read : CString × CString} (sound : SessionSound mgr session)
    (valid : occValid mgr session.txn = true) (answered : AnsweredFor mgr session.txn read) :
    occValue mgr read.1 = read.2 := by
  obtain ⟨entry, inside, named, current⟩ := answered
  obtain ⟨rec, found, bound⟩ := sound.noted entry inside
  have backward : occBackwardValidation mgr session.txn = true := (Bool.and_eq_true_iff.mp valid).1
  have unchanged := List.all_eq_true.mp backward entry inside
  have still : rec.version ≤ entry.versionAtRead := by
    simpa [occUnchanged, found] using unchanged
  have value := current rec found (Int.le_antisymm still bound)
  rw [named] at found
  rw [occValue, found]
  exact value

/-- A commit that is let through could have run as a whole here. -/
theorem replay_commit (sound : SessionSound mgr session) (valid : occValid mgr session.txn = true)
    (room : Table.Room OCC_MAX_KEYS mgr.keys (session.txn.writeSet.map OCCWriteEntry.key)) :
    Serial.replay (occValue mgr) session.accesses = some (occValue (occInstallAll mgr session.txn)) := by
  obtain ⟨seen, buffered, answered⟩ := sound.buffered
  have replayed := buffered (occValue mgr) fun read present => (answered read present).current sound valid
  rw [replayed]
  congr 1
  funext key
  rw [occValue, occFindRecord_installAll sound.writes room, Serial.overlay, OCCTransaction.buffer]
  cases Table.find OCCWriteEntry.key session.txn.writeSet key with
  | none => rfl
  | some write => rfl

theorem occInstallAll_newer (formed : RecordsFormed mgr) (writes : WritesFormed txn.writeSet)
    (room : Table.Room OCC_MAX_KEYS mgr.keys (txn.writeSet.map OCCWriteEntry.key)) :
    Newer mgr (occInstallAll mgr txn) := by
  constructor
  · intro key rec found
    rw [occFindRecord_installAll writes room, found]
    cases Table.find OCCWriteEntry.key txn.writeSet key with
    | none => exact ⟨rec, rfl, .inl rfl⟩
    | some write => exact ⟨write.installs mgr.globalVersion, rfl, .inr (formed key rec found).2⟩
  · rw [occInstallAll_globalVersion]
    omega

theorem occInstallAll_formed (formed : RecordsFormed mgr) (writes : WritesFormed txn.writeSet)
    (room : Table.Room OCC_MAX_KEYS mgr.keys (txn.writeSet.map OCCWriteEntry.key)) :
    RecordsFormed (occInstallAll mgr txn) := by
  intro key rec found
  rw [occFindRecord_installAll writes room] at found
  rw [occInstallAll_globalVersion]
  cases wrote : Table.find OCCWriteEntry.key txn.writeSet key with
  | none =>
    rw [wrote] at found
    obtain ⟨fits, past⟩ := formed key rec found
    exact ⟨fits, by omega⟩
  | some write =>
    rw [wrote] at found
    cases found
    exact ⟨writes.values write (List.mem_of_find?_eq_some wrote), Int.lt_succ _⟩

structure OccSound (sys : OCCSystem) : Prop where
  started : 0 < sys.mgr.globalVersion
  formed : RecordsFormed sys.mgr
  sessions : ∀ session ∈ sys.sessions, SessionSound sys.mgr session
  serial : Serializable sys

theorem sessionAt_of_found (found : sys.sessions[t]? = some session) : sys.sessionAt t = session := by
  rw [OCCSystem.sessionAt, found]
  rfl

theorem sessionAt_set {next : OCCSession} (found : sys.sessions[t]? = some session) (u : Nat) :
    OCCSystem.sessionAt ⟨after, sys.sessions.set t next⟩ u = if u = t then next else sys.sessionAt u := by
  obtain ⟨bound, -⟩ := List.getElem?_eq_some_iff.mp found
  unfold OCCSystem.sessionAt
  rw [List.getElem?_set]
  by_cases same : u = t
  · subst same
    simp [bound]
  · simp [same, Ne.symm same]

theorem sessionAt_append (next : OCCSession) (u : Nat) :
    OCCSystem.sessionAt ⟨after, sys.sessions ++ [next]⟩ u =
      if u = sys.sessions.length then next else sys.sessionAt u := by
  unfold OCCSystem.sessionAt
  split_ifs with new
  · simp [new]
  · rw [List.getElem?_append]
    split_ifs with old
    · rfl
    · have beyond : sys.sessions.length < u := by omega
      simp [List.getElem?_eq_none (Nat.le_of_lt beyond), Nat.sub_ne_zero_of_lt beyond]

/-- Steps that change neither the values nor what the committed transactions did. -/
theorem Serializable.frame {next : OCCSystem} (serial : Serializable sys)
    (values : occValue next.mgr = occValue sys.mgr)
    (committed : ∀ t, (next.sessionAt t).committed = (sys.sessionAt t).committed)
    (kept : ∀ t, (sys.sessionAt t).committed = true → (next.sessionAt t).accesses = (sys.sessionAt t).accesses ∧
      (next.sessionAt t).txn.commitTs = (sys.sessionAt t).txn.commitTs) : Serializable next := by
  obtain ⟨order, ⟨members, sorted⟩, replayed⟩ := serial
  refine ⟨order, ⟨fun t => by rw [committed]; exact members t, ?_⟩, ?_⟩
  · refine sorted.imp_of_mem ?_
    intro first second firstIn secondIn before
    rw [(kept first ((members first).mp firstIn)).2, (kept second ((members second).mp secondIn)).2]
    exact before
  · rw [values, ← replayed]
    congr 1
    refine List.flatMap_congr ?_
    intro t inside
    exact (kept t ((members t).mp inside)).1

theorem OccSound.quiet {result : OCCManager × OCCSession} (sound : OccSound sys)
    (found : sys.sessions[t]? = some session) (quiet : Quiet sys.mgr session result) :
    OccSound ⟨result.1, sys.sessions.set t result.2⟩ where
  started := Int.lt_of_lt_of_le sound.started quiet.newer.clock
  formed := quiet.formed
  sessions := by
    intro other present
    rcases List.mem_or_eq_of_mem_set present with old | rfl
    · exact (sound.sessions other old).newer quiet.newer
    · exact quiet.sound
  serial := by
    refine sound.serial.frame quiet.values ?_ ?_
    · intro u
      rw [sessionAt_set found]
      split_ifs with same
      · rw [same, sessionAt_of_found found, quiet.committed]
      · rfl
    · intro u committed
      rw [sessionAt_set found]
      split_ifs with same
      · rw [same, sessionAt_of_found found] at committed ⊢
        exact quiet.kept committed
      · exact ⟨rfl, rfl⟩

/-- A commit with the latest timestamp goes to the end of the order. -/
theorem Serializable.land {next : OCCSession} (serial : Serializable sys) (found : sys.sessions[t]? = some session)
    (stamps : ∀ u, (sys.sessionAt u).committed = true → (sys.sessionAt u).txn.commitTs < next.txn.commitTs)
    (fresh : session.committed = false) (committed : next.committed = true)
    (accesses : next.accesses = session.accesses)
    (replayed : Serial.replay (occValue sys.mgr) session.accesses = some (occValue after)) :
    Serializable ⟨after, sys.sessions.set t next⟩ := by
  obtain ⟨order, ⟨members, sorted⟩, earlier⟩ := serial
  have absent : t ∉ order := by
    rw [members, sessionAt_of_found found, fresh]
    exact Bool.false_ne_true
  have others : ∀ u ∈ order, OCCSystem.sessionAt ⟨after, sys.sessions.set t next⟩ u = sys.sessionAt u := by
    intro u inside
    have different : u ≠ t := fun same => absent (same ▸ inside)
    rw [sessionAt_set found, if_neg different]
  have last : OCCSystem.sessionAt ⟨after, sys.sessions.set t next⟩ t = next := by
    rw [sessionAt_set found, if_pos rfl]
  refine ⟨order ++ [t], ⟨?_, ?_⟩, ?_⟩
  · intro u
    rw [List.mem_append, List.mem_singleton, members, sessionAt_set found]
    split_ifs with same
    · simp [same, committed]
    · simp [same]
  · refine List.pairwise_append.mpr ⟨?_, List.pairwise_singleton _ _, ?_⟩
    · refine sorted.imp_of_mem ?_
      intro first second firstIn secondIn before
      rw [others first firstIn, others second secondIn]
      exact before
    · intro u inside v here
      rw [List.mem_singleton.mp here, others u inside, last]
      exact stamps u ((members u).mp inside)
  · have before : (order.flatMap fun u => (OCCSystem.sessionAt ⟨after, sys.sessions.set t next⟩ u).accesses) =
        order.flatMap fun u => (sys.sessionAt u).accesses :=
      List.flatMap_congr fun u inside => by rw [others u inside]
    rw [List.flatMap_append, before, Serial.replay_append, earlier, Option.bind_some, List.flatMap_singleton,
      last, accesses, replayed]

theorem OccSound.land (sound : OccSound sys) (found : sys.sessions[t]? = some session)
    (valid : occValid sys.mgr session.txn = true) (lands : CommitLands sys.mgr session) :
    OccSound ⟨(session.commit sys.mgr).1, sys.sessions.set t (session.commit sys.mgr).2⟩ := by
  obtain ⟨fresh, room⟩ := lands valid
  have running := sound.sessions session (List.mem_of_getElem? found)
  have newer := occInstallAll_newer sound.formed running.writes room
  have moved := running.newer newer
  unfold OCCSession.commit
  rw [occTxnCommit_eq, if_pos valid]
  dsimp only
  rw [Bool.or_true]
  refine ⟨Int.lt_of_lt_of_le sound.started newer.clock, occInstallAll_formed sound.formed running.writes room,
    ?_, ?_⟩
  · intro other present
    rcases List.mem_or_eq_of_mem_set present with old | rfl
    · exact (sound.sessions other old).newer newer
    · refine ⟨moved.writes, moved.noted, moved.buffered, fun _ => by simp, fun _ => ?_⟩
      rw [occInstallAll_globalVersion]
      exact Int.lt_succ _
  · refine sound.serial.land found ?_ fresh rfl rfl (replay_commit running valid room)
    intro u committed
    cases other : sys.sessions[u]? with
    | none =>
      rw [OCCSystem.sessionAt, other] at committed
      cases committed
    | some session =>
      rw [sessionAt_of_found other] at committed ⊢
      exact (sound.sessions session (List.mem_of_getElem? other)).stamped committed

theorem OccSound.begin (sound : OccSound sys) (txnId : Int) : OccSound (occStep sys (.begin txnId)) := by
  dsimp only [occStep]
  unfold occTxnBegin
  split_ifs with full
  · simpa using sound
  · have newer : Newer sys.mgr { sys.mgr with
        globalVersion := sys.mgr.globalVersion + 1
        activeTxns := sys.mgr.activeTxns ++ [{ occTxnInit txnId with startTs := sys.mgr.globalVersion }] } :=
      ⟨(Newer.refl sys.mgr).records, by dsimp only; omega⟩
    refine ⟨Int.lt_of_lt_of_le sound.started newer.clock, ?_, ?_, ?_⟩
    · intro key rec found
      obtain ⟨fits, past⟩ := sound.formed key rec found
      exact ⟨fits, Int.lt_of_lt_of_le past newer.clock⟩
    · refine List.forall_mem_append.mpr ⟨fun session present => (sound.sessions session present).newer newer, ?_⟩
      refine List.forall_mem_singleton.mpr ⟨⟨List.nodup_nil, ?_, ?_⟩, ?_, ⟨[], Serial.buffered_nil, ?_⟩, ?_, ?_⟩
      · intro write present; cases present
      · intro write present; cases present
      · intro entry present; cases present
      · intro read present; cases present
      · intro committed; cases committed
      · intro committed; cases committed
    · have unborn : sys.sessionAt sys.sessions.length = ⟨occTxnInit 0, [], false⟩ := by
        simp [OCCSystem.sessionAt]
      refine sound.serial.frame rfl ?_ ?_
      · intro u
        rw [Option.map_some, Option.toList_some, sessionAt_append]
        split_ifs with new
        · rw [new, unborn]
        · rfl
      · intro u committed
        rw [Option.map_some, Option.toList_some, sessionAt_append]
        split_ifs with new
        · rw [new, unborn] at committed
          cases committed
        · exact ⟨rfl, rfl⟩

theorem occSound_init : OccSound occSystemInit where
  started := by decide
  formed := by
    intro key rec found
    cases found
  sessions := by
    intro session present
    cases present
  serial := ⟨[], ⟨fun t => by simp [OCCSystem.sessionAt, occSystemInit], List.Pairwise.nil⟩, rfl⟩

theorem OccSound.on (sound : OccSound sys) (t : Nat) (act : OCCManager → OCCSession → OCCManager × OCCSession)
    (each : ∀ session, sys.sessions[t]? = some session →
      OccSound ⟨(act sys.mgr session).1, sys.sessions.set t (act sys.mgr session).2⟩) :
    OccSound (sys.on t act) := by
  unfold OCCSystem.on
  cases found : sys.sessions[t]? with
  | none => exact sound
  | some session => exact each session found

theorem occStep_sound {call : OCCCall} (sound : OccSound sys) (short : KeysShort sys call)
    (tracked : Tracked sys call) : OccSound (occStep sys call) := by
  have running : ∀ {t : Nat} {session : OCCSession}, sys.sessions[t]? = some session →
      SessionSound sys.mgr session :=
    fun found => sound.sessions _ (List.mem_of_getElem? found)
  cases call with
  | begin txnId => exact sound.begin txnId
  | read t key =>
    refine sound.on t (OCCSession.read key) fun session found => sound.quiet found ?_
    exact quiet_read sound.formed sound.started (running found) short (tracked session found)
  | write t key value =>
    refine sound.on t (OCCSession.write key value) fun session found => sound.quiet found ?_
    exact quiet_write sound.formed (running found) value short
  | commit t =>
    refine sound.on t OCCSession.commit fun session found => ?_
    by_cases valid : occValid sys.mgr session.txn = true
    · exact sound.land found valid (tracked session found)
    · exact sound.quiet found (quiet_commit sound.formed (running found) valid)
  | abort t =>
    refine sound.on t OCCSession.abort fun session found => sound.quiet found ?_
    exact quiet_abort sound.formed (running found)

/-- In every run with short keys in which each read taken from a record is noted and each
commit let through lands, the committed transactions are serializable by commit timestamp. -/
theorem serializable_of_tracked
    (reached : Reaches occStep (fun sys call => KeysShort sys call ∧ Tracked sys call) occSystemInit sys) :
    Serializable sys := by
  have sound : OccSound sys :=
    reached.invariant occSound_init fun _ _ sound allowed => occStep_sound sound allowed.1 allowed.2
  exact sound.serial

/-- The second transaction begins with the first, reads what it wrote, its own write, and
a key nobody has written. -/
def handover : List OCCCall :=
  [.begin 1, .begin 2, .read 0 [97], .write 0 [98] [49], .commit 0, .read 1 [98], .write 1 [97] [50],
    .read 1 [97], .read 1 [99], .commit 1]

theorem serializable_handover :
    ((handover.foldl occStep occSystemInit).sessions.map (·.committed)) = [true, true] ∧
      Serializable (handover.foldl occStep occSystemInit) :=
  ⟨by decide, serializable_of_tracked (Reaches.ofCalls handover (by decide))⟩

/-- There is only one order by commit timestamp. -/
theorem SerialOrder.unique {order other : List Nat} (serial : SerialOrder sys order)
    (same : SerialOrder sys other) : order = other :=
  Serial.order_unique serial.sorted same.sorted fun t => (serial.committed t).trans (same.committed t).symm

/-- The first transaction fills its read set, then reads a key that the second one
changes before the first commits. -/
def overlooked : List OCCCall :=
  .begin 1 :: List.replicate 64 (.read 0 [97]) ++
    [.read 0 [98], .begin 2, .write 1 [98] [49], .commit 1, .commit 0]

theorem overlooked_order : SerialOrder (overlooked.foldl occStep occSystemInit) [1, 0] := by
  have two : (overlooked.foldl occStep occSystemInit).sessions.length = 2 := by decide +kernel
  refine ⟨?_, by decide +kernel⟩
  intro t
  match t with
  | 0 => decide +kernel
  | 1 => decide +kernel
  | t + 2 =>
    have beyond : (overlooked.foldl occStep occSystemInit).sessions.length ≤ t + 2 := by omega
    simp [OCCSystem.sessionAt, List.getElem?_eq_none beyond]

theorem overlooked_unserializable :
    Reaches occStep KeysShort occSystemInit (overlooked.foldl occStep occSystemInit) ∧
      ¬ Serializable (overlooked.foldl occStep occSystemInit) := by
  refine ⟨Reaches.ofCalls overlooked (by decide +kernel), ?_⟩
  rintro ⟨order, serial, replayed⟩
  obtain rfl := serial.unique overlooked_order
  have stale : (Serial.replay (fun _ => []) ([1, 0].flatMap fun t =>
      ((overlooked.foldl occStep occSystemInit).sessionAt t).accesses)).isNone = true := by
    decide +kernel
  rw [replayed] at stale
  cases stale

end MiniNetDist.Transaction.Occ
