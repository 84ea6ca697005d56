import Mathlib.Data.List.Pairwise
import MiniNetDist.Transaction.MvccCommit

/-! Snapshots of the multi-version store. As long as every commit fits its tables,
the chain of a key is the list of commits that wrote it, newest first; later commits
have later timestamps, so a snapshot never changes, and a transaction that commits has seen
every earlier commit of the keys it writes. -/

namespace MiniNetDist.Transaction.Mvcc

open Library

variable {store : MVCCStore} {sys later : MVCCSystem} {key value : CString} {ts : Int}
  {commits rest : List MVCCCommit} {commit : MVCCCommit}

/-- A commit that will be let through fits: short keys, a record for each and a
slot for each version. -/
def CommitFits (sys : MVCCSystem) : MVCCCall → Prop
  | .commit t => ∀ txn, sys.txns[t]? = some txn → txn.status = .active →
      mvccValidateWriteSet sys.store txn = true →
        RoomForKeys sys.store txn.writes ∧ sys.store.versionCount + txn.writes.length ≤ MVCC_MAX_VERSIONS
  | _ => True

instance (sys : MVCCSystem) : (call : MVCCCall) → Decidable (CommitFits sys call)
  | .commit t => match found : sys.txns[t]? with
    | none => .isTrue fun _ there => by rw [found] at there; cases there
    | some txn => decidable_of_iff (txn.status = .active → mvccValidateWriteSet sys.store txn = true →
        RoomForKeys sys.store txn.writes ∧ sys.store.versionCount + txn.writes.length ≤ MVCC_MAX_VERSIONS)
        ⟨fun fits _ there => Option.some.inj (found.symm.trans there) ▸ fits, fun fits => fits txn found⟩
  | .begin _ | .prepareWrite _ _ _ | .snapshotRead _ _ | .abort _ | .gc _ => .isTrue trivial

/-- The version of the key that a commit installs, if it wrote the key. -/
def MVCCCommit.version (commit : MVCCCommit) (key : CString) : Option MVCCVersion :=
  (Table.find Prod.fst commit.writes key).map fun write =>
    ⟨commit.txnId, commit.commitTs, write.2, .committed⟩

structure Recorded (sys : MVCCSystem) : Prop where
  chains : ∀ key, mvccChain sys.store key = sys.commits.filterMap (·.version key)
  ordered : sys.commits.Pairwise fun newer older => older.commitTs < newer.commitTs
  past : ∀ commit ∈ sys.commits, commit.commitTs < sys.store.globalTs
  distinct : ∀ commit ∈ sys.commits, (commit.writes.map Prod.fst).Nodup
  wins : sys.commits.Pairwise fun newer older => ∀ key ∈ newer.writes.map Prod.fst,
    key ∈ older.writes.map Prod.fst → older.commitTs ≤ newer.readTs

theorem MVCCCommit.version_eq_none_iff : commit.version key = none ↔ key ∉ commit.writes.map Prod.fst := by
  rw [MVCCCommit.version, Option.map_eq_none_iff, Table.find_eq_none_iff]

theorem MVCCCommit.mem_of_version {version : MVCCVersion} (found : commit.version key = some version) :
    (key, version.value) ∈ commit.writes ∧ version.status = .committed ∧
      version.commitTs = commit.commitTs := by
  unfold MVCCCommit.version at found
  obtain ⟨write, listed, rfl⟩ := Option.map_eq_some_iff.mp found
  have named := Table.key_of_find listed
  refine ⟨?_, rfl, rfl⟩
  rw [← named]
  exact List.mem_of_find?_eq_some listed

/-- The commit with the greatest timestamp up to `ts` that wrote the key wrote this value. -/
def LatestWrite (commits : List MVCCCommit) (key : CString) (ts : Int) (value : CString) : Prop :=
  ∃ commit ∈ commits, (key, value) ∈ commit.writes ∧ commit.commitTs ≤ ts ∧
    ∀ other ∈ commits, key ∈ other.writes.map Prod.fst → other.commitTs ≤ ts →
      other.commitTs ≤ commit.commitTs

/-- A commit of other keys, or after `ts`, makes no difference. -/
theorem latestWrite_cons_skip (skip : key ∈ commit.writes.map Prod.fst → ts < commit.commitTs) :
    LatestWrite (commit :: rest) key ts value ↔ LatestWrite rest key ts value := by
  constructor
  · rintro ⟨found, present, written, visible, latest⟩
    rcases List.mem_cons.mp present with rfl | older
    · have wrote := skip (List.mem_map_of_mem written)
      omega
    · exact ⟨found, older, written, visible, fun other inside => latest other (List.mem_cons_of_mem _ inside)⟩
  · rintro ⟨found, present, written, visible, latest⟩
    refine ⟨found, List.mem_cons_of_mem _ present, written, visible, ?_⟩
    intro other inside wrote early
    rcases List.mem_cons.mp inside with rfl | older
    · have late := skip wrote
      omega
    · exact latest other older wrote early

/-- The newest commit decides if it wrote the key by `ts`. -/
theorem latestWrite_cons_take {wrote : CString} (written : (key, wrote) ∈ commit.writes)
    (distinct : (commit.writes.map Prod.fst).Nodup) (visible : commit.commitTs ≤ ts)
    (newest : ∀ older ∈ rest, older.commitTs < commit.commitTs) :
    LatestWrite (commit :: rest) key ts value ↔ wrote = value := by
  constructor
  · rintro ⟨found, present, same, -, latest⟩
    rcases List.mem_cons.mp present with rfl | older
    · have pairs : (key, wrote) = (key, value) := List.inj_on_of_nodup_map distinct written same rfl
      exact (Prod.mk.inj pairs).2
    · have before := newest found older
      have after := latest commit List.mem_cons_self (List.mem_map_of_mem written) visible
      omega
  · rintro rfl
    refine ⟨commit, List.mem_cons_self, written, visible, ?_⟩
    intro other inside _ _
    rcases List.mem_cons.mp inside with rfl | older
    · exact Int.le_refl _
    · exact Int.le_of_lt (newest other older)

/-- The first visible version among the commits is the latest write. -/
theorem find_version_iff (ordered : commits.Pairwise fun newer older => older.commitTs < newer.commitTs)
    (distinct : ∀ commit ∈ commits, (commit.writes.map Prod.fst).Nodup) :
    ((commits.filterMap (·.version key)).find? fun version =>
        version.status = .committed ∧ version.commitTs ≤ ts).map (·.value) = some value ↔
      LatestWrite commits key ts value := by
  induction commits with
  | nil =>
    constructor
    · intro found; cases found
    · rintro ⟨commit, present, -⟩; cases present
  | cons commit rest ih =>
    rw [List.pairwise_cons] at ordered
    have older := ih ordered.2 (fun other present => distinct other (List.mem_cons_of_mem _ present))
    cases made : commit.version key with
    | none =>
      have absent := MVCCCommit.version_eq_none_iff.mp made
      simp only [List.filterMap_cons, made]
      rw [older, latestWrite_cons_skip (fun wrote => absurd wrote absent)]
    | some version =>
      obtain ⟨written, committed, stamped⟩ := MVCCCommit.mem_of_version made
      simp only [List.filterMap_cons, made]
      by_cases visible : commit.commitTs ≤ ts
      · rw [List.find?_cons_of_pos (by simp [committed, stamped, visible]),
          latestWrite_cons_take written (distinct commit List.mem_cons_self) visible ordered.1]
        simp
      · rw [List.find?_cons_of_neg (by simp [stamped, visible]), older,
          latestWrite_cons_skip (fun _ => by omega)]

theorem Recorded.reads_iff (recorded : Recorded sys) (key : CString) (ts : Int) (value : CString) :
    mvccReads sys.store key ts = some value ↔ LatestWrite sys.commits key ts value := by
  unfold mvccReads mvccVisibleVersion
  rw [recorded.chains]
  exact find_version_iff recorded.ordered recorded.distinct

/-- The head of a chain is at least as new as any commit that wrote the key. -/
theorem le_head_version (ordered : commits.Pairwise fun newer older => older.commitTs < newer.commitTs)
    (present : commit ∈ commits) (wrote : key ∈ commit.writes.map Prod.fst) :
    ∃ head, (commits.filterMap (·.version key)).head? = some head ∧ commit.commitTs ≤ head.commitTs := by
  induction commits with
  | nil => cases present
  | cons newest rest ih =>
    rw [List.pairwise_cons] at ordered
    cases made : newest.version key with
    | none =>
      have absent := MVCCCommit.version_eq_none_iff.mp made
      have older : commit ∈ rest := by
        rcases List.mem_cons.mp present with rfl | older
        · exact absurd wrote absent
        · exact older
      simpa only [List.filterMap_cons, made] using ih ordered.2 older
    | some version =>
      obtain ⟨-, -, stamped⟩ := MVCCCommit.mem_of_version made
      refine ⟨version, by simp only [List.filterMap_cons, made, List.head?_cons], ?_⟩
      rw [stamped]
      rcases List.mem_cons.mp present with rfl | older
      · exact Int.le_refl _
      · exact Int.le_of_lt (ordered.1 commit older)

/-- Steps that leave the chains and the commits alone. -/
theorem Recorded.frame {after : MVCCSystem} (recorded : Recorded sys)
    (chains : ∀ key, mvccChain after.store key = mvccChain sys.store key)
    (commits : after.commits = sys.commits) (clock : sys.store.globalTs ≤ after.store.globalTs) :
    Recorded after where
  chains := fun key => by rw [chains, commits]; exact recorded.chains key
  ordered := by rw [commits]; exact recorded.ordered
  past := by
    rw [commits]
    exact fun commit present => Int.lt_of_lt_of_le (recorded.past commit present) clock
  distinct := by rw [commits]; exact recorded.distinct
  wins := by rw [commits]; exact recorded.wins

/-- A commit that fits adds its versions on top, and has seen every earlier commit of
the keys it writes. -/
theorem Recorded.install {txn : MVCCTransaction} (recorded : Recorded sys) (t : Nat)
    (txns : List MVCCTransaction) (member : TxnFormed sys.store.globalTs txn) (active : txn.status = .active)
    (valid : mvccValidateWriteSet sys.store txn = true) (room : RoomForKeys sys.store txn.writes)
    (slots : sys.store.versionCount + txn.writes.length ≤ MVCC_MAX_VERSIONS) :
    Recorded ⟨(mvccTxnCommit sys.store txn).1, txns,
      ⟨t, txn.txnId, txn.readTs, sys.store.globalTs, txn.writes⟩ :: sys.commits, sys.reads⟩ := by
  rw [mvccTxnCommit_eq active, if_pos valid]
  constructor
  · intro key
    have allocated : RoomForKeys (mvccAllocateTs sys.store).1 txn.writes := ⟨room.short, room.records⟩
    have installed := mvccChain_installs { txn with commitTs := sys.store.globalTs } allocated
      member.distinct member.values slots key
    have before : mvccChain (mvccAllocateTs sys.store).1 key = mvccChain sys.store key := rfl
    rw [before, recorded.chains] at installed
    rw [List.filterMap_cons, MVCCCommit.version]
    refine Eq.trans installed ?_
    cases Table.find Prod.fst txn.writes key <;> rfl
  · rw [List.pairwise_cons]
    exact ⟨recorded.past, recorded.ordered⟩
  · intro commit present
    rw [mvccInstallAll_globalTs]
    rcases List.mem_cons.mp present with rfl | older
    · exact Int.lt_succ _
    · have before := recorded.past commit older
      omega
  · intro commit present
    rcases List.mem_cons.mp present with rfl | older
    · exact member.distinct
    · exact recorded.distinct commit older
  · rw [List.pairwise_cons]
    refine ⟨?_, recorded.wins⟩
    intro older present key writes wrote
    obtain ⟨head, found, newer⟩ := le_head_version recorded.ordered present wrote
    rw [← recorded.chains] at found
    obtain ⟨write, listed, rfl⟩ := List.mem_map.mp writes
    have unchanged := List.all_eq_true.mp valid write listed
    simp only [mvccUnchanged, mvccVersionChainHead, found, Bool.not_eq_true', decide_eq_false_iff_not,
      Int.not_lt] at unchanged
    exact Int.le_trans newer unchanged

theorem mvccChain_gc (store : MVCCStore) (oldestActiveTs : Int) (key : CString) :
    mvccChain (mvccGcOldVersions store oldestActiveTs).1 key = mvccChain store key := by
  have keeps : ∀ rec : MVCCRecord, (rec.discount oldestActiveTs).key = rec.key := fun _ => rfl
  unfold mvccChain mvccGcOldVersions
  dsimp only
  rw [Table.find_map keeps]
  cases Table.find MVCCRecord.key store.records key <;> rfl

theorem mvccStep_recorded (formed : Formed sys) (recorded : Recorded sys) (call : MVCCCall)
    (fits : CommitFits sys call) : Recorded (mvccStep sys call) := by
  cases call with
  | begin txnId =>
    simp only [mvccStep, mvccTxnBegin]
    split_ifs
    · exact recorded.frame (fun _ => rfl) rfl (Int.le_refl _)
    · exact recorded.frame (fun _ => rfl) rfl (Int.le_of_lt (Int.lt_succ _))
  | prepareWrite t key value =>
    simp only [mvccStep]
    split
    · exact recorded
    · exact recorded.frame (fun _ => rfl) rfl (Int.le_refl _)
  | snapshotRead t key =>
    simp only [mvccStep]
    split
    · exact recorded
    · exact recorded.frame (fun _ => rfl) rfl (Int.le_refl _)
  | commit t =>
    simp only [mvccStep]
    split
    · exact recorded
    rename_i txn found
    have member := formed.txns txn (List.mem_of_getElem? found)
    by_cases active : txn.status = .active
    · by_cases valid : mvccValidateWriteSet sys.store txn = true
      · obtain ⟨room, slots⟩ := fits txn found active valid
        have installed := recorded.install t (sys.txns.set t { txn with
          commitTs := sys.store.globalTs, status := .committed }) member active valid room slots
        simpa only [mvccTxnCommit_eq active, if_pos valid, if_true] using installed
      · simp only [mvccTxnCommit_eq active, if_neg valid]
        exact recorded.frame (fun _ => rfl) rfl (Int.le_of_lt (Int.lt_succ _))
    · simp only [mvccTxnCommit_idle active]
      exact recorded.frame (fun _ => rfl) rfl (Int.le_refl _)
  | abort t =>
    simp only [mvccStep]
    split
    · exact recorded
    · exact recorded.frame (fun _ => rfl) rfl (Int.le_refl _)
  | gc oldestActiveTs => exact recorded.frame (mvccChain_gc sys.store oldestActiveTs) rfl (Int.le_refl _)

theorem recorded_of_reaches (reached : Reaches mvccStep CommitFits mvccSystemInit sys) : Recorded sys := by
  have both := reached.invariant (motive := fun sys => Formed sys ∧ Recorded sys)
    ⟨mvccSystemInit_formed, fun _ => rfl, .nil, by simp [mvccSystemInit], by simp [mvccSystemInit], .nil⟩
    (fun _ call both fits => ⟨mvccStep_formed both.1 call, mvccStep_recorded both.1 both.2 call fits⟩)
  exact both.2

/-- A step adds at most one commit, stamped with the clock, which only moves on. -/
theorem mvccStep_commits (sys : MVCCSystem) (call : MVCCCall) :
    sys.store.globalTs ≤ (mvccStep sys call).store.globalTs ∧
      ((mvccStep sys call).commits = sys.commits ∨
        ∃ commit, (mvccStep sys call).commits = commit :: sys.commits ∧
          commit.commitTs = sys.store.globalTs) := by
  cases call with
  | begin txnId =>
    refine ⟨?_, .inl rfl⟩
    simp only [mvccStep, mvccTxnBegin]
    split_ifs
    · exact Int.le_refl _
    · exact Int.le_of_lt (Int.lt_succ _)
  | prepareWrite t key value =>
    simp only [mvccStep]
    split <;> exact ⟨Int.le_refl _, .inl rfl⟩
  | snapshotRead t key =>
    simp only [mvccStep]
    split <;> exact ⟨Int.le_refl _, .inl rfl⟩
  | commit t =>
    simp only [mvccStep]
    split
    · exact ⟨Int.le_refl _, .inl rfl⟩
    rename_i txn found
    refine ⟨(mvccTxnCommit_txn sys.store txn).2.2.2, ?_⟩
    by_cases active : txn.status = .active
    · rw [mvccTxnCommit_eq active]
      by_cases valid : mvccValidateWriteSet sys.store txn = true
      · rw [if_pos valid]
        exact .inr ⟨_, rfl, rfl⟩
      · rw [if_neg valid]
        exact .inl rfl
    · rw [mvccTxnCommit_idle active]
      exact .inl rfl
  | abort t =>
    simp only [mvccStep]
    split <;> exact ⟨Int.le_refl _, .inl rfl⟩
  | gc oldestActiveTs => exact ⟨Int.le_refl _, .inl rfl⟩

/-- What was last written before now stays what was last written by then. -/
theorem latestWrite_stable {guard : MVCCSystem → MVCCCall → Prop} (onward : Reaches mvccStep guard sys later)
    (before : ts < sys.store.globalTs) :
    sys.store.globalTs ≤ later.store.globalTs ∧
      (LatestWrite later.commits key ts value ↔ LatestWrite sys.commits key ts value) := by
  induction onward with
  | refl => exact ⟨Int.le_refl _, Iff.rfl⟩
  | @call state _ call _ ih =>
    obtain ⟨clock, same⟩ := ih
    obtain ⟨ticks, kept | ⟨commit, added, stamped⟩⟩ := mvccStep_commits state call
    · rw [kept]
      exact ⟨Int.le_trans clock ticks, same⟩
    · rw [added, latestWrite_cons_skip (fun _ => by omega)]
      exact ⟨Int.le_trans clock ticks, same⟩

theorem readTs_of_set {txns : List MVCCTransaction} {i t : Nat} {txn changed other : MVCCTransaction}
    (found : txns[i]? = some txn) (same : changed.readTs = txn.readTs) (there : txns[t]? = some other) :
    ∃ next, (txns.set i changed)[t]? = some next ∧ next.readTs = other.readTs := by
  by_cases equal : i = t
  · subst equal
    obtain rfl : txn = other := Option.some.inj (found.symm.trans there)
    obtain ⟨inside, -⟩ := List.getElem?_eq_some_iff.mp found
    exact ⟨changed, List.getElem?_set_self inside, same⟩
  · exact ⟨other, by rw [List.getElem?_set_ne equal]; exact there, rfl⟩

/-- A transaction keeps its snapshot. -/
theorem mvccStep_readTs {t : Nat} {txn : MVCCTransaction} (there : sys.txns[t]? = some txn)
    (call : MVCCCall) : ∃ next, (mvccStep sys call).txns[t]? = some next ∧ next.readTs = txn.readTs := by
  cases call with
  | begin txnId =>
    obtain ⟨inside, -⟩ := List.getElem?_eq_some_iff.mp there
    exact ⟨txn, by simp only [mvccStep]; rw [List.getElem?_append_left inside]; exact there, rfl⟩
  | prepareWrite i key value =>
    simp only [mvccStep]
    split
    · exact ⟨txn, there, rfl⟩
    · rename_i other found
      refine readTs_of_set found ?_ there
      unfold mvccPrepareWrite
      split_ifs <;> rfl
  | snapshotRead i key =>
    simp only [mvccStep]
    split
    · exact ⟨txn, there, rfl⟩
    · rename_i other found
      refine readTs_of_set found ?_ there
      unfold mvccSnapshotRead
      split
      · rfl
      · split <;> rfl
  | commit i =>
    simp only [mvccStep]
    split
    · exact ⟨txn, there, rfl⟩
    · rename_i other found
      exact readTs_of_set found (mvccTxnCommit_txn sys.store other).2.1 there
  | abort i =>
    simp only [mvccStep]
    split
    · exact ⟨txn, there, rfl⟩
    · rename_i other found
      exact readTs_of_set found rfl there
  | gc oldestActiveTs => exact ⟨txn, there, rfl⟩

theorem readTs_stable {guard : MVCCSystem → MVCCCall → Prop} {t : Nat} {txn : MVCCTransaction}
    (onward : Reaches mvccStep guard sys later) (there : sys.txns[t]? = some txn) :
    ∃ next, later.txns[t]? = some next ∧ next.readTs = txn.readTs := by
  induction onward with
  | refl => exact ⟨txn, there, rfl⟩
  | call _ call _ ih =>
    obtain ⟨between, found, same⟩ := ih
    obtain ⟨next, after, kept⟩ := mvccStep_readTs found call
    exact ⟨next, after, kept.trans same⟩

/-- An active transaction that reads a key it has not written reads the value of the latest commit in its
snapshot, and reads the same again at any later point of the run. -/
theorem snapshotRead_stable (sys later : MVCCSystem) (reached : Reaches mvccStep CommitFits mvccSystemInit sys)
    (onward : Reaches mvccStep CommitFits sys later) (t : Nat) (txn next : MVCCTransaction) (key : CString)
    (first : sys.txns[t]? = some txn ∧ txn.status = .active ∧ key ∉ txn.writes.map Prod.fst)
    (second : later.txns[t]? = some next ∧ next.status = .active ∧ key ∉ next.writes.map Prod.fst) :
    (mvccSnapshotRead later.store next key).2 = (mvccSnapshotRead sys.store txn key).2 ∧
      ∀ value, (mvccSnapshotRead sys.store txn key).2 = some value ↔
        LatestWrite sys.commits key txn.readTs value := by
  obtain ⟨there, -, unwritten⟩ := first
  obtain ⟨after, -, stillUnwritten⟩ := second
  have formed := formed_of_reaches reached
  have started := (formed.txns txn (List.mem_of_getElem? there)).started
  obtain ⟨same, found, snapshot⟩ := readTs_stable onward there
  obtain rfl : same = next := Option.some.inj (found.symm.trans after)
  rw [mvccSnapshotRead_unwritten formed.store unwritten,
    mvccSnapshotRead_unwritten (formed_of_reaches (reached.trans onward)).store stillUnwritten, snapshot]
  have early := (recorded_of_reaches reached).reads_iff key txn.readTs
  have late := (recorded_of_reaches (reached.trans onward)).reads_iff key txn.readTs
  refine ⟨?_, early⟩
  apply Option.ext
  intro value
  rw [late, early]
  exact (latestWrite_stable onward started).2

/-- After a commit of k, transaction 1 begins. -/
def begun : MVCCSystem :=
  [.begin 1, .prepareWrite 0 [107] [49], .commit 0, .begin 2].foldl mvccStep mvccSystemInit

/-- While it runs, transaction 2 commits a new value of k. -/
def overwritten : MVCCSystem :=
  [.begin 3, .prepareWrite 2 [107] [50], .commit 2].foldl mvccStep begun

theorem snapshotRead_overwritten : ∃ txn next, begun.txns[1]? = some txn ∧ overwritten.txns[1]? = some next ∧
    (mvccSnapshotRead overwritten.store next [107]).2 = (mvccSnapshotRead begun.store txn [107]).2 ∧
      LatestWrite begun.commits [107] txn.readTs [49] := by
  refine ⟨_, _, rfl, rfl, ?_⟩
  have stable := snapshotRead_stable begun overwritten (.ofCalls _ (by decide)) (.ofCalls _ (by decide)) 1 _ _
    [107] ⟨rfl, rfl, by decide⟩ ⟨rfl, rfl, by decide⟩
  exact ⟨stable.1, (stable.2 [49]).mp (by decide)⟩

/-- After a commit of a key of 32 bytes, transaction 1 begins. -/
def longKeyCommitted : MVCCSystem :=
  [.begin 1, .prepareWrite 0 (List.replicate 32 107) [118], .commit 0, .begin 2].foldl mvccStep mvccSystemInit

theorem longKey_unread : ¬ ∀ sys, Reaches mvccStep Always mvccSystemInit sys → ∀ (t : Nat) txn key,
    sys.txns[t]? = some txn → txn.status = .active → key ∉ txn.writes.map Prod.fst →
      ∀ value, (mvccSnapshotRead sys.store txn key).2 = some value ↔
        LatestWrite sys.commits key txn.readTs value := by
  intro reads
  have iff := reads longKeyCommitted (.ofFold _) 1 _ (List.replicate 32 107) rfl rfl (by decide) [118]
  have latest : LatestWrite longKeyCommitted.commits (List.replicate 32 107) 3 [118] := by
    refine ⟨_, List.mem_singleton.mpr rfl, by decide, by decide, ?_⟩
    intro other present _ _
    obtain rfl := List.mem_singleton.mp present
    exact Int.le_refl _
  have found := iff.mpr latest
  revert found
  decide

/-- If each took its snapshot before the other committed, they wrote different keys. -/
def DisjointIfConcurrent (first second : MVCCCommit) : Prop :=
  first.readTs < second.commitTs → second.readTs < first.commitTs →
    List.Disjoint (first.writes.map Prod.fst) (second.writes.map Prod.fst)

instance : Std.Symm DisjointIfConcurrent :=
  ⟨fun _ _ disjoint overlaps overlapsToo _ one two => disjoint overlapsToo overlaps two one⟩

theorem Recorded.disjoint (recorded : Recorded sys) : sys.commits.Pairwise DisjointIfConcurrent := by
  apply recorded.wins.imp
  intro newer older seen overlaps _ key one two
  have early := seen key one two
  omega

/-- Two transactions that committed while both were running wrote different keys. -/
theorem writeSets_disjoint (sys : MVCCSystem) (reached : Reaches mvccStep CommitFits mvccSystemInit sys)
    (first second : MVCCCommit) (committed : first ∈ sys.commits) (committedToo : second ∈ sys.commits)
    (different : first.txn ≠ second.txn) (overlaps : first.readTs < second.commitTs)
    (overlapsToo : second.readTs < first.commitTs) :
    List.Disjoint (first.writes.map Prod.fst) (second.writes.map Prod.fst) := by
  have distinct : first ≠ second := fun same => different (congrArg MVCCCommit.txn same)
  exact (recorded_of_reaches reached).disjoint.forall committed committedToo distinct overlaps overlapsToo

/-- Two transactions with overlapping lifetimes and different keys. -/
def sideBySide : MVCCSystem :=
  [.begin 1, .begin 2, .prepareWrite 0 [97] [49], .prepareWrite 1 [98] [50], .commit 0, .commit 1].foldl
    mvccStep mvccSystemInit

theorem writeSets_sideBySide : ∃ first ∈ sideBySide.commits, ∃ second ∈ sideBySide.commits,
    first.readTs < second.commitTs ∧ second.readTs < first.commitTs ∧
      List.Disjoint (first.writes.map Prod.fst) (second.writes.map Prod.fst) := by
  refine ⟨⟨0, 1, 1, 3, [([97], [49])]⟩, .tail _ (.head _), ⟨1, 2, 2, 4, [([98], [50])]⟩, .head _, by decide,
    by decide, ?_⟩
  exact writeSets_disjoint sideBySide (.ofCalls _ (by decide)) _ _ (.tail _ (.head _)) (.head _) (by decide)
    (by decide) (by decide)

end MiniNetDist.Transaction.Mvcc
