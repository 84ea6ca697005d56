import MiniNetDist.Library.Run
import MiniNetDist.Library.Slot
import MiniNetDist.Library.Table
import Mathlib.Data.List.FinRange
import Mathlib.Logic.Function.Basic
import Mathlib.Order.Lattice

/-! The key-value store with version vectors of `mini-dist-protocol/src/distributed_apps.c`. `dkv_init`
leaves the entries as the memory has them. -/

namespace MiniNetDist.DistProtocol.DistributedKv

open Library

def DKV_MAX_REPLICAS : Nat := 8
def DKV_MAX_KEYS : Nat := 32

/-- The `version_vector` of an entry or a replica; its first `replica_count` cells are in use. -/
abbrev DKVVersion := Fin DKV_MAX_REPLICAS → Int

structure DKVEntry where
  key : Int
  value : Int
  version : DKVVersion

/-- The first `entry_count` entries, and the array beyond them. -/
structure DKVReplica where
  entries : List DKVEntry
  beyond : List DKVEntry
  versionVector : DKVVersion

/-- `replica_count` is `n`, at most `DKV_MAX_REPLICAS`. -/
structure DKVStore (n : Nat) where
  replicas : Fin n → DKVReplica

variable {n : Nat}

def dkvInit (memory : Fin n → Fin DKV_MAX_KEYS → DKVEntry) : DKVStore n where
  replicas := fun i => ⟨[], List.ofFn (memory i), fun _ => 0⟩

def dkvFindEntry (entries : List DKVEntry) (key : Int) : Option DKVEntry := Table.find DKVEntry.key entries key

def DKVStore.setReplica (store : DKVStore n) (i : Fin n) (replica : DKVReplica) : DKVStore n :=
  ⟨Function.update store.replicas i replica⟩

/-- The cells in use are copied from another vector. -/
def copyVersion (n : Nat) (version source : DKVVersion) : DKVVersion :=
  fun j => if j.val < n then source j else version j

def dkvPut (store : DKVStore n) (replicaId key value : Int) : DKVStore n × Bool :=
  match slot n replicaId with
  | none => (store, false)
  | some r =>
    let rep := store.replicas r
    let vector : DKVVersion := fun j => if j.val = r.val then rep.versionVector j + 1 else rep.versionVector j
    match dkvFindEntry rep.entries key with
    | some _ =>
      let entries := Table.update DKVEntry.key rep.entries key fun entry =>
        { entry with value := value, version := copyVersion n entry.version vector }
      (store.setReplica r { rep with entries := entries, versionVector := vector }, true)
    | none =>
      match rep.beyond with
      | [] => (store, false)
      | _ :: beyond =>
        let entry : DKVEntry := ⟨key, value, copyVersion n (fun _ => 0) vector⟩
        (store.setReplica r ⟨rep.entries ++ [entry], beyond, vector⟩, true)

/-- `dkv_causal_past`: nowhere greater, and smaller somewhere. -/
def dkvCausalPast (n : Nat) (a b : DKVVersion) : Bool :=
  (List.finRange DKV_MAX_REPLICAS).all (fun i => i.val < n → a i ≤ b i) &&
    (List.finRange DKV_MAX_REPLICAS).any fun i => i.val < n && a i < b i

def dkvMergeVersions (n : Nat) (dst src : DKVVersion) : DKVVersion :=
  fun i => if i.val < n then max (dst i) (src i) else dst i

/-- `dkv_merge_versions` on the vector of a replica. The cast to an entry's version takes the first
cell for its `replica_id`, so that every cell is merged into the one after it; with all replicas
in use the last is outside the array. -/
def mergeReplicaVector (n : Nat) (vector src : DKVVersion) : Option DKVVersion :=
  if n < DKV_MAX_REPLICAS then
    some fun i => if 0 < i.val ∧ i.val ≤ n then max (vector i) (src ⟨i.val - 1, by omega⟩) else vector i
  else none

/-- The part of `dkv_replicate` after the entry at the target was found or added. -/
def dkvApply (n : Nat) (srcEntry dstEntry : DKVEntry) (dst : DKVReplica) : Option DKVReplica :=
  if !dkvCausalPast n dstEntry.version srcEntry.version then do
    let vector ← mergeReplicaVector n dst.versionVector srcEntry.version
    let entries := Table.update DKVEntry.key dst.entries dstEntry.key fun entry =>
      { entry with value := srcEntry.value, version := dkvMergeVersions n entry.version srcEntry.version }
    some { dst with entries := entries, versionVector := vector }
  else some dst

/-- No result when an access is outside an array. -/
def dkvReplicate (store : DKVStore n) (fromReplica toReplica key : Int) : Option (DKVStore n × Bool) :=
  match slot n fromReplica, slot n toReplica with
  | some f, some t =>
    if f = t then some (store, true)
    else
      match dkvFindEntry (store.replicas f).entries key with
      | none => some (store, false)
      | some srcEntry =>
        let dst := store.replicas t
        match dkvFindEntry dst.entries key with
        | some dstEntry => (dkvApply n srcEntry dstEntry dst).map fun dst => (store.setReplica t dst, true)
        | none =>
          match dst.beyond with
          | [] => some (store, false)
          | spare :: beyond =>
            let dstEntry := { spare with key := key }
            (dkvApply n srcEntry dstEntry { dst with entries := dst.entries ++ [dstEntry], beyond := beyond }).map
              fun dst => (store.setReplica t dst, true)
  | _, _ => some (store, false)

inductive DKVCall where
  | put (replicaId key value : Int)
  | replicate (fromReplica toReplica key : Int)
  deriving DecidableEq, Repr

/-- The store after a call, as long as no access was outside an array. -/
def dkvCall (store : Option (DKVStore n)) : DKVCall → Option (DKVStore n)
  | .put replicaId key value => store.map fun store => (dkvPut store replicaId key value).1
  | .replicate fromReplica toReplica key =>
    store.bind fun store => (dkvReplicate store fromReplica toReplica key).map (·.1)

/-- Causal precedence of versions over the cells in use. -/
def Precedes (n : Nat) (a b : DKVVersion) : Prop :=
  (∀ i : Fin DKV_MAX_REPLICAS, i.val < n → a i ≤ b i) ∧ ∃ i : Fin DKV_MAX_REPLICAS, i.val < n ∧ a i < b i

def SameVersion (n : Nat) (a b : DKVVersion) : Prop := ∀ i : Fin DKV_MAX_REPLICAS, i.val < n → a i = b i

/-- What the target holds after a replication of `source` over the entry it `held`, if any. -/
structure KeepsNewer (n : Nat) (source : DKVEntry) (held : Option DKVEntry) (later : DKVEntry) : Prop where
  adopts : (∀ entry ∈ held, Precedes n entry.version source.version) → later.value = source.value
  keeps : ∀ entry ∈ held,
    SameVersion n source.version entry.version ∨ Precedes n source.version entry.version → later = entry
  merged : ∀ i : Fin DKV_MAX_REPLICAS, i.val < n →
    later.version i = held.elim (source.version i) fun entry => max (entry.version i) (source.version i)

/-- A replication between two replicas that returns true leaves the newer version at the target. -/
def Replicates (store : DKVStore n) (fromReplica toReplica key : Int) : Prop :=
  match dkvReplicate store fromReplica toReplica key with
  | none => False
  | some (later, returned) =>
    returned = true → ∀ f t source, slot n fromReplica = some f → slot n toReplica = some t → f ≠ t →
      dkvFindEntry (store.replicas f).entries key = some source →
        ∃ entry, dkvFindEntry (later.replicas t).entries key = some entry ∧
          KeepsNewer n source (dkvFindEntry (store.replicas t).entries key) entry

/-- The entry at the target does not precede the source's, and has its value where it is not older;
without an entry the target has the source's version by chance in the memory it takes one from. -/
def MergeableEntry (n : Nat) (source : DKVEntry) (beyond : List DKVEntry) : Option DKVEntry → Prop
  | some held =>
    n < DKV_MAX_REPLICAS ∧ ¬ Precedes n held.version source.version ∧
      (SameVersion n source.version held.version ∨ Precedes n source.version held.version →
        source.value = held.value)
  | none => ∀ spare ∈ beyond.head?, n < DKV_MAX_REPLICAS ∧ SameVersion n spare.version source.version

def Mergeable (store : DKVStore n) (fromReplica toReplica key : Int) : Prop :=
  ∀ f t source, slot n fromReplica = some f → slot n toReplica = some t → f ≠ t →
    dkvFindEntry (store.replicas f).entries key = some source →
      MergeableEntry n source (store.replicas t).beyond (dkvFindEntry (store.replicas t).entries key)

theorem dkvCausalPast_iff (a b : DKVVersion) : dkvCausalPast n a b = true ↔ Precedes n a b := by
  simp only [dkvCausalPast, Precedes, Bool.and_eq_true, List.all_eq_true, List.any_eq_true, List.mem_finRange,
    decide_eq_true_eq, forall_const, true_and]

/-- The entry after its value was replaced and its version merged. -/
def DKVEntry.adopt (n : Nat) (entry source : DKVEntry) : DKVEntry :=
  { entry with value := source.value, version := dkvMergeVersions n entry.version source.version }

section Entries

variable {source held spare : DKVEntry} {key : Int}

theorem not_keepsNewer_of_precedes {held : Option DKVEntry} {later : DKVEntry}
    (covered : ∀ entry ∈ held, later.version = entry.version) (older : Precedes n later.version source.version) :
    ¬ KeepsNewer n source held later := by
  intro kept
  obtain ⟨i, used, less⟩ := older.2
  have merged := kept.merged i used
  cases held with
  | none =>
    rw [Option.elim_none] at merged
    omega
  | some entry =>
    rw [Option.elim_some, ← covered entry rfl] at merged
    have above := Int.le_max_right (later.version i) (source.version i)
    omega

/-- An entry that is not older than the source's is right to be merged unless it should be kept and
has another value. -/
theorem keepsNewer_adopt_iff (other : ¬ Precedes n held.version source.version) :
    KeepsNewer n source (some held) (held.adopt n source) ↔
      (SameVersion n source.version held.version ∨ Precedes n source.version held.version →
        source.value = held.value) := by
  constructor
  · intro kept covers
    have unchanged := congrArg DKVEntry.value (kept.keeps held rfl covers)
    exact unchanged
  · intro equal
    refine ⟨fun older => absurd (older held rfl) other, ?_, ?_⟩
    · rintro _ ⟨⟩ covers
      have below : ∀ i : Fin DKV_MAX_REPLICAS, i.val < n → source.version i ≤ held.version i := by
        rcases covers with same | older
        · exact fun i used => Int.le_of_eq (same i used)
        · exact older.1
      have version : dkvMergeVersions n held.version source.version = held.version := by
        funext i
        by_cases used : i.val < n
        · simp [dkvMergeVersions, used, below i used]
        · simp [dkvMergeVersions, used]
      rw [DKVEntry.adopt, equal covers, version]
    · intro i used
      simp [DKVEntry.adopt, dkvMergeVersions, used]

/-- A new entry is merged with whatever version the memory has for it. -/
theorem keepsNewer_new_iff (other : ¬ Precedes n spare.version source.version) :
    KeepsNewer n source none (({ spare with key := key } : DKVEntry).adopt n source) ↔
      SameVersion n spare.version source.version := by
  constructor
  · intro kept
    have below : ∀ i : Fin DKV_MAX_REPLICAS, i.val < n → spare.version i ≤ source.version i := by
      intro i used
      have merged := kept.merged i used
      simp only [DKVEntry.adopt, dkvMergeVersions, if_pos used, Option.elim_none] at merged
      exact merged ▸ Int.le_max_left _ _
    intro i used
    by_contra different
    exact other ⟨below, i, used, lt_of_le_of_ne (below i used) different⟩
  · intro same
    refine ⟨fun _ => rfl, fun entry none => (nomatch none), ?_⟩
    intro i used
    simp [DKVEntry.adopt, dkvMergeVersions, used, same i used]

theorem not_precedes_of_same {a b : DKVVersion} (same : SameVersion n a b) : ¬ Precedes n a b := by
  rintro ⟨_, i, used, less⟩
  have equal := same i used
  omega

/-- A new entry has no version of its own, so it can be merged into only if the memory has the right one. -/
theorem mergeableEntry_new_iff {beyond : List DKVEntry} :
    MergeableEntry n source (spare :: beyond) none ↔
      n < DKV_MAX_REPLICAS ∧ ¬ Precedes n spare.version source.version ∧
        SameVersion n spare.version source.version := by
  constructor
  · intro good
    obtain ⟨few, same⟩ := good spare rfl
    exact ⟨few, not_precedes_of_same same, same⟩
  · rintro ⟨few, _, same⟩ _ ⟨⟩
    exact ⟨few, same⟩

theorem dkvFindEntry_new {entries : List DKVEntry} (absent : dkvFindEntry entries key = none) :
    dkvFindEntry (entries ++ [{ spare with key := key }]) key = some { spare with key := key } := by
  have missing : Table.find DKVEntry.key entries key = none := absent
  rw [dkvFindEntry, Table.find_append, missing]
  simp

end Entries

section Application

variable {key : Int} {dst : DKVReplica}

/-- What is found at the target after the entry that stands there was treated. -/
theorem dkvApply_cases (n : Nat) (source : DKVEntry) {entry : DKVEntry}
    (found : dkvFindEntry dst.entries key = some entry) :
    (Precedes n entry.version source.version ∧ dkvApply n source entry dst = some dst) ∨
    (¬ Precedes n entry.version source.version ∧ DKV_MAX_REPLICAS ≤ n ∧ dkvApply n source entry dst = none) ∨
    (¬ Precedes n entry.version source.version ∧ n < DKV_MAX_REPLICAS ∧
      ∃ later, dkvApply n source entry dst = some later ∧
        dkvFindEntry later.entries key = some (entry.adopt n source)) := by
  have named : entry.key = key := Table.key_of_find found
  by_cases older : Precedes n entry.version source.version
  · have past := (dkvCausalPast_iff _ _).mpr older
    exact .inl ⟨older, by simp [dkvApply, past]⟩
  · have other : dkvCausalPast n entry.version source.version = false := by
      rw [← Bool.not_eq_true, dkvCausalPast_iff]
      exact older
    by_cases room : n < DKV_MAX_REPLICAS
    · refine .inr (.inr ⟨older, room, _, by simp [dkvApply, other, mergeReplicaVector, room]; rfl, ?_⟩)
      change Table.find DKVEntry.key (Table.update DKVEntry.key dst.entries entry.key (·.adopt n source)) key = _
      have held : Table.find DKVEntry.key dst.entries key = some entry := found
      rw [Table.find_update fun record => (rfl : (record.adopt n source).key = record.key), named, if_pos rfl, held]
      rfl
    · exact .inr (.inl ⟨older, Nat.le_of_not_lt room, by simp [dkvApply, other, mergeReplicaVector, room]⟩)

end Application

section Replication

variable {store : DKVStore n} {fromReplica toReplica key : Int} {f t : Fin n} {source : DKVEntry}

theorem parties_unique {f' t' : Fin n} {source' : DKVEntry}
    (named : slot n fromReplica = some f) (named' : slot n fromReplica = some f')
    (aimed : slot n toReplica = some t) (aimed' : slot n toReplica = some t')
    (offered : dkvFindEntry (store.replicas f).entries key = some source)
    (offered' : dkvFindEntry (store.replicas f').entries key = some source') :
    f = f' ∧ t = t' ∧ source = source' := by
  obtain rfl : f = f' := Option.some.inj (named.symm.trans named')
  obtain rfl : t = t' := Option.some.inj (aimed.symm.trans aimed')
  obtain rfl : source = source' := Option.some.inj (offered.symm.trans offered')
  exact ⟨rfl, rfl, rfl⟩

/-- A replication that has something to do, in terms of the entry it works on. -/
theorem replicates_iff_of_apply (dst : DKVReplica) (entry : DKVEntry) {outcome : Prop}
    (named : slot n fromReplica = some f) (aimed : slot n toReplica = some t) (apart : f ≠ t)
    (offered : dkvFindEntry (store.replicas f).entries key = some source)
    (runs : dkvReplicate store fromReplica toReplica key =
      (dkvApply n source entry dst).map fun dst => (store.setReplica t dst, true))
    (found : dkvFindEntry dst.entries key = some entry)
    (stale : Precedes n entry.version source.version →
      ¬ KeepsNewer n source (dkvFindEntry (store.replicas t).entries key) entry)
    (exactly : ¬ Precedes n entry.version source.version →
      (KeepsNewer n source (dkvFindEntry (store.replicas t).entries key) (entry.adopt n source) ↔ outcome)) :
    Replicates store fromReplica toReplica key ↔
      n < DKV_MAX_REPLICAS ∧ ¬ Precedes n entry.version source.version ∧ outcome := by
  have here : ∀ later, (store.setReplica t later).replicas t = later := fun later => Function.update_self ..
  unfold Replicates
  rcases dkvApply_cases n source found with
    ⟨older, kept⟩ | ⟨other, full, fault⟩ | ⟨other, room, later, applied, adopted⟩
  · rw [runs, kept]
    refine iff_of_false ?_ fun good => good.2.1 older
    intro replicated
    obtain ⟨_, held, keeps⟩ := replicated rfl f t source named aimed apart offered
    simp only [here, found, Option.some.injEq] at held
    exact stale older (held ▸ keeps)
  · rw [runs, fault]
    exact iff_of_false id fun good => absurd good.1 (Nat.not_lt.mpr full)
  · rw [runs, applied]
    constructor
    · intro replicated
      obtain ⟨_, held, keeps⟩ := replicated rfl f t source named aimed apart offered
      simp only [here, adopted, Option.some.injEq] at held
      exact ⟨room, other, (exactly other).mp (held ▸ keeps)⟩
    · rintro ⟨_, _, good⟩ _ f' t' source' named' aimed' _ offered'
      obtain ⟨rfl, rfl, rfl⟩ := parties_unique named named' aimed aimed' offered offered'
      exact ⟨_, by simp only [here, adopted], (exactly other).mpr good⟩

theorem replicates_iff_entry (named : slot n fromReplica = some f) (aimed : slot n toReplica = some t) (apart : f ≠ t)
    (offered : dkvFindEntry (store.replicas f).entries key = some source) :
    Replicates store fromReplica toReplica key ↔
      MergeableEntry n source (store.replicas t).beyond (dkvFindEntry (store.replicas t).entries key) := by
  cases held : dkvFindEntry (store.replicas t).entries key with
  | some entry =>
    rw [MergeableEntry]
    refine replicates_iff_of_apply _ entry named aimed apart offered ?_ held ?_ ?_
    · simp [dkvReplicate, named, aimed, apart, offered, held]
    · rw [held]
      exact not_keepsNewer_of_precedes (by rintro _ ⟨⟩; rfl)
    · rw [held]
      exact keepsNewer_adopt_iff
  | none =>
    cases room : (store.replicas t).beyond with
    | nil =>
      refine iff_of_true ?_ fun spare none => (nomatch none)
      have refused : dkvReplicate store fromReplica toReplica key = some (store, false) := by
        simp [dkvReplicate, named, aimed, apart, offered, held, room]
      rw [Replicates, refused]
      exact fun returned => nomatch returned
    | cons spare beyond =>
      have runs : dkvReplicate store fromReplica toReplica key =
          (dkvApply n source { spare with key := key }
            { store.replicas t with
              entries := (store.replicas t).entries ++ [{ spare with key := key }], beyond := beyond }).map
            fun dst => (store.setReplica t dst, true) := by
        simp [dkvReplicate, named, aimed, apart, offered, held, room]
      rw [mergeableEntry_new_iff]
      refine replicates_iff_of_apply _ { spare with key := key } named aimed apart offered runs
        (dkvFindEntry_new held) ?_ ?_
      · rw [held]
        exact not_keepsNewer_of_precedes fun entry none => (nomatch none)
      · rw [held]
        exact keepsNewer_new_iff

theorem replicates_iff (store : DKVStore n) (fromReplica toReplica key : Int) :
    Replicates store fromReplica toReplica key ↔ Mergeable store fromReplica toReplica key := by
  by_cases works : ∃ f t source, slot n fromReplica = some f ∧ slot n toReplica = some t ∧ f ≠ t ∧
      dkvFindEntry (store.replicas f).entries key = some source
  · obtain ⟨f, t, source, named, aimed, apart, offered⟩ := works
    rw [replicates_iff_entry named aimed apart offered]
    constructor
    · intro good f' t' source' named' aimed' _ offered'
      obtain ⟨rfl, rfl, rfl⟩ := parties_unique named named' aimed aimed' offered offered'
      exact good
    · exact fun mergeable => mergeable f t source named aimed apart offered
  · have nothing : ∀ f t source, slot n fromReplica = some f → slot n toReplica = some t → f ≠ t →
        dkvFindEntry (store.replicas f).entries key ≠ some source := by
      intro f t source named aimed apart offered
      exact works ⟨f, t, source, named, aimed, apart, offered⟩
    refine iff_of_true ?_ fun f t source named aimed apart offered =>
      absurd offered (nothing f t source named aimed apart)
    have idle : ∃ returned, dkvReplicate store fromReplica toReplica key = some (store, returned) := by
      unfold dkvReplicate
      split
      · rename_i f t named aimed
        by_cases apart : f = t
        · exact ⟨true, if_pos apart⟩
        · rw [if_neg apart]
          cases offered : dkvFindEntry (store.replicas f).entries key with
          | none => exact ⟨false, rfl⟩
          | some source => exact absurd offered (nothing f t source named aimed apart)
      · exact ⟨false, rfl⟩
    obtain ⟨returned, same⟩ := idle
    rw [Replicates, same]
    exact fun _ f t source named aimed apart offered => absurd offered (nothing f t source named aimed apart)

end Replication

/-- A property of the replications that a run makes. -/
def AtReplications (property : DKVStore n → Int → Int → Int → Prop) (store : Option (DKVStore n)) : DKVCall → Prop
  | .put _ _ _ => True
  | .replicate fromReplica toReplica key => ∀ store' ∈ store, property store' fromReplica toReplica key

/-- Every replication of a run keeps the newer version exactly if each finds an entry it can be merged into. -/
theorem dkvRun_replicates_iff (memory : Fin n → Fin DKV_MAX_KEYS → DKVEntry) (calls : List DKVCall) :
    Permitted dkvCall (AtReplications Replicates) (some (dkvInit memory)) calls ↔
      Permitted dkvCall (AtReplications Mergeable) (some (dkvInit memory)) calls := by
  have within : Permitted dkvCall Always (some (dkvInit memory)) calls := .always calls
  refine Permitted.congr (motive := fun _ => True) calls within trivial ?_ ?_
  · intros
    trivial
  · intro store call _ _
    cases call with
    | put replicaId key value => exact Iff.rfl
    | replicate fromReplica toReplica key => simp only [AtReplications, replicates_iff]

/-- A store whose memory was zero, of two replicas. -/
def zeroedStore (n : Nat) : DKVStore n := dkvInit fun _ _ => ⟨0, 0, fun _ => 0⟩

/-- The first replication of a key is not applied, as the zero version of the new entry precedes
the one that is sent. -/
theorem dkvReplicate_drops_newer :
    ¬ Permitted dkvCall (AtReplications Replicates) (some (zeroedStore 2)) [.put 0 1 7, .replicate 0 1 1] := by
  intro permitted
  have replicates := permitted.2.1 _ rfl
  have mergeable := (replicates_iff _ _ _ _).mp replicates
  have same := (mergeable 0 1 _ rfl rfl (by decide) rfl _ rfl).2 ⟨0, by decide⟩ (by decide)
  revert same
  decide

end MiniNetDist.DistProtocol.DistributedKv
