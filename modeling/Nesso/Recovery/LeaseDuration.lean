import Nesso.Recovery.LeaseExpiry

/-
  How long a granted lease lasts.

  `pop_and_lease` adds `lease_ttl_secs` to the time with a
  64-bit addition; the expiration worker and recovery compare
  the sum with the time they run at.

  Key definitions include:
    * `TaskRef.leaseRecord`
    * `Record.Consolidated`
    * `LeaseLasts`

  The main theorems are:
    * `expiresAt_live_iff`
    * `expiresAt_recovered_iff`
    * `lease_lasts_iff`
-/

------------------------------------------------------------
-- Granted Leases
------------------------------------------------------------

namespace Nesso

/- The record that `pop_and_lease` appends. -/
def TaskRef.leaseRecord
    (task : TaskRef)
    (consumerId : UInt32)
    (now leaseTtlSecs : UInt64) : Record :=
  ⟨task.id, .leased, task.priority,
    leasePayload consumerId (now + leaseTtlSecs)
      task.retries⟩

/- What any number of compactions make of a record. -/
inductive Record.Consolidated
    (written : Record) : Record → Prop where
| raw : Consolidated written written
| compacted (maps : CompactionMaps) {record : Record} :
    Consolidated written record →
      Consolidated written
        (maps.recordToWrite record.id record)

/-
  The lease of the task that is popped ends at the time of
  the grant plus `lease_ttl_secs`, as natural numbers: for
  the worker as long as the lease is held, and for recovery
  from any directory where the lease is the latest record.
-/
structure LeaseLasts [Hasher]
    (engine : Engine)
    (task : TaskRef)
    (consumerId : UInt32)
    (now leaseTtlSecs : UInt64) : Prop where
  exact :
    (now + leaseTtlSecs).toNat =
      now.toNat + leaseTtlSecs.toNat
  live :
    ∀ later : Engine,
      later.inner.leased[task.id]? =
          (engine.popLocked none consumerId now
            leaseTtlSecs).2.inner.leased[task.id]? →
        ∀ time,
          task.id ∈
              (later.expiredTasks time).map ExpiredTask.id ↔
            now.toNat + leaseTtlSecs.toNat ≤ time.toNat
  written :
    ((engine.popLocked none consumerId now
          leaseTtlSecs).2.disk,
        (engine.popLocked none consumerId now
          leaseTtlSecs).2.inner.wal) =
      (Wal.append none engine.disk engine.inner.wal
        (task.leaseRecord consumerId now leaseTtlSecs)).2
  recovered :
    ∀ disk maxSegmentSize cacheCapacity time,
      ∀ entry ∈ Wal.latestEntries disk maxSegmentSize,
        (task.leaseRecord consumerId now
            leaseTtlSecs).Consolidated entry.2 →
          (task.id ∈
                (Engine.reopen disk maxSegmentSize
                  cacheCapacity time).2.inner.leased ↔
              time.toNat <
                now.toNat + leaseTtlSecs.toNat) ∧
            (task.id ∈
                (Engine.reopen disk maxSegmentSize
                  cacheCapacity
                  time).2.inner.readyQueue.tasks.map
                    TaskRef.id ↔
              now.toNat + leaseTtlSecs.toNat ≤ time.toNat)

end Nesso

------------------------------------------------------------
-- The Two Expiry Tests
------------------------------------------------------------

namespace Nesso

theorem exact_iff
    (now leaseTtlSecs : UInt64) :
    (now + leaseTtlSecs).toNat =
        now.toNat + leaseTtlSecs.toNat ↔
      now.toNat + leaseTtlSecs.toNat < 2 ^ 64 := by
  have hSum := UInt64.toNat_add now leaseTtlSecs
  have hLt := (now + leaseTtlSecs).toNat_lt
  constructor
  · intro hExact
    omega
  · intro hFits
    rw [hSum, Nat.mod_eq_of_lt hFits]

/- The worker's test on a lease that is held. -/
theorem expiresAt_live_iff
    {engine : Engine}
    {id : UInt64}
    {lease : LeaseInfo}
    (hLease : engine.inner.leased[id]? = some lease)
    (time : UInt64) :
    id ∈ (engine.expiredTasks time).map ExpiredTask.id ↔
      lease.expireTimestamp ≤ time := by
  rw [List.mem_map]
  constructor
  · rintro ⟨task, hTask, rfl⟩
    rcases mem_expiredTasks_iff.mp hTask with
      ⟨found, hFound, hExpired, _⟩
    rw [hLease, Option.some.injEq] at hFound
    rw [hFound]
    exact hExpired
  · intro hExpired
    refine ⟨⟨id, lease.priority, lease.retries⟩, ?_, rfl⟩
    exact mem_expiredTasks_iff.mpr
      ⟨lease, hLease, hExpired, rfl⟩

/- A record that places a lease has all its fields. -/
theorem Record.long_of_place_eq_leased
    {record : Record}
    {lease : LeaseInfo}
    (hPlace : record.place = .leased lease) :
    13 ≤ record.payload.length := by
  by_contra hShort
  unfold place at hPlace
  split at hPlace <;> simp [hShort] at hPlace

/- Compaction keeps the lease. -/
theorem Record.Consolidated.place_eq
    {written record : Record}
    {lease : LeaseInfo}
    (hRecord : written.Consolidated record)
    (hPlace : written.place = .leased lease) :
    record.id = written.id ∧
      record.place = .leased lease := by
  induction hRecord with
  | raw => exact ⟨rfl, hPlace⟩
  | compacted maps _ ih =>
      refine ⟨?_, ?_⟩
      · rw [(maps.recordToWrite_fields rfl).1]
        exact ih.1
      · rw [maps.place_recordToWrite rfl
          (fun _ => long_of_place_eq_leased ih.2)]
        exact ih.2

/- Recovery's test on a lease that is the latest record. -/
theorem expiresAt_recovered_iff
    {time : UInt64}
    {entries : List (Loc × Record)}
    {inner : EngineState}
    (hInner : inner.Recovered time entries)
    {entry : Loc × Record}
    (hEntry : entry ∈ KeyedLog.latests entryId entries)
    {lease : LeaseInfo}
    (hPlace : entry.2.place = .leased lease) :
    (entry.2.id ∈ inner.leased ↔
        time < lease.expireTimestamp) ∧
      (entry.2.id ∈
          inner.readyQueue.tasks.map TaskRef.id ↔
        lease.expireTimestamp ≤ time) := by
  have hLatest := KeyedLog.mem_latests_iff.mp hEntry
  have hKey : entryId entry = entry.2.id := rfl
  rw [hKey] at hLatest
  refine ⟨?_, ?_, ?_⟩
  · rw [Std.ExtTreeMap.mem_iff_isSome_getElem?,
      hInner.leased_eq, Option.isSome_iff_exists]
    constructor
    · rintro ⟨found, hFound⟩
      rcases Replay.lease_eq_some_iff.mp hFound with
        ⟨other, hOther, hAt⟩
      rw [hLatest, Option.some.injEq] at hOther
      rw [← hOther] at hAt
      rcases Record.placeAt_eq_leased_iff.mp hAt with
        ⟨hSame, hLive⟩
      rw [hPlace, Place.leased.injEq] at hSame
      rw [hSame]
      exact hLive
    · intro hLive
      exact ⟨lease, Replay.lease_eq_some_iff.mpr
        ⟨entry, hLatest,
          Record.placeAt_eq_leased_iff.mpr
            ⟨hPlace, hLive⟩⟩⟩
  · intro hReady
    rcases List.mem_map.mp hReady with ⟨task, hTask, hId⟩
    rw [ReadyQueue.mem_tasks_iff, hInner.bucket_eq,
      List.mem_filter, Replay.mem_ready_iff
        (fun _ _ hReady =>
          (Record.id_of_placeAt_eq_ready hReady).1)]
      at hTask
    rcases hTask with ⟨⟨other, hOther, hAt⟩, _⟩
    rw [hId, hLatest, Option.some.injEq] at hOther
    rw [← hOther] at hAt
    by_contra hLive
    rw [UInt64.not_le] at hLive
    rw [Record.placeAt_eq_leased_iff.mpr
      ⟨hPlace, hLive⟩] at hAt
    simp at hAt
  · intro hExpired
    exact List.mem_map.mpr ⟨_,
      mem_ready_of_leaseExpired hInner hEntry hPlace
        hExpired, rfl⟩

end Nesso

------------------------------------------------------------
-- Leases of the Full Range
------------------------------------------------------------

namespace Nesso

namespace Engine

variable [Hasher]
variable {engine : Engine} {task : TaskRef}
variable {rest : ReadyQueue}

/- The lease that a pop grants, and its record. -/
theorem popLocked_grants
    (hPop : engine.inner.readyQueue.pop = some (task, rest))
    (consumerId : UInt32)
    (now leaseTtlSecs : UInt64) :
    (engine.popLocked none consumerId now
          leaseTtlSecs).2.inner.leased[task.id]? =
        some
          ⟨consumerId, now + leaseTtlSecs, task.retries,
            task.priority⟩ ∧
      ((engine.popLocked none consumerId now
            leaseTtlSecs).2.disk,
          (engine.popLocked none consumerId now
            leaseTtlSecs).2.inner.wal) =
        (Wal.append none engine.disk engine.inner.wal
          (task.leaseRecord consumerId now
            leaseTtlSecs)).2 := by
  rw [popLocked_none, hPop]
  dsimp only
  cases engine.inner.dataIndex[task.id]? with
  | none =>
      exact ⟨Std.ExtTreeMap.getElem?_insert_self, rfl⟩
  | some dataLoc =>
      exact ⟨Std.ExtTreeMap.getElem?_insert_self, rfl⟩

end Engine

theorem TaskRef.place_leaseRecord
    (task : TaskRef)
    (consumerId : UInt32)
    (now leaseTtlSecs : UInt64) :
    (task.leaseRecord consumerId now leaseTtlSecs).place =
      .leased
        ⟨consumerId, now + leaseTtlSecs, task.retries,
          task.priority⟩ := by
  have hLease :=
    leaseOfRecord_leasePayload task.id task.priority
      consumerId (now + leaseTtlSecs) task.retries []
  rw [List.append_nil] at hLease
  simp [Record.place, leaseRecord, length_leasePayload,
    hLease]

/-
  A lease lasts as long as granted if and only if its end is
  a 64-bit number.
-/
theorem lease_lasts_iff [Hasher]
    {engine : Engine}
    {task : TaskRef}
    {rest : ReadyQueue}
    (hPop : engine.inner.readyQueue.pop = some (task, rest))
    (consumerId : UInt32)
    (now leaseTtlSecs : UInt64) :
    LeaseLasts engine task consumerId now leaseTtlSecs ↔
      now.toNat + leaseTtlSecs.toNat < 2 ^ 64 := by
  constructor
  · intro hLasts
    exact (exact_iff now leaseTtlSecs).mp hLasts.exact
  · intro hFits
    have hExact := (exact_iff now leaseTtlSecs).mpr hFits
    rcases Engine.popLocked_grants hPop consumerId now
      leaseTtlSecs with ⟨hLease, hWritten⟩
    refine ⟨hExact, ?_, hWritten, ?_⟩
    · intro later hLater time
      rw [hLease] at hLater
      rw [expiresAt_live_iff hLater, UInt64.le_iff_toNat_le,
        hExact]
    · intro disk maxSegmentSize cacheCapacity time entry
        hEntry hRecord
      rcases hRecord.place_eq
        (task.place_leaseRecord consumerId now leaseTtlSecs)
        with ⟨hId, hPlace⟩
      rcases Engine.reopen_any_spec disk maxSegmentSize
        cacheCapacity time with
        ⟨next, hReopen, _, _, _, _, hInner⟩
      have hTask : entry.2.id = task.id := hId
      rcases expiresAt_recovered_iff hInner hEntry hPlace with
        ⟨hLeased, hReady⟩
      rw [hTask] at hLeased hReady
      rw [hReopen, hLeased, hReady, UInt64.lt_iff_toNat_lt,
        UInt64.le_iff_toNat_le, hExact]
      exact ⟨Iff.rfl, Iff.rfl⟩

/- An engine with one task. -/
def oneTask : Engine :=
  ((Engine.reopen FileSystem.empty none 4 0).2.push none [1]
    0).2

set_option maxRecDepth 100000 in
theorem lease_lasts_iff_thirtySeconds :
    ∃ task,
      LeaseLasts oneTask task 7 10 30 ∧ task.id = 1 := by
  have hReady :
      oneTask.inner.readyQueue.pop.any
        (fun popped => popped.1.id = 1) = true := by
    decide +kernel
  rcases (Option.any_eq_true _ _).mp hReady with
    ⟨⟨task, rest⟩, hPop, hId⟩
  exact ⟨task,
    (lease_lasts_iff hPop 7 10 30).mpr (by decide),
    of_decide_eq_true hId⟩

/- The sum wraps to 0: the worker ends the lease at once. -/
set_option maxRecDepth 100000 in
theorem longest_lease_expires_at_once :
    (oneTask.popLocked none 7 1
        (UInt64.ofNat (2 ^ 64 - 1))).2.expiredTasks 1 =
        [⟨1, 0, 0⟩] ∧
      ∀ task,
        ¬ LeaseLasts oneTask task 7 1
          (UInt64.ofNat (2 ^ 64 - 1)) := by
  refine ⟨by decide +kernel, ?_⟩
  intro task hLasts
  have hExact := hLasts.exact
  revert hExact
  decide

end Nesso
