import Nesso.Log.SegmentedLog
import Nesso.Storage.Engine

/-
  What the locked sections of the engine do when every
  system call succeeds: they append one record and then
  change the maps in one of four ways.

  Key definitions include:
    * `Change`
    * `Change.record`
    * `Change.apply`
    * `Engine.perform`
    * `Change.Due`
    * `Engine.Moves`
    * `EngineState.IdsLeft`

  Each operation of the source is one change:
    * `Engine.push_none`
    * `Engine.popLocked_none`
    * `Engine.ack_none`
    * `Engine.processTaskFailure_none`
    * `Engine.nack_none`
-/

------------------------------------------------------------
-- Changes
------------------------------------------------------------

namespace Nesso

/-
  A change of the queue.  `finish` ends a task: it was acked,
  or dead-lettered with the given number of retries.
-/
inductive Change where
| add (priority : UInt8) (payload : Bytes)
| grant (task : TaskRef) (rest : ReadyQueue)
    (consumerId : UInt32) (expireTimestamp : UInt64)
| finish (id : UInt64) (priority : UInt8)
    (deadRetries : Option UInt8)
| retry (id : UInt64) (priority retries : UInt8)
    (failureType : OpType)

namespace Change

/- The record a change appends. -/
def record (inner : EngineState) : Change → Record
| add priority payload =>
    ⟨inner.nextId, .created, priority, payload⟩
| grant task _ consumerId expireTimestamp =>
    ⟨task.id, .leased, task.priority,
      leasePayload consumerId expireTimestamp task.retries⟩
| finish id priority none => ⟨id, .acked, priority, []⟩
| finish id priority (some retries) =>
    ⟨id, .deadLettered, priority, [retries]⟩
| retry id priority retries failureType =>
    ⟨id, failureType, priority, [retries]⟩

/- The maps once the record sits at its location. -/
def apply
    (inner : EngineState)
    (loc : Loc) : Change → EngineState
| add priority payload =>
    { inner with
      nextId := inner.nextId + 1
      index := inner.index.insert inner.nextId loc
      dataIndex := inner.dataIndex.insert inner.nextId loc
      payloadCache :=
        inner.payloadCache.insert inner.nextId payload
      readyQueue :=
        inner.readyQueue.push ⟨inner.nextId, priority, 0⟩ }
| grant task rest consumerId expireTimestamp =>
    { inner with
      readyQueue := rest
      index := inner.index.insert task.id loc
      leased :=
        inner.leased.insert task.id
          { consumerId := consumerId
            expireTimestamp := expireTimestamp
            retries := task.retries
            priority := task.priority } }
| finish id _ _ =>
    { inner with
      index := inner.index.insert id loc
      leased := inner.leased.erase id
      dataIndex := inner.dataIndex.erase id
      payloadCache := inner.payloadCache.remove id }
| retry id priority retries _ =>
    { inner with
      index := inner.index.insert id loc
      leased := inner.leased.erase id
      readyQueue :=
        inner.readyQueue.push ⟨id, priority, retries⟩ }

/- How a failed delivery with these retries is handled. -/
def failure
    (id : UInt64)
    (priority currentRetries : UInt8)
    (failureType : OpType) : Change :=
  if maxRetries ≤ currentRetries + 1 then
    finish id priority (some (currentRetries + 1))
  else
    retry id priority (currentRetries + 1) failureType

end Change

/- The id counter has not reached its last value. -/
def EngineState.IdsLeft (inner : EngineState) : Prop :=
  inner.nextId ≠ UInt64.ofNat (2 ^ 64 - 1)

theorem UInt64.lt_add_one_of_ne
    {n : UInt64}
    (hNe : n ≠ UInt64.ofNat (2 ^ 64 - 1)) :
    n < n + 1 := by
  have hToNat : n.toNat ≠ 2 ^ 64 - 1 := by
    intro hEq
    apply hNe
    apply UInt64.toNat_inj.mp
    rw [hEq]
    rfl
  have hLt := n.toNat_lt
  rw [UInt64.lt_iff_toNat_lt, UInt64.toNat_add]
  have hOne : (1 : UInt64).toNat = 1 := rfl
  rw [hOne, Nat.mod_eq_of_lt (by omega)]
  omega

namespace Engine

variable [Hasher]

/- Append the record of a change and apply it. -/
def perform
    (engine : Engine)
    (change : Change) : Engine :=
  let out :=
    Wal.append none engine.disk engine.inner.wal
      (change.record engine.inner)
  { engine with
    disk := out.2.1
    inner :=
      { change.apply engine.inner
          engine.inner.wal.nextLoc with
        wal := out.2.2 } }

omit [Hasher] in
/- A cache lookup counts a hit or a miss. -/
def touchCache
    (engine : Engine)
    (id : UInt64) : Engine :=
  { engine with
    inner :=
      { engine.inner with
        payloadCache :=
          (engine.inner.payloadCache.get id).2 } }

end Engine

end Nesso

------------------------------------------------------------
-- Operations as Changes
------------------------------------------------------------

namespace Nesso

namespace Engine

variable [Hasher]

/- An append without faults returns the next location. -/
theorem append_none_fst
    (disk : Disk)
    (wal : Wal)
    (record : Record) :
    (Wal.append none disk wal record).1 =
      .ok wal.nextLoc := by
  unfold Wal.append Wal.rotateIfFull Wal.nextLoc Wal.rotates
  by_cases hFull : wal.maxSegmentSize ≤ wal.currentSize
  · simp [hFull, Wal.rotate, Wal.writeFrame]
  · simp [hFull, Wal.writeFrame]

theorem appendRecord_none
    (engine : Engine)
    (record : Record) :
    engine.appendRecord none record =
      (.ok engine.inner.wal.nextLoc,
        { engine with
          disk :=
            (Wal.append none engine.disk engine.inner.wal
              record).2.1
          inner :=
            { engine.inner with
              wal :=
                (Wal.append none engine.disk
                  engine.inner.wal record).2.2 } }) := by
  rw [appendRecord, append_none_fst]

theorem push_none
    (engine : Engine)
    (payload : Bytes)
    (priority : UInt8) :
    engine.push none payload priority =
      (.ok engine.inner.nextId,
        engine.perform (.add priority payload)) := by
  simp only [push, appendRecord_none]
  rfl

/-
  A pop leases the head of the highest bucket; the ticket
  carries the data location and the cached payload.
-/
theorem popLocked_none
    (engine : Engine)
    (consumerId : UInt32)
    (now leaseTtlSecs : UInt64) :
    engine.popLocked none consumerId now leaseTtlSecs =
      match engine.inner.readyQueue.pop with
      | none => (.ok none, engine)
      | some (task, rest) =>
          let granted :=
            engine.perform
              (.grant task rest consumerId
                (now + leaseTtlSecs))
          match engine.inner.dataIndex[task.id]? with
          | none =>
              (.error ⟨.notFound, "Missing data offset"⟩,
                granted)
          | some dataLoc =>
              (.ok
                (some
                  { id := task.id
                    priority := task.priority
                    retries := task.retries
                    dataLoc := dataLoc
                    cachedPayload :=
                      engine.inner.payloadCache.entries[task.id]? }),
                granted.touchCache task.id) := by
  unfold popLocked
  cases engine.inner.readyQueue.pop with
  | none => rfl
  | some popped =>
      rcases popped with ⟨task, rest⟩
      simp only [appendRecord_none]
      cases engine.inner.dataIndex[task.id]? with
      | none => rfl
      | some dataLoc =>
          rw [← PayloadCache.get_fst]
          rfl

theorem ack_none
    (engine : Engine)
    (id : UInt64)
    (consumerId : UInt32) :
    engine.ack none id consumerId =
      match engine.inner.leased[id]? with
      | none => (.error notLeased, engine)
      | some lease =>
          if lease.consumerId = consumerId then
            (.ok (),
              engine.perform (.finish id lease.priority none))
          else
            (.error leasedToAnother, engine) := by
  unfold ack
  cases engine.inner.leased[id]? with
  | none => rfl
  | some lease =>
      simp only [appendRecord_none]
      by_cases hConsumer : lease.consumerId = consumerId
      · simp only [hConsumer, ne_eq, not_true_eq_false,
          if_false, if_true]
        rfl
      · simp only [hConsumer, ne_eq, not_false_eq_true,
          if_true, if_false]

theorem processTaskFailure_none
    (engine : Engine)
    (id : UInt64)
    (priority currentRetries : UInt8)
    {failureType : OpType}
    (hType : failureType ≠ .deadLettered) :
    engine.processTaskFailure none id priority
        currentRetries failureType =
      (.ok (decide (¬ maxRetries ≤ currentRetries + 1)),
        engine.perform
          (.failure id priority currentRetries
            failureType)) := by
  unfold processTaskFailure Change.failure
  simp only [appendRecord_none]
  by_cases hDead : maxRetries ≤ currentRetries + 1
  · simp only [hDead, if_true, not_true_eq_false,
      decide_false]
    rfl
  · simp only [hDead, if_false, hType, not_false_eq_true,
      decide_true]
    rfl

theorem nack_none
    (engine : Engine)
    (id : UInt64)
    (consumerId : UInt32) :
    engine.nack none id consumerId =
      match engine.inner.leased[id]? with
      | none => (.error notLeased, engine)
      | some lease =>
          if lease.consumerId = consumerId then
            (.ok (),
              engine.perform
                (.failure id lease.priority lease.retries
                  .nacked))
          else
            (.error leasedToAnother, engine) := by
  unfold nack
  cases engine.inner.leased[id]? with
  | none => rfl
  | some lease =>
      simp only [ne_eq]
      by_cases hConsumer : lease.consumerId = consumerId
      · simp only [hConsumer, not_true_eq_false, if_false,
          if_true]
        rw [processTaskFailure_none _ _ _ _ (by decide)]
        rfl
      · simp only [hConsumer, not_false_eq_true, if_true,
          if_false]

/- Acking succeeds for the consumer that holds the lease. -/
theorem ack_eq_ok_iff
    (engine : Engine)
    (id : UInt64)
    (consumerId : UInt32) :
    (engine.ack none id consumerId).1 = .ok () ↔
      ∃ lease,
        engine.inner.leased[id]? = some lease ∧
          lease.consumerId = consumerId := by
  rw [ack_none]
  cases engine.inner.leased[id]? with
  | none => simp
  | some lease =>
      by_cases hConsumer : lease.consumerId = consumerId
      · simp [hConsumer]
      · simp [hConsumer]

theorem nack_eq_ok_iff
    (engine : Engine)
    (id : UInt64)
    (consumerId : UInt32) :
    (engine.nack none id consumerId).1 = .ok () ↔
      ∃ lease,
        engine.inner.leased[id]? = some lease ∧
          lease.consumerId = consumerId := by
  rw [nack_none]
  cases engine.inner.leased[id]? with
  | none => simp
  | some lease =>
      by_cases hConsumer : lease.consumerId = consumerId
      · simp [hConsumer]
      · simp [hConsumer]

theorem expireTask_none
    (engine : Engine)
    (task : ExpiredTask) :
    engine.expireTask none task =
      engine.perform
        (.failure task.id task.priority task.retries
          .expired) := by
  rw [expireTask,
    processTaskFailure_none _ _ _ _ (by decide)]

end Engine

end Nesso

------------------------------------------------------------
-- Changes on the Log
------------------------------------------------------------

namespace Nesso

theorem length_leasePayload
    (consumerId : UInt32)
    (expireTimestamp : UInt64)
    (retries : UInt8) :
    (leasePayload consumerId expireTimestamp
      retries).length = 13 := by
  simp [leasePayload, length_beBytes]

/- The metadata of a Leased record is read back. -/
theorem leaseOfRecord_leasePayload
    (id : UInt64)
    (priority : UInt8)
    (consumerId : UInt32)
    (expireTimestamp : UInt64)
    (retries : UInt8)
    (rest : Bytes) :
    EngineState.leaseOfRecord
        ⟨id, .leased, priority,
          leasePayload consumerId expireTimestamp retries ++
            rest⟩ =
      ⟨consumerId, expireTimestamp, retries, priority⟩ := by
  have hConsumer :
      slice
          (leasePayload consumerId expireTimestamp
            retries ++ rest) 0 4 =
        beBytes 4 consumerId.toNat := by
    simp [slice, leasePayload, beBytes]
  have hExpire :
      slice
          (leasePayload consumerId expireTimestamp
            retries ++ rest) 4 12 =
        beBytes 8 expireTimestamp.toNat := by
    simp [slice, leasePayload, beBytes]
  have hRetries :
      (leasePayload consumerId expireTimestamp
          retries ++ rest).getD 12 0 = retries := by
    simp [leasePayload, beBytes]
  simp only [EngineState.leaseOfRecord, hConsumer, hExpire,
    hRetries, ofBeBytes_beBytes]
  congr 1
  · have hLt : consumerId.toNat < 256 ^ 4 :=
      consumerId.toNat_lt
    rw [Nat.mod_eq_of_lt hLt, UInt32.ofNat_toNat]
  · have hLt : expireTimestamp.toNat < 256 ^ 8 :=
      expireTimestamp.toNat_lt
    rw [Nat.mod_eq_of_lt hLt, UInt64.ofNat_toNat]

/- Only a pushed payload can exceed the frame limit. -/
theorem Change.record_fits
    {inner : EngineState}
    {change : Change}
    (hPayload :
      ∀ priority payload, change = .add priority payload →
        payload.length ≤ maxPayloadSize) :
    (change.record inner).Fits := by
  unfold Record.Fits
  cases change with
  | add priority payload => exact hPayload _ _ rfl
  | grant task rest consumerId expireTimestamp =>
      simp [record, length_leasePayload, maxPayloadSize]
  | finish id priority deadRetries =>
      cases deadRetries <;> simp [record, maxPayloadSize]
  | retry id priority retries failureType =>
      simp [record, maxPayloadSize]

namespace Engine

variable [Hasher]

/- A change extends the log by its record. -/
theorem tracks_perform
    {engine : Engine}
    {log : SegmentedLog}
    (hTracks : engine.inner.wal.Tracks engine.disk log)
    {change : Change}
    (hFits : (change.record engine.inner).Fits) :
    (engine.perform change).inner.wal.Tracks
        (engine.perform change).disk
        (log.append engine.inner.wal.rotates
          (change.record engine.inner)) ∧
      engine.disk.Extends (engine.perform change).disk ∧
      (engine.perform change).inner.wal.maxSegmentSize =
        engine.inner.wal.maxSegmentSize := by
  rcases hTracks.append hFits with
    ⟨next, nextWal, hAppend, hNext, hExtends, hMax⟩
  simp only [perform, hAppend]
  exact ⟨hNext, hExtends, hMax⟩

/- The disk fallback keeps the handle cache coherent. -/
theorem coherent_readPayload
    {engine : Engine}
    {reader : WalReader}
    (hCoherent : reader.Coherent engine.disk)
    (id : UInt64)
    (tries : Nat)
    (loc : Loc) :
    (engine.readPayload id tries loc reader).2.Coherent
      engine.disk := by
  induction tries generalizing loc reader with
  | zero => exact hCoherent
  | succ tries ih =>
      have hNext :=
        hCoherent.readAt (ofLex loc).1 (ofLex loc).2
      rw [readPayload]
      split
      · exact hNext
      · exact ih hNext _
      · exact hNext

/- Reading the payload does not touch the locked state. -/
theorem inner_popRead
    (engine : Engine)
    (ticket : PopTicket) :
    (engine.popRead ticket).2.inner = engine.inner := by
  unfold popRead
  split <;> rfl

/- Reading the payload changes only the handle cache. -/
theorem popRead_snd
    {engine : Engine}
    (hCoherent : engine.reader.Coherent engine.disk)
    (ticket : PopTicket) :
    ∃ reader : WalReader,
      (engine.popRead ticket).2 =
          { engine with reader := reader } ∧
        reader.Coherent engine.disk := by
  unfold popRead
  split
  · exact ⟨engine.reader, rfl, hCoherent⟩
  · exact ⟨_, rfl, coherent_readPayload hCoherent _ _ _⟩

theorem popAndLease_snd
    {engine : Engine}
    {consumerId : UInt32}
    {now leaseTtlSecs : UInt64}
    (hCoherent :
      (engine.popLocked none consumerId now
          leaseTtlSecs).2.reader.Coherent
        (engine.popLocked none consumerId now
          leaseTtlSecs).2.disk) :
    ∃ reader : WalReader,
      (engine.popAndLease none consumerId now
          leaseTtlSecs).2 =
        { (engine.popLocked none consumerId now
            leaseTtlSecs).2 with
          reader := reader } ∧
        reader.Coherent
          (engine.popLocked none consumerId now
            leaseTtlSecs).2.disk := by
  unfold popAndLease
  generalize
    engine.popLocked none consumerId now leaseTtlSecs = out
    at hCoherent ⊢
  rcases out with ⟨result, next⟩
  rcases result with error | ticket
  · exact ⟨next.reader, rfl, hCoherent⟩
  · rcases ticket with _ | ticket
    · exact ⟨next.reader, rfl, hCoherent⟩
    · exact popRead_snd hCoherent ticket

omit [Hasher] in
theorem ok_of_map_ok
    {ε α β : Type}
    {result : Except ε α}
    {f : α → β}
    {value : β}
    (hMap : result.map f = .ok value) :
    ∃ found, result = .ok found ∧ f found = value := by
  cases result with
  | error error => simp [Except.map] at hMap
  | ok found =>
      rw [Except.map, Except.ok.injEq] at hMap
      exact ⟨found, rfl, hMap⟩

/- What is read is returned under the ticket's id. -/
theorem fields_of_popRead
    {engine : Engine}
    {ticket : PopTicket}
    {record : Record}
    (hRead : (engine.popRead ticket).1 = .ok record) :
    record.id = ticket.id ∧
      record.priority = ticket.priority := by
  unfold popRead at hRead
  split at hRead
  · rw [Except.ok.injEq] at hRead
    rw [← hRead]
    exact ⟨rfl, rfl⟩
  · rcases ok_of_map_ok hRead with ⟨found, _, hRecord⟩
    rw [← hRecord]
    exact ⟨rfl, rfl⟩

/- A pop returns the task it took from the ready queue. -/
theorem popAndLease_eq_some
    {engine : Engine}
    {consumerId : UInt32}
    {now leaseTtlSecs : UInt64}
    {record : Record}
    {retries : UInt8}
    (hPop :
      (engine.popAndLease none consumerId now
        leaseTtlSecs).1 = .ok (some (record, retries))) :
    ∃ task rest dataLoc,
      engine.inner.readyQueue.pop = some (task, rest) ∧
        engine.inner.dataIndex[task.id]? = some dataLoc ∧
        record.id = task.id ∧
        record.priority = task.priority ∧
        retries = task.retries := by
  rw [popAndLease, popLocked_none] at hPop
  cases hReady : engine.inner.readyQueue.pop with
  | none => simp [hReady] at hPop
  | some popped =>
      rcases popped with ⟨task, rest⟩
      simp only [hReady] at hPop
      cases hData :
          engine.inner.dataIndex[task.id]? with
      | none => simp [hData] at hPop
      | some dataLoc =>
          simp only [hData] at hPop
          rcases ok_of_map_ok hPop with
            ⟨found, hRead, hResult⟩
          rw [Option.some.injEq, Prod.mk.injEq] at hResult
          rcases fields_of_popRead hRead with
            ⟨hId, hPriority⟩
          rw [← hResult.1]
          exact ⟨task, rest, dataLoc, rfl, hData, hId,
            hPriority, hResult.2.symm⟩

end Engine

end Nesso

------------------------------------------------------------
-- What an Operation Can Do
------------------------------------------------------------

namespace Nesso

namespace Change

/- A change of a task that is the next one, or leased. -/
def Due (inner : EngineState) : Change → Prop
| add _ _ => False
| grant task rest _ _ =>
    inner.readyQueue.pop = some (task, rest)
| finish id priority _ =>
    ∃ lease,
      inner.leased[id]? = some lease ∧
        lease.priority = priority
| retry id priority _ failureType =>
    (∃ lease,
      inner.leased[id]? = some lease ∧
        lease.priority = priority) ∧
      (failureType = .nacked ∨ failureType = .expired)

theorem due_failure
    {inner : EngineState}
    {id : UInt64}
    {lease : LeaseInfo}
    (hLease : inner.leased[id]? = some lease)
    {failureType : OpType}
    (hType :
      failureType = .nacked ∨ failureType = .expired) :
    (failure id lease.priority lease.retries
      failureType).Due inner := by
  unfold failure
  split
  · exact ⟨lease, hLease, rfl⟩
  · exact ⟨⟨lease, hLease, rfl⟩, hType⟩

theorem Due.fits
    {inner : EngineState}
    {change : Change}
    (hDue : change.Due inner) :
    (change.record inner).Fits := by
  apply record_fits
  rintro priority payload rfl
  exact hDue.elim

end Change

namespace Engine

/- Engines that differ in caches and open handles only. -/
structure Alike (engine next : Engine) : Prop where
  disk_eq : next.disk = engine.disk
  wal_eq : next.inner.wal = engine.inner.wal
  nextId_eq : next.inner.nextId = engine.inner.nextId
  index_eq : next.inner.index = engine.inner.index
  dataIndex_eq :
    next.inner.dataIndex = engine.inner.dataIndex
  readyQueue_eq :
    next.inner.readyQueue = engine.inner.readyQueue
  leased_eq : next.inner.leased = engine.inner.leased

theorem Alike.refl (engine : Engine) :
    engine.Alike engine :=
  ⟨rfl, rfl, rfl, rfl, rfl, rfl, rfl⟩

theorem Alike.trans
    {engine middle next : Engine}
    (hFirst : engine.Alike middle)
    (hSecond : middle.Alike next) :
    engine.Alike next where
  disk_eq := hSecond.disk_eq.trans hFirst.disk_eq
  wal_eq := hSecond.wal_eq.trans hFirst.wal_eq
  nextId_eq := hSecond.nextId_eq.trans hFirst.nextId_eq
  index_eq := hSecond.index_eq.trans hFirst.index_eq
  dataIndex_eq :=
    hSecond.dataIndex_eq.trans hFirst.dataIndex_eq
  readyQueue_eq :=
    hSecond.readyQueue_eq.trans hFirst.readyQueue_eq
  leased_eq := hSecond.leased_eq.trans hFirst.leased_eq

variable [Hasher]

theorem alike_popRead
    (engine : Engine)
    (ticket : PopTicket) :
    engine.Alike (engine.popRead ticket).2 := by
  unfold popRead
  split <;> exact ⟨rfl, rfl, rfl, rfl, rfl, rfl, rfl⟩

/- The engine is as before, or one due change was made. -/
def Moves (engine next : Engine) : Prop :=
  engine.Alike next ∨
    ∃ change : Change,
      change.Due engine.inner ∧
        (engine.perform change).Alike next

theorem popLocked_moves
    (engine : Engine)
    (consumerId : UInt32)
    (now leaseTtlSecs : UInt64) :
    engine.Moves
      (engine.popLocked none consumerId now
        leaseTtlSecs).2 := by
  rw [popLocked_none]
  cases hPop : engine.inner.readyQueue.pop with
  | none => exact .inl (.refl engine)
  | some popped =>
      rcases popped with ⟨task, rest⟩
      refine .inr
        ⟨.grant task rest consumerId (now + leaseTtlSecs),
          hPop, ?_⟩
      simp only
      split
      · exact .refl _
      · exact ⟨rfl, rfl, rfl, rfl, rfl, rfl, rfl⟩

theorem popAndLease_moves
    (engine : Engine)
    (consumerId : UInt32)
    (now leaseTtlSecs : UInt64) :
    engine.Moves
      (engine.popAndLease none consumerId now
        leaseTtlSecs).2 := by
  have hLocked :=
    engine.popLocked_moves consumerId now leaseTtlSecs
  unfold popAndLease
  generalize
    engine.popLocked none consumerId now leaseTtlSecs = out
    at hLocked ⊢
  rcases out with ⟨error | _ | ticket, next⟩
  · exact hLocked
  · exact hLocked
  · have hRead := alike_popRead next ticket
    rcases hLocked with hAlike | ⟨change, hDue, hAlike⟩
    · exact .inl (hAlike.trans hRead)
    · exact .inr ⟨change, hDue, hAlike.trans hRead⟩

theorem ack_moves
    (engine : Engine)
    (id : UInt64)
    (consumerId : UInt32) :
    engine.Moves (engine.ack none id consumerId).2 := by
  rw [ack_none]
  cases hLease : engine.inner.leased[id]? with
  | none => exact .inl (.refl engine)
  | some lease =>
      simp only
      split
      · exact .inr
          ⟨.finish id lease.priority none,
            ⟨lease, hLease, rfl⟩, .refl _⟩
      · exact .inl (.refl engine)

theorem nack_moves
    (engine : Engine)
    (id : UInt64)
    (consumerId : UInt32) :
    engine.Moves (engine.nack none id consumerId).2 := by
  rw [nack_none]
  cases hLease : engine.inner.leased[id]? with
  | none => exact .inl (.refl engine)
  | some lease =>
      simp only
      split
      · exact .inr
          ⟨_, Change.due_failure hLease (.inl rfl),
            .refl _⟩
      · exact .inl (.refl engine)

end Engine

end Nesso
