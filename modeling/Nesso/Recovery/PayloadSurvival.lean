import Nesso.Library.Transition
import Nesso.Recovery.Restarts
import Nesso.Storage.Checksum

/-
  Payloads across compactions and restarts.  Recovery looks
  for a Created record, and takes a task's latest record for
  its payload when there is none; after a compaction that is
  right only while the consolidated record is the latest one.

  Key definitions include:
    * `LifeOp.Admissible`
    * `LifeOp.FindsPayloads`
    * `PayloadSurvival`

  The main theorems are:
    * `lifeRun_payloads_survive`
    * `lifeRun_loses_payload`
-/

------------------------------------------------------------
-- Payload Survival
------------------------------------------------------------

namespace Nesso

/-
  No system call fails, pushed payloads leave room for a
  state's metadata, and the id counter does not overflow.
-/
def LifeOp.Admissible
    (service : Service) : LifeOp → Prop
| .push fault payload _ =>
    fault = none ∧
      payload.length ≤ maxUserPayloadSize ∧
      service.engine.inner.nextId ≠
        UInt64.ofNat (2 ^ 64 - 1)
| .popAndLease fault _ _ _ => fault = none
| .ack fault _ _ => fault = none
| .nack fault _ _ => fault = none
| .compact => True
| .restart _ _ _ => True

instance
    (service : Service)
    (op : LifeOp) :
    Decidable (op.Admissible service) :=
  match op with
  | .push _ _ _ => inferInstanceAs (Decidable (_ ∧ _ ∧ _))
  | .popAndLease _ _ _ _ => inferInstanceAs (Decidable (_ = _))
  | .ack _ _ _ => inferInstanceAs (Decidable (_ = _))
  | .nack _ _ _ => inferInstanceAs (Decidable (_ = _))
  | .compact => inferInstanceAs (Decidable True)
  | .restart _ _ _ => inferInstanceAs (Decidable True)

/- Every restart finds the payloads of all live tasks. -/
def LifeOp.FindsPayloads [Hasher]
    (service : Service) : LifeOp → Prop
| .restart _ _ _ => service.engine.DataCurrent
| _ => True

/- A pop returns what the last push of its id was given. -/
def PayloadSurvival [Hasher] (service : Service) : Prop :=
  ∀ consumerId now leaseTtlSecs record retries,
    (service.engine.popAndLease none consumerId now
        leaseTtlSecs).1 = .ok (some (record, retries)) →
      lastPayload service.history record.id =
        some record.payload

/- Whether a read returned a Created record. -/
def readsCreated
    (result : Except IoError (Option Record)) : Bool :=
  match result with
  | .ok (some record) => record.opType = .created
  | _ => false

theorem readsCreated_iff
    {result : Except IoError (Option Record)} :
    readsCreated result = true ↔
      ∃ record,
        result = .ok (some record) ∧
          record.opType = .created := by
  unfold readsCreated
  split <;> simp_all

instance [Hasher] (engine : Engine) :
    Decidable engine.DataCurrent :=
  decidable_of_iff
    (∀ entry ∈ engine.inner.dataIndex.toList,
      engine.inner.index[entry.1]? = some entry.2 ∨
        readsCreated
          (WalReader.new.readAt engine.disk
            (ofLex entry.2).1 (ofLex entry.2).2).1 =
          true)
    (by
      simp only [Engine.DataCurrent, Prod.forall,
        Std.ExtTreeMap.mem_toList_iff_getElem?_eq_some,
        readsCreated_iff])

instance [Hasher]
    (service : Service)
    (op : LifeOp) :
    Decidable (op.FindsPayloads service) :=
  match op with
  | .restart _ _ _ =>
      inferInstanceAs
        (Decidable service.engine.DataCurrent)
  | .push _ _ _ => inferInstanceAs (Decidable True)
  | .popAndLease _ _ _ _ => inferInstanceAs (Decidable True)
  | .ack _ _ _ => inferInstanceAs (Decidable True)
  | .nack _ _ _ => inferInstanceAs (Decidable True)
  | .compact => inferInstanceAs (Decidable True)

namespace Service

variable [Hasher]
variable {service next : Service}

/- The service keeps the payloads its clients pushed. -/
def KeepsPayloads (service : Service) : Prop :=
  ∃ log,
    service.engine.Keeps log (lastPayload service.history)

theorem keepsPayloads_start
    (maxSegmentSize : Option Nat)
    (cacheCapacity : Nat)
    (now : UInt64) :
    (start maxSegmentSize cacheCapacity
      now).KeepsPayloads := by
  rcases Engine.reopen_empty_spec maxSegmentSize
    cacheCapacity now with
    ⟨first, hFirst, hTracks, hClean, hReader, hCache,
      hInner⟩
  rcases hInner.empty with ⟨hReady, hLeased, hData, _⟩
  have hEngine :
      (start maxSegmentSize cacheCapacity now).engine =
        first := by
    simp only [start, hFirst]
  have hEntries :
      ({ closed := [], activeId := 1, active := [] } :
        SegmentedLog).entries = [] := rfl
  rw [KeepsPayloads, hEngine]
  refine ⟨_, ⟨hTracks, hReader, ?_⟩, ?_, hClean⟩
  · rw [hEntries]
    constructor
    · simp [hData]
    · simp [hCache, PayloadCache.new]
    · simp
    · simp [hReady]
    · simp [hLeased]
    · simp
  · rw [hEntries]
    exact hInner.placed

/- Every operation and every such restart keeps them. -/
theorem KeepsPayloads.step
    (hService : service.KeepsPayloads)
    {op : LifeOp}
    (hAdmissible : op.Admissible service)
    (hFinds : op.FindsPayloads service)
    (hStep : service.step op = some next) :
    next.KeepsPayloads := by
  rcases hService with ⟨log, hKeeps⟩
  cases op with
  | push fault payload priority =>
      rcases hAdmissible with ⟨rfl, hShort, hLeft⟩
      rw [Service.step, Option.some.injEq] at hStep
      rcases hKeeps.push hLeft hShort priority with
        ⟨nextLog, hNext⟩
      rw [← hStep]
      refine ⟨nextLog, ?_⟩
      simp only [Engine.push_none, System.eventIf]
      rw [lastPayload_append_pushed]
      rw [Engine.push_none] at hNext
      exact hNext
  | popAndLease fault consumerId now leaseTtlSecs =>
      have hFault : fault = none := hAdmissible
      subst hFault
      rw [Service.step, Option.some.injEq] at hStep
      rcases hKeeps.popAndLease consumerId now leaseTtlSecs
        with ⟨nextLog, hNext⟩
      rw [← hStep]
      refine ⟨nextLog, ?_⟩
      rw [lastPayload_append_of_not_pushed]
      · exact hNext
      · intro event hEvent id
        unfold deliveries at hEvent
        split at hEvent
        · rw [List.mem_singleton.mp hEvent]
          rfl
        · simp at hEvent
  | ack fault id consumerId =>
      have hFault : fault = none := hAdmissible
      subst hFault
      rw [Service.step, Option.some.injEq] at hStep
      rcases hKeeps.ack id consumerId with
        ⟨nextLog, hNext⟩
      rw [← hStep]
      refine ⟨nextLog, ?_⟩
      rw [lastPayload_append_of_not_pushed]
      · exact hNext
      · intro event hEvent other
        unfold System.eventIf at hEvent
        split at hEvent
        · rw [List.mem_singleton.mp hEvent]
          rfl
        · simp at hEvent
  | nack fault id consumerId =>
      have hFault : fault = none := hAdmissible
      subst hFault
      rw [Service.step, Option.some.injEq] at hStep
      rcases hKeeps.nack id consumerId with
        ⟨nextLog, hNext⟩
      rw [← hStep]
      refine ⟨nextLog, ?_⟩
      rw [lastPayload_append_of_not_pushed]
      · exact hNext
      · intro event hEvent other
        unfold System.eventIf at hEvent
        split at hEvent
        · rw [List.mem_singleton.mp hEvent]
          rfl
        · simp at hEvent
  | compact =>
      rw [Service.step, Option.some.injEq] at hStep
      rw [← hStep]
      exact hKeeps.compact
  | restart maxSegmentSize cacheCapacity now =>
      rcases hKeeps.reopen hFinds maxSegmentSize
        cacheCapacity now with
        ⟨engine, nextLog, hReopen, hNext⟩
      rw [Service.step, restart, hReopen, Option.some.injEq]
        at hStep
      rw [← hStep]
      exact ⟨nextLog, hNext⟩

theorem KeepsPayloads.payloadSurvival
    (hService : service.KeepsPayloads) :
    PayloadSurvival service := by
  rcases hService with ⟨log, hKeeps⟩
  intro consumerId now leaseTtlSecs record retries hPop
  have hResult :=
    hKeeps.serves.reads.popAndLease_eq consumerId now
      leaseTtlSecs
  rcases Engine.popAndLease_eq_some hPop with
    ⟨task, rest, dataLoc, hReady, hData, hId, _, _⟩
  rcases hKeeps.serves.stored.data task.id dataLoc hData
    with ⟨payload, hPayload, _⟩
  rw [hPop, Engine.popResult, hReady] at hResult
  simp only [hData, Except.ok.injEq, Option.some.injEq,
    Prod.mk.injEq] at hResult
  rw [hResult.1, hPayload]
  simp

end Service

/-
  In every run whose restarts find the payloads, every pop
  returns the payload that was pushed.
-/
theorem lifeRun_payloads_survive [Hasher]
    {maxSegmentSize : Option Nat}
    {cacheCapacity : Nat}
    {start : UInt64}
    {ops : List LifeOp}
    {service : Service}
    (hRun :
      Transition.Run Service.step
        (fun service op =>
          op.Admissible service ∧ op.FindsPayloads service)
        (Service.start maxSegmentSize cacheCapacity start)
        ops service) :
    PayloadSurvival service := by
  apply Service.KeepsPayloads.payloadSurvival
  apply hRun.invariant
  · exact Service.keepsPayloads_start maxSegmentSize
      cacheCapacity start
  · intro state next op hState hAllowed hStep
    exact hState.step hAllowed.1 hAllowed.2 hStep

end Nesso

------------------------------------------------------------
-- A Payload Found and a Payload Lost
------------------------------------------------------------

namespace Nesso

/- Task 1 is leased, compacted and recovered in that state. -/
def recoveredLeased : List LifeOp :=
  [.push none [7, 8, 9] 5, .popAndLease none 1 10 100,
    .push none [1] 5, .compact, .restart (some 40) 4 200]

set_option maxRecDepth 100000 in
theorem lifeRun_payloads_survive_recoveredLeased :
    ∃ service,
      Transition.Run Service.step
          (fun service op =>
            op.Admissible service ∧
              op.FindsPayloads service)
          (Service.start (some 40) 4 0) recoveredLeased
          service ∧
        service.engine.status = (2, 0) ∧
        PayloadSurvival service := by
  have hEnd :
      (Transition.execute
        (Transition.checkedStep Service.step (fun service op =>
          op.Admissible service ∧
            op.FindsPayloads service))
        recoveredLeased
        (Service.start (some 40) 4 0)).any
          (fun service =>
            service.engine.status = (2, 0)) = true := by
    decide +kernel
  rcases Transition.exists_run_of_checked
    (fun _ _ hOp => of_decide_eq_true hOp) hEnd with
    ⟨service, hRun, hStatus⟩
  exact ⟨service, hRun, of_decide_eq_true hStatus,
    lifeRun_payloads_survive hRun⟩

/-
  After the compaction the payload of task 1 is in its
  consolidated Leased record; the nack is a later record
  without it, and recovery takes that one.
-/
def nackedAfterCompaction : List LifeOp :=
  [.push none [7, 8, 9] 5, .popAndLease none 1 10 100,
    .push none [1] 9, .compact, .nack none 1 1,
    .restart (some 40) 4 20, .popAndLease none 1 30 100]

/- Whether a pop returned a task with the given payload. -/
def popReturned
    (result : Except IoError (Option (Record × UInt8)))
    (id : UInt64)
    (payload : Bytes) : Bool :=
  match result with
  | .ok (some (record, _)) =>
      record.id = id ∧ record.payload = payload
  | _ => false

theorem popReturned_iff
    {result : Except IoError (Option (Record × UInt8))}
    {id : UInt64}
    {payload : Bytes} :
    popReturned result id payload = true ↔
      ∃ record retries,
        result = .ok (some (record, retries)) ∧
          record.id = id ∧ record.payload = payload := by
  unfold popReturned
  split <;> simp_all

set_option maxRecDepth 100000 in
theorem lifeRun_loses_payload :
    ∃ ops service,
      Transition.Run Service.step
          (fun service op => op.Admissible service)
          (Service.start (some 40) 4 0) ops service ∧
        ¬ PayloadSurvival service := by
  have hEnd :
      (Transition.execute
        (Transition.checkedStep Service.step (fun service op =>
          op.Admissible service))
        nackedAfterCompaction
        (Service.start (some 40) 4 0)).any
          (fun service =>
            popReturned
                (service.engine.popAndLease none 1 30
                  100).1 1 [] ∧
              lastPayload service.history 1 =
                some [7, 8, 9]) = true := by
    decide +kernel
  rcases Transition.exists_run_of_checked
    (fun _ _ hOp => of_decide_eq_true hOp) hEnd with
    ⟨service, hRun, hLost⟩
  refine ⟨nackedAfterCompaction, service, hRun, ?_⟩
  intro hSurvives
  rw [decide_eq_true_eq] at hLost
  rcases popReturned_iff.mp hLost.1 with
    ⟨record, retries, hPop, hId, hEmpty⟩
  have hPayload := hSurvives 1 30 100 record retries hPop
  rw [hId, hEmpty, hLost.2] at hPayload
  simp at hPayload

end Nesso
