import Nesso.Library.PriorityList
import Nesso.Storage.PriorityQueue

/-
  The bucket queue answers as a plain priority list.

  Every sequence of `push`, `pop` and `clear` runs without a
  panic, with the replies of the list; the buckets are the
  lanes of the list and the bitmap marks the non-empty ones.

  Key definitions include:
    * `QueueCall`
    * `PriorityBucketQueue.runCalls`
    * `PriorityBucketQueue.Represents`

  The main theorem is:
    * `PriorityBucketQueue.runCalls_refines_list`
-/

------------------------------------------------------------
-- Sequences of Calls
------------------------------------------------------------

namespace Nesso

inductive QueueCall where
| push (task : TaskRef)
| pop
| clear

namespace PriorityBucketQueue

def isEmpty (queue : PriorityBucketQueue) : Bool :=
  queue.len == 0

def clear (_queue : PriorityBucketQueue) :
    PriorityBucketQueue where
  buckets := fun _ => []
  bitmap := fun _ => 0
  len := 0

/- The reply of a call is the popped task, if any. -/
def call
    (queue : PriorityBucketQueue) :
    QueueCall →
      Option (Option TaskRef × PriorityBucketQueue)
| .push task => some (none, queue.push task)
| .pop => queue.pop
| .clear => some (none, queue.clear)

/- The replies of a sequence of calls and the last state. -/
def runCalls
    (queue : PriorityBucketQueue) :
    List QueueCall →
      Option
        (List (Option TaskRef) × PriorityBucketQueue)
| [] => some ([], queue)
| call :: calls => do
    let (reply, next) ← queue.call call
    let (replies, last) ← next.runCalls calls
    return (reply :: replies, last)

end PriorityBucketQueue

/- The priority as a number. -/
def TaskRef.level (task : TaskRef) : Fin 256 :=
  ⟨task.priority.toNat, task.priority.toNat_lt⟩

namespace PriorityList

/- The same calls on a plain list. -/
def call
    (tasks : List TaskRef) :
    QueueCall → Option TaskRef × List TaskRef
| .push task => (none, push tasks task)
| .pop => pop TaskRef.level tasks
| .clear => (none, [])

def runCalls
    (tasks : List TaskRef) :
    List QueueCall →
      List (Option TaskRef) × List TaskRef
| [] => ([], tasks)
| first :: calls =>
    ((call tasks first).1 ::
        (runCalls (call tasks first).2 calls).1,
      (runCalls (call tasks first).2 calls).2)

end PriorityList

end Nesso

------------------------------------------------------------
-- Buckets Are Lanes
------------------------------------------------------------

namespace Nesso

namespace PriorityBucketQueue

/- The queue holds the tasks of the list, lane by lane. -/
structure Represents
    (queue : PriorityBucketQueue)
    (tasks : List TaskRef) : Prop where
  consistent : queue.Consistent
  bucket_eq :
    ∀ level,
      queue.buckets level =
        PriorityList.lane TaskRef.level tasks level
  len_eq : queue.len = tasks.length

theorem represents_clear
    (queue : PriorityBucketQueue) :
    queue.clear.Represents [] where
  consistent := consistent_new
  bucket_eq := fun _ => rfl
  len_eq := rfl

theorem Represents.push
    {queue : PriorityBucketQueue}
    {tasks : List TaskRef}
    (hQueue : queue.Represents tasks)
    (task : TaskRef) :
    (queue.push task).Represents
      (PriorityList.push tasks task) := by
  constructor
  · exact hQueue.consistent.push task
  · intro level
    rw [PriorityList.lane_push, ← hQueue.bucket_eq level]
    simp only [PriorityBucketQueue.push]
    by_cases hLevel : task.level = level
    · subst hLevel
      rw [if_pos rfl]
      exact Function.update_self _ _ _
    · rw [if_neg hLevel]
      exact Function.update_of_ne (Ne.symm hLevel) _ _
  · simp [PriorityBucketQueue.push, PriorityList.push,
      hQueue.len_eq]

/-
  The highest non-empty bucket is the highest non-empty lane,
  so the queue pops what the list pops.
-/
theorem Represents.pop
    {queue : PriorityBucketQueue}
    {tasks : List TaskRef}
    (hQueue : queue.Represents tasks) :
    ∃ next,
      queue.pop =
          some
            ((PriorityList.pop TaskRef.level tasks).1,
              next) ∧
        next.Represents
          (PriorityList.pop TaskRef.level tasks).2 := by
  rcases hQueue.consistent.pop_spec with
    ⟨hPop, hEmpty⟩ |
      ⟨level, task, rest, next, hPop, hBucket, hHigh,
        hBuckets, hNext⟩
  · have hLanes :
        ∀ level,
          PriorityList.lane TaskRef.level tasks level =
            [] := by
      intro level
      rw [← hQueue.bucket_eq level]
      exact hEmpty level
    have hTasks := PriorityList.eq_nil_of_lanes hLanes
    subst hTasks
    exact ⟨queue, hPop, hQueue⟩
  · have hLane :
        PriorityList.lane TaskRef.level tasks level =
          task :: rest := by
      rw [← hQueue.bucket_eq level]
      exact hBucket
    have hAbove :
        ∀ higher, level < higher →
          PriorityList.lane TaskRef.level tasks higher =
            [] := by
      intro higher hHigher
      rw [← hQueue.bucket_eq higher]
      exact hHigh _ hHigher
    rcases PriorityList.pop_of_highest_lane hLane hAbove with
      ⟨hFound, hLanes, hLength⟩
    refine ⟨next, ?_, hNext, ?_, ?_⟩
    · rw [hPop, hFound]
    · intro other
      rw [hLanes other, hBuckets]
      by_cases hOther : other = level
      · rw [hOther, if_pos rfl, Function.update_self]
      · rw [if_neg hOther, Function.update_of_ne hOther]
        exact hQueue.bucket_eq other
    · have hBefore := hQueue.len_eq
      have hPerm := tasks_update_perm hBucket
      have hShrink := hPerm.length_eq
      rw [List.length_cons] at hShrink
      have hQueueLen := hQueue.consistent.len_eq
      have hNextLen := hNext.len_eq
      have hNextTasks :
          next.tasks.length =
            ((List.finRange 256).flatMap
              (Function.update queue.buckets level
                rest)).length := by
        rw [PriorityBucketQueue.tasks, hBuckets]
      omega

theorem Represents.call
    {queue : PriorityBucketQueue}
    {tasks : List TaskRef}
    (hQueue : queue.Represents tasks)
    (call : QueueCall) :
    ∃ next,
      queue.call call =
          some ((PriorityList.call tasks call).1, next) ∧
        next.Represents (PriorityList.call tasks call).2 := by
  cases call with
  | push task => exact ⟨_, rfl, hQueue.push task⟩
  | pop => exact hQueue.pop
  | clear => exact ⟨_, rfl, represents_clear queue⟩

theorem Represents.runCalls
    {queue : PriorityBucketQueue}
    {tasks : List TaskRef}
    (hQueue : queue.Represents tasks)
    (calls : List QueueCall) :
    ∃ last,
      queue.runCalls calls =
          some ((PriorityList.runCalls tasks calls).1, last) ∧
        last.Represents
          (PriorityList.runCalls tasks calls).2 := by
  induction calls generalizing queue tasks with
  | nil => exact ⟨queue, rfl, hQueue⟩
  | cons call calls ih =>
      rcases hQueue.call call with ⟨next, hCall, hNext⟩
      rcases ih hNext with ⟨last, hCalls, hLast⟩
      refine ⟨last, ?_, hLast⟩
      simp [PriorityBucketQueue.runCalls, hCall, hCalls,
        PriorityList.runCalls]

/- Popping a task finds `len` positive. -/
theorem Represents.len_of_pop
    {queue next : PriorityBucketQueue}
    {tasks : List TaskRef}
    (hQueue : queue.Represents tasks)
    {task : TaskRef}
    (hPop : queue.pop = some (some task, next)) :
    next.len + 1 = queue.len := by
  rcases hQueue.pop with ⟨other, hOther, hNext⟩
  rw [hPop, Option.some.injEq, Prod.mk.injEq] at hOther
  rcases hOther with ⟨hTask, rfl⟩
  have hMem := List.mem_of_find?_eq_some hTask.symm
  have hTop := List.find?_some hTask.symm
  rw [hNext.len_eq, hQueue.len_eq]
  simp only [PriorityList.pop]
  rw [List.length_eraseP_of_mem hMem hTop]
  exact Nat.sub_add_cancel (List.length_pos_of_mem hMem)

end PriorityBucketQueue

end Nesso

------------------------------------------------------------
-- Refinement
------------------------------------------------------------

namespace Nesso

namespace PriorityBucketQueue

/-
  Whatever calls are made, no call panics, the replies are
  those of the list, `len` and `is_empty` measure the list,
  and bit `p` is set exactly over a non-empty bucket `p`.
-/
theorem runCalls_refines_list
    (calls : List QueueCall) :
    ∃ queue,
      new.runCalls calls =
          some ((PriorityList.runCalls [] calls).1, queue) ∧
        queue.len =
          (PriorityList.runCalls [] calls).2.length ∧
        (queue.isEmpty = true ↔
          (PriorityList.runCalls [] calls).2 = []) ∧
        (∀ p : Fin 256,
          (queue.bitmap (wordOf p)).getLsbD (p.val % 64) =
              true ↔
            queue.buckets p ≠ []) ∧
        queue.pop ≠ none ∧
        ∀ task next,
          queue.pop = some (some task, next) →
            next.len + 1 = queue.len := by
  rcases (represents_clear new).runCalls calls with
    ⟨queue, hRun, hQueue⟩
  refine ⟨queue, hRun, hQueue.len_eq, ?_,
    hQueue.consistent.bit_iff, ?_, ?_⟩
  · rw [isEmpty, beq_iff_eq, hQueue.len_eq,
      List.length_eq_zero_iff]
  · rcases hQueue.pop with ⟨next, hPop, _⟩
    simp [hPop]
  · intro task next hPop
    exact hQueue.len_of_pop hPop

example :
    (new.runCalls
        [.push ⟨1, 63, 0⟩, .push ⟨2, 64, 0⟩,
          .push ⟨1, 64, 0⟩, .pop, .pop, .pop, .pop]).map
        Prod.fst =
      some
        [none, none, none, some ⟨2, 64, 0⟩,
          some ⟨1, 64, 0⟩, some ⟨1, 63, 0⟩, none] := by
  decide +kernel

end PriorityBucketQueue

end Nesso
