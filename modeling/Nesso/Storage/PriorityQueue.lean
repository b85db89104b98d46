import Mathlib

/-
  The ready queue (`storage/priority_queue.rs`): 256 FIFO
  buckets under a bitmap of four 64-bit words.

  `PriorityBucketQueue` follows the source, with the panic of
  `pop` explicit.  `ReadyQueue` carries the agreement of the
  bitmap with the buckets, so that its `pop` cannot panic.

  Key definitions include:
    * `TaskRef`
    * `PriorityBucketQueue.push`
    * `PriorityBucketQueue.pop`
    * `PriorityBucketQueue.Consistent`
    * `ReadyQueue`
    * `ReadyQueue.tasks`

  The queue theorems are:
    * `PriorityBucketQueue.Consistent.push`
    * `PriorityBucketQueue.Consistent.pop_spec`
    * `ReadyQueue.pop_eq_some`
    * `ReadyQueue.tasks_push_perm`
    * `ReadyQueue.tasks_pop_perm`
-/

------------------------------------------------------------
-- Buckets and Bitmap
------------------------------------------------------------

namespace Nesso

structure TaskRef where
  id : UInt64
  priority : UInt8
  retries : UInt8
deriving DecidableEq, Repr

/- `NUM_PRIORITIES` buckets and the bitmap over them. -/
structure PriorityBucketQueue where
  buckets : Fin 256 → List TaskRef
  bitmap : Fin 4 → BitVec 64
  len : Nat

namespace PriorityBucketQueue

def new : PriorityBucketQueue where
  buckets := fun _ => []
  bitmap := fun _ => 0
  len := 0

/- The bucket of a priority. -/
def bucketOf (priority : UInt8) : Fin 256 :=
  ⟨priority.toNat, priority.toNat_lt⟩

/- The bitmap word of a bucket. -/
def wordOf (p : Fin 256) : Fin 4 :=
  ⟨p / 64, by omega⟩

def push
    (queue : PriorityBucketQueue)
    (task : TaskRef) : PriorityBucketQueue :=
  let p := bucketOf task.priority
  { buckets :=
      Function.update queue.buckets p
        (queue.buckets p ++ [task])
    bitmap :=
      Function.update queue.bitmap (wordOf p)
        (queue.bitmap (wordOf p) |||
          1#64 <<< (p.val % 64))
    len := queue.len + 1 }

/- The bucket of the highest bit set in a bitmap word. -/
def highestBucket
    (queue : PriorityBucketQueue)
    (word : Fin 4) : Fin 256 :=
  ⟨word * 64 + (63 - (queue.bitmap word).clz.toNat),
    by omega⟩

/-
  `none` is the panic of `expect`: a bit is set over an empty
  bucket.
-/
def pop
    (queue : PriorityBucketQueue) :
    Option (Option TaskRef × PriorityBucketQueue) :=
  match ([3, 2, 1, 0] : List (Fin 4)).find?
      (fun word => queue.bitmap word ≠ 0) with
  | none => some (none, queue)
  | some word =>
      let p := queue.highestBucket word
      match queue.buckets p with
      | [] => none
      | task :: rest =>
          some
            (some task,
              { buckets :=
                  Function.update queue.buckets p rest
                bitmap :=
                  if rest = [] then
                    Function.update queue.bitmap word
                      (queue.bitmap word &&&
                        ~~~(1#64 <<< (p.val % 64)))
                  else
                    queue.bitmap
                len := queue.len - 1 })

/- All queued tasks, bucket by bucket. -/
def tasks (queue : PriorityBucketQueue) : List TaskRef :=
  (List.finRange 256).flatMap queue.buckets

/-
  The bitmap marks exactly the non-empty buckets, every task
  sits in the bucket of its priority, and `len` counts them.
-/
structure Consistent (queue : PriorityBucketQueue) :
    Prop where
  bit_iff :
    ∀ p : Fin 256,
      (queue.bitmap (wordOf p)).getLsbD (p.val % 64) =
          true ↔
        queue.buckets p ≠ []
  bucket_priority :
    ∀ p, ∀ task ∈ queue.buckets p,
      bucketOf task.priority = p
  len_eq : queue.len = queue.tasks.length

end PriorityBucketQueue

end Nesso

------------------------------------------------------------
-- Bitmap Words
------------------------------------------------------------

namespace Nesso

namespace PriorityBucketQueue

/- A shifted one has a single bit. -/
theorem getLsbD_one_shiftLeft
    {bit : Nat}
    (hBit : bit < 64)
    (other : Nat) :
    (1#64 <<< bit).getLsbD other =
      decide (other = bit) := by
  rw [BitVec.getLsbD_shiftLeft, BitVec.getLsbD_one]
  by_cases hEq : other = bit
  · simp [hEq, hBit]
  · by_cases hLt : other < bit
    · simp [hLt, hEq]
    · have hSub : other - bit ≠ 0 := by omega
      simp [hSub, hEq]

/- The highest bucket of a non-zero word has its bit set. -/
theorem getLsbD_highestBucket
    {queue : PriorityBucketQueue}
    {word : Fin 4}
    (hWord : queue.bitmap word ≠ 0) :
    (queue.bitmap word).getLsbD
        ((queue.highestBucket word).val % 64) = true := by
  have hBit :
      (queue.highestBucket word).val % 64 =
        63 - (queue.bitmap word).clz.toNat := by
    simp only [highestBucket]
    omega
  rw [hBit]
  exact BitVec.getLsbD_true_clz_of_ne_zero
    (by decide) hWord

/- No bit above the highest bucket of a word is set. -/
theorem getLsbD_above_highestBucket
    {queue : PriorityBucketQueue}
    {word : Fin 4}
    (hWord : queue.bitmap word ≠ 0)
    {bit : Nat}
    (hAbove : (queue.highestBucket word).val % 64 < bit) :
    (queue.bitmap word).getLsbD bit = false := by
  have hClz : (queue.bitmap word).clz.toNat < 64 := by
    have hLt :=
      BitVec.clz_lt_iff_ne_zero.mpr hWord
    rw [BitVec.lt_def] at hLt
    simpa using hLt
  have hLt :=
    BitVec.toNat_lt_two_pow_sub_clz
      (x := queue.bitmap word)
  have hBit :
      64 - (queue.bitmap word).clz.toNat ≤ bit := by
    simp only [highestBucket] at hAbove
    omega
  rw [← BitVec.testBit_toNat]
  exact Nat.testBit_lt_two_pow
    (lt_of_lt_of_le hLt
      (Nat.pow_le_pow_right (by decide) hBit))

theorem wordOf_highestBucket
    (queue : PriorityBucketQueue)
    (word : Fin 4) :
    wordOf (queue.highestBucket word) = word := by
  apply Fin.ext
  simp only [wordOf, highestBucket]
  omega

/- A bucket is its word and its bit. -/
theorem eq_of_word_of_bit
    {left right : Fin 256}
    (hWord : wordOf left = wordOf right)
    (hBit : left.val % 64 = right.val % 64) :
    left = right := by
  have hDiv := congrArg Fin.val hWord
  simp only [wordOf] at hDiv
  apply Fin.ext
  omega

end PriorityBucketQueue

end Nesso

------------------------------------------------------------
-- Queued Tasks
------------------------------------------------------------

namespace Nesso

namespace PriorityBucketQueue

theorem mem_tasks_iff
    {queue : PriorityBucketQueue}
    {task : TaskRef} :
    task ∈ queue.tasks ↔
      ∃ p, task ∈ queue.buckets p := by
  simp [tasks]

/- Replacing one bucket permutes the tasks accordingly. -/
theorem flatMap_update_perm
    (buckets : Fin 256 → List TaskRef)
    (p : Fin 256)
    {task : TaskRef}
    {large small : List TaskRef}
    (hPerm : large.Perm (task :: small))
    (order : List (Fin 256))
    (hNodup : order.Nodup) :
    (p ∈ order →
      (order.flatMap
        (Function.update buckets p large)).Perm
          (task ::
            order.flatMap
              (Function.update buckets p small))) ∧
      (p ∉ order →
        order.flatMap (Function.update buckets p large) =
          order.flatMap
            (Function.update buckets p small)) := by
  induction order with
  | nil => simp
  | cons head order ih =>
      rw [List.nodup_cons] at hNodup
      rcases ih hNodup.2 with ⟨ihMem, ihNot⟩
      simp only [List.flatMap_cons, List.mem_cons]
      by_cases hHead : head = p
      · subst hHead
        constructor
        · intro _
          rw [ihNot hNodup.1, Function.update_self,
            Function.update_self]
          exact hPerm.append_right _
        · intro hNot
          exact (hNot (.inl rfl)).elim
      · rw [Function.update_of_ne hHead,
          Function.update_of_ne hHead]
        constructor
        · intro hMem
          have hTail : p ∈ order := by
            rcases hMem with hEq | hTail
            · exact (hHead hEq.symm).elim
            · exact hTail
          exact
            ((ihMem hTail).append_left _).trans
              List.perm_middle
        · intro hNot
          rw [ihNot (fun hTail => hNot (.inr hTail))]

theorem tasks_push_perm
    (queue : PriorityBucketQueue)
    (task : TaskRef) :
    (queue.push task).tasks.Perm (task :: queue.tasks) := by
  have hPerm :=
    (flatMap_update_perm queue.buckets
      (bucketOf task.priority)
      (List.perm_append_singleton task
        (queue.buckets (bucketOf task.priority)))
      (List.finRange 256) (List.nodup_finRange 256)).1
        (List.mem_finRange _)
  rw [Function.update_eq_self] at hPerm
  exact hPerm

/- Removing the head of a bucket removes one task. -/
theorem tasks_update_perm
    {queue : PriorityBucketQueue}
    {p : Fin 256}
    {task : TaskRef}
    {rest : List TaskRef}
    (hBucket : queue.buckets p = task :: rest) :
    queue.tasks.Perm
      (task ::
        (List.finRange 256).flatMap
          (Function.update queue.buckets p rest)) := by
  have hPerm :=
    (flatMap_update_perm queue.buckets p
      (List.Perm.refl (task :: rest))
      (List.finRange 256) (List.nodup_finRange 256)).1
        (List.mem_finRange _)
  rw [← hBucket, Function.update_eq_self] at hPerm
  exact hPerm

end PriorityBucketQueue

end Nesso

------------------------------------------------------------
-- Consistency
------------------------------------------------------------

namespace Nesso

namespace PriorityBucketQueue

theorem consistent_new : Consistent new := by
  constructor
  · intro p
    simp [new]
  · intro p task hTask
    simp [new] at hTask
  · have hTasks : new.tasks = [] := by
      simp [tasks, new]
    rw [hTasks]
    rfl

/- Pushing sets the bit of the bucket it extends. -/
theorem Consistent.push
    {queue : PriorityBucketQueue}
    (hQueue : queue.Consistent)
    (task : TaskRef) :
    (queue.push task).Consistent := by
  constructor
  · intro p
    by_cases hBucket : p = bucketOf task.priority
    · subst hBucket
      simp [PriorityBucketQueue.push,
        getLsbD_one_shiftLeft (Nat.mod_lt _ (by decide))]
    · simp only [PriorityBucketQueue.push,
        Function.update_of_ne hBucket]
      rw [← hQueue.bit_iff p]
      by_cases hWord :
          wordOf p = wordOf (bucketOf task.priority)
      · have hBit :
            ¬ p.val % 64 =
              (bucketOf task.priority).val % 64 := by
          intro hEq
          exact hBucket (eq_of_word_of_bit hWord hEq)
        rw [hWord, Function.update_self,
          BitVec.getLsbD_or,
          getLsbD_one_shiftLeft (Nat.mod_lt _ (by decide))]
        simp [hBit]
      · rw [Function.update_of_ne hWord]
  · intro p other hOther
    simp only [PriorityBucketQueue.push] at hOther
    by_cases hBucket : p = bucketOf task.priority
    · subst hBucket
      rw [Function.update_self, List.mem_append,
        List.mem_singleton] at hOther
      rcases hOther with hOther | rfl
      · exact hQueue.bucket_priority _ _ hOther
      · rfl
    · rw [Function.update_of_ne hBucket] at hOther
      exact hQueue.bucket_priority _ _ hOther
  · have hLength := (tasks_push_perm queue task).length_eq
    rw [hLength, List.length_cons, ← hQueue.len_eq]
    rfl

/- Popping a bucket clears its bit when it empties. -/
theorem Consistent.pop_bucket
    {queue : PriorityBucketQueue}
    (hQueue : queue.Consistent)
    {p : Fin 256}
    {task : TaskRef}
    {rest : List TaskRef}
    (hBucket : queue.buckets p = task :: rest) :
    Consistent
      { buckets := Function.update queue.buckets p rest
        bitmap :=
          if rest = [] then
            Function.update queue.bitmap (wordOf p)
              (queue.bitmap (wordOf p) &&&
                ~~~(1#64 <<< (p.val % 64)))
          else
            queue.bitmap
        len := queue.len - 1 } := by
  constructor
  · intro other
    by_cases hOther : other = p
    · subst hOther
      by_cases hRest : rest = []
      · simp [hRest,
          getLsbD_one_shiftLeft (Nat.mod_lt _ (by decide))]
      · simp only [if_neg hRest, Function.update_self]
        rw [hQueue.bit_iff other, hBucket]
        simp [hRest]
    · simp only [Function.update_of_ne hOther]
      rw [← hQueue.bit_iff other]
      by_cases hRest : rest = []
      · rw [if_pos hRest]
        by_cases hWord : wordOf other = wordOf p
        · have hBit :
              ¬ other.val % 64 = p.val % 64 := by
            intro hEq
            exact hOther (eq_of_word_of_bit hWord hEq)
          rw [hWord, Function.update_self,
            BitVec.getLsbD_and, BitVec.getLsbD_not,
            getLsbD_one_shiftLeft
              (Nat.mod_lt _ (by decide))]
          have hLt : other.val % 64 < 64 :=
            Nat.mod_lt _ (by decide)
          simp [hBit, hLt]
        · rw [Function.update_of_ne hWord]
      · rw [if_neg hRest]
  · intro other item hItem
    by_cases hOther : other = p
    · subst hOther
      simp only [Function.update_self] at hItem
      apply hQueue.bucket_priority
      rw [hBucket]
      exact List.mem_cons_of_mem _ hItem
    · simp only [Function.update_of_ne hOther] at hItem
      exact hQueue.bucket_priority _ _ hItem
  · have hLength := (tasks_update_perm hBucket).length_eq
    rw [List.length_cons, ← hQueue.len_eq] at hLength
    simp only [tasks]
    omega

/-
  `pop` never panics: it either finds every bucket empty, or
  takes the head of the highest non-empty bucket.
-/
theorem Consistent.pop_spec
    {queue : PriorityBucketQueue}
    (hQueue : queue.Consistent) :
    (queue.pop = some (none, queue) ∧
        ∀ p, queue.buckets p = []) ∨
      ∃ p task rest next,
        queue.pop = some (some task, next) ∧
          queue.buckets p = task :: rest ∧
          (∀ q, p < q → queue.buckets q = []) ∧
          next.buckets =
            Function.update queue.buckets p rest ∧
          next.Consistent := by
  have hEmpty :
      ∀ word : Fin 4, queue.bitmap word = 0 →
        ∀ p, wordOf p = word → queue.buckets p = [] := by
    intro word hWord p hP
    by_contra hBucket
    have hBit := (hQueue.bit_iff p).mpr hBucket
    rw [hP, hWord] at hBit
    simp at hBit
  unfold pop
  cases hFind :
      ([3, 2, 1, 0] : List (Fin 4)).find?
        (fun word => queue.bitmap word ≠ 0) with
  | none =>
      left
      refine ⟨rfl, ?_⟩
      intro p
      have hZero := List.find?_eq_none.mp hFind
      have hMem :
          wordOf p ∈ ([3, 2, 1, 0] : List (Fin 4)) := by
        generalize wordOf p = word
        revert word
        decide
      have hWord : queue.bitmap (wordOf p) = 0 := by
        simpa using hZero (wordOf p) hMem
      exact hEmpty _ hWord p rfl
  | some word =>
      right
      have hWord : queue.bitmap word ≠ 0 := by
        simpa using List.find?_some hFind
      -- Words above the chosen one were skipped as zero.
      have hAbove :
          ∀ higher : Fin 4, word < higher →
            queue.bitmap higher = 0 := by
        intro higher hHigher
        revert hFind hHigher
        by_cases h3 : queue.bitmap 3 = 0 <;>
        by_cases h2 : queue.bitmap 2 = 0 <;>
        by_cases h1 : queue.bitmap 1 = 0 <;>
        by_cases h0 : queue.bitmap 0 = 0 <;>
        simp only [List.find?_cons, List.find?_nil, h3, h2,
          h1, h0, ne_eq, not_true_eq_false, decide_false,
          not_false_eq_true, decide_true,
          Option.some.injEq, reduceCtorEq,
          false_implies] <;>
        rintro rfl <;>
        fin_cases higher <;> simp_all
      have hBit :=
        getLsbD_highestBucket hWord
      have hBucketNe :
          queue.buckets (queue.highestBucket word) ≠ [] := by
        apply (hQueue.bit_iff _).mp
        rw [wordOf_highestBucket]
        exact hBit
      rcases List.exists_cons_of_ne_nil hBucketNe with
        ⟨task, rest, hBucket⟩
      have hNext := hQueue.pop_bucket hBucket
      rw [wordOf_highestBucket] at hNext
      simp only [hBucket]
      refine
        ⟨queue.highestBucket word, task, rest, _, rfl,
          hBucket, ?_, rfl, hNext⟩
      intro q hQ
      by_cases hSame : wordOf q = word
      · by_contra hNonempty
        have hQBit := (hQueue.bit_iff q).mpr hNonempty
        rw [hSame, getLsbD_above_highestBucket hWord]
          at hQBit
        · simp at hQBit
        · have hDiv := congrArg Fin.val hSame
          have hHigh :=
            congrArg Fin.val
              (wordOf_highestBucket queue word)
          have hLt : (queue.highestBucket word).val < q.val :=
            hQ
          simp only [wordOf] at hDiv hHigh
          omega
      · apply hEmpty _ _ q rfl
        apply hAbove
        have hHigh :=
          congrArg Fin.val (wordOf_highestBucket queue word)
        have hLt : (queue.highestBucket word).val < q.val :=
          hQ
        have hNe : (wordOf q).val ≠ word.val := by
          intro hEq
          exact hSame (Fin.ext hEq)
        rw [Fin.lt_def]
        simp only [wordOf] at hHigh hNe ⊢
        omega

end PriorityBucketQueue

end Nesso

------------------------------------------------------------
-- Ready Queue
------------------------------------------------------------

namespace Nesso

/- A bucket queue whose bitmap agrees with its buckets. -/
structure ReadyQueue where
  queue : PriorityBucketQueue
  consistent : queue.Consistent

namespace ReadyQueue

open PriorityBucketQueue

def new : ReadyQueue :=
  ⟨PriorityBucketQueue.new, consistent_new⟩

def push
    (ready : ReadyQueue)
    (task : TaskRef) : ReadyQueue :=
  ⟨ready.queue.push task, ready.consistent.push task⟩

theorem consistent_of_pop
    {queue next : PriorityBucketQueue}
    {task : TaskRef}
    (hQueue : queue.Consistent)
    (hPop : queue.pop = some (some task, next)) :
    next.Consistent := by
  rcases hQueue.pop_spec with
    ⟨hNone, _⟩ | ⟨p, found, rest, after, hSome, _, _, _, hAfter⟩
  · simp [hNone] at hPop
  · rw [hSome] at hPop
    simp only [Option.some.injEq, Prod.mk.injEq] at hPop
    rw [← hPop.2]
    exact hAfter

/- `pop` of the source; its panic is unreachable here. -/
def pop
    (ready : ReadyQueue) : Option (TaskRef × ReadyQueue) :=
  match hPop : ready.queue.pop with
  | some (some task, next) =>
      some
        (task,
          ⟨next, consistent_of_pop ready.consistent hPop⟩)
  | some (none, _) => none
  | none => none

def len (ready : ReadyQueue) : Nat :=
  ready.queue.len

/- The FIFO bucket of one priority. -/
def bucket
    (ready : ReadyQueue)
    (priority : UInt8) : List TaskRef :=
  ready.queue.buckets (bucketOf priority)

/- All ready tasks. -/
def tasks (ready : ReadyQueue) : List TaskRef :=
  ready.queue.tasks

theorem bucketOf_injective :
    Function.Injective bucketOf := by
  intro left right hEq
  have hVal := congrArg Fin.val hEq
  exact UInt8.toNat_inj.mp hVal

theorem len_eq
    (ready : ReadyQueue) :
    ready.len = ready.tasks.length :=
  ready.consistent.len_eq

/- A ready task is found in the bucket of its priority. -/
theorem mem_tasks_iff
    {ready : ReadyQueue}
    {task : TaskRef} :
    task ∈ ready.tasks ↔
      task ∈ ready.bucket task.priority := by
  rw [tasks, PriorityBucketQueue.mem_tasks_iff, bucket]
  constructor
  · rintro ⟨p, hTask⟩
    rw [ready.consistent.bucket_priority p task hTask]
    exact hTask
  · intro hTask
    exact ⟨_, hTask⟩

/- Every task of a bucket has the priority of the bucket. -/
theorem priority_of_mem_bucket
    {ready : ReadyQueue}
    {priority : UInt8}
    {task : TaskRef}
    (hTask : task ∈ ready.bucket priority) :
    task.priority = priority :=
  bucketOf_injective
    (ready.consistent.bucket_priority _ _ hTask)

/-
  Ids are distinct in the whole queue when they are in every
  bucket and fix the priority.
-/
theorem tasks_ids_nodup
    {ready : ReadyQueue}
    (hBucket :
      ∀ priority,
        ((ready.bucket priority).map TaskRef.id).Nodup)
    (hPriority :
      ∀ left ∈ ready.tasks, ∀ right ∈ ready.tasks,
        left.id = right.id →
          left.priority = right.priority) :
    (ready.tasks.map TaskRef.id).Nodup := by
  have hSurjective :
      ∀ p : Fin 256, ∃ priority, bucketOf priority = p := by
    intro p
    refine ⟨UInt8.ofNat p.val, Fin.ext ?_⟩
    simp [bucketOf]
  rw [tasks, PriorityBucketQueue.tasks, List.map_flatMap,
    List.nodup_flatMap]
  refine ⟨?_, ?_⟩
  · intro p _
    rcases hSurjective p with ⟨priority, rfl⟩
    exact hBucket priority
  · refine (List.nodup_finRange 256).imp ?_
    intro left right hNe
    rw [Function.onFun, List.disjoint_left]
    intro id hLeft hRight
    rcases List.mem_map.mp hLeft with ⟨task, hTask, rfl⟩
    rcases List.mem_map.mp hRight with
      ⟨other, hOther, hId⟩
    have hSame :=
      hPriority task
        (PriorityBucketQueue.mem_tasks_iff.mpr ⟨_, hTask⟩)
        other
        (PriorityBucketQueue.mem_tasks_iff.mpr ⟨_, hOther⟩)
        hId.symm
    apply hNe
    rw [← ready.consistent.bucket_priority _ _ hTask,
      ← ready.consistent.bucket_priority _ _ hOther, hSame]

@[simp] theorem bucket_new
    (priority : UInt8) :
    new.bucket priority = [] := rfl

@[simp] theorem tasks_new : new.tasks = [] := by
  simp [tasks, new, PriorityBucketQueue.tasks,
    PriorityBucketQueue.new]

/- Pushing extends the bucket of the task's priority. -/
theorem bucket_push
    (ready : ReadyQueue)
    (task : TaskRef)
    (priority : UInt8) :
    (ready.push task).bucket priority =
      if task.priority = priority then
        ready.bucket priority ++ [task]
      else ready.bucket priority := by
  unfold bucket push PriorityBucketQueue.push
  by_cases hPriority : task.priority = priority
  · simp [hPriority]
  · have hNe :
        bucketOf priority ≠ bucketOf task.priority :=
      fun hEq => hPriority (bucketOf_injective hEq).symm
    simp [hPriority, Function.update_of_ne hNe]

theorem tasks_push_perm
    (ready : ReadyQueue)
    (task : TaskRef) :
    (ready.push task).tasks.Perm (task :: ready.tasks) :=
  PriorityBucketQueue.tasks_push_perm ready.queue task

/- Popping fails only when nothing is ready. -/
theorem tasks_eq_nil_of_pop
    {ready : ReadyQueue}
    (hPop : ready.pop = none) :
    ready.tasks = [] := by
  rcases ready.consistent.pop_spec with
    ⟨_, hEmpty⟩ | ⟨p, task, rest, next, hSome, _⟩
  · simp [tasks, PriorityBucketQueue.tasks, hEmpty]
  · unfold pop at hPop
    split at hPop
    · simp at hPop
    · next hNone =>
        rw [hSome] at hNone
        simp at hNone
    · next hNone =>
        rw [hSome] at hNone
        simp at hNone

/-
  Popping takes the head of the highest non-empty bucket and
  leaves the other buckets alone.
-/
theorem pop_eq_some
    {ready next : ReadyQueue}
    {task : TaskRef}
    (hPop : ready.pop = some (task, next)) :
    ready.bucket task.priority =
        task :: next.bucket task.priority ∧
      (∀ priority, priority ≠ task.priority →
        next.bucket priority = ready.bucket priority) ∧
      (∀ priority, task.priority < priority →
        ready.bucket priority = []) := by
  unfold pop at hPop
  split at hPop
  · next found after hFound =>
      simp only [Option.some.injEq, Prod.mk.injEq] at hPop
      rcases hPop with ⟨rfl, rfl⟩
      rcases ready.consistent.pop_spec with
        ⟨hNone, _⟩ |
          ⟨p, other, rest, last, hSome, hBucket, hHigh,
            hBuckets, _⟩
      · simp [hNone] at hFound
      · rw [hSome] at hFound
        simp only [Option.some.injEq, Prod.mk.injEq]
          at hFound
        rcases hFound with ⟨rfl, rfl⟩
        have hP : bucketOf other.priority = p :=
          ready.consistent.bucket_priority p other
            (by simp [hBucket])
        subst hP
        refine ⟨?_, ?_, ?_⟩
        · simp [bucket, hBucket, hBuckets]
        · intro priority hNe
          have hOther :
              bucketOf priority ≠
                bucketOf other.priority :=
            fun hEq => hNe (bucketOf_injective hEq)
          simp [bucket, hBuckets,
            Function.update_of_ne hOther]
        · intro priority hLt
          exact hHigh _ hLt
  · simp at hPop
  · simp at hPop

/- Popping removes exactly the task it returns. -/
theorem tasks_pop_perm
    {ready next : ReadyQueue}
    {task : TaskRef}
    (hPop : ready.pop = some (task, next)) :
    ready.tasks.Perm (task :: next.tasks) := by
  rcases pop_eq_some hPop with ⟨hBucket, hOthers, _⟩
  have hPerm := tasks_update_perm hBucket
  have hNext :
      Function.update ready.queue.buckets
          (bucketOf task.priority)
          (next.bucket task.priority) =
        next.queue.buckets := by
    funext p
    by_cases hP : p = bucketOf task.priority
    · subst hP
      rw [Function.update_self]
      rfl
    · rw [Function.update_of_ne hP]
      have hOf : bucketOf (UInt8.ofNat p.val) = p := by
        apply Fin.ext
        simp [bucketOf]
      have hBucketP := hOthers (UInt8.ofNat p.val) (by
        rintro hEq
        exact hP (by rw [← hEq, hOf]))
      unfold bucket at hBucketP
      rw [hOf] at hBucketP
      exact hBucketP.symm
  rw [hNext] at hPerm
  exact hPerm

end ReadyQueue

end Nesso
