import Mathlib

/-
  Priority queues as plain lists.

  Tasks wait in the order in which they were pushed; the
  first one of the greatest priority leaves.  The lanes of
  the list are what a queue of FIFO buckets keeps.

  Key definitions include:
    * `PriorityList.pop`
    * `PriorityList.lane`

  The main lemmas are:
    * `PriorityList.lane_push`
    * `PriorityList.pop_of_highest_lane`
-/

------------------------------------------------------------
-- Priority Lists
------------------------------------------------------------

namespace Nesso

namespace PriorityList

variable {Task Priority : Type}
variable [LinearOrder Priority]
variable (priority : Task → Priority)

/- No waiting task has a greater priority. -/
def isTop
    (tasks : List Task)
    (task : Task) : Bool :=
  tasks.all (fun other =>
    decide (priority other ≤ priority task))

def push
    (tasks : List Task)
    (task : Task) : List Task :=
  tasks ++ [task]

/- The first of the top tasks leaves the list. -/
def pop
    (tasks : List Task) : Option Task × List Task :=
  (tasks.find? (isTop priority tasks),
    tasks.eraseP (isTop priority tasks))

/- The waiting tasks of one priority. -/
def lane
    (tasks : List Task)
    (level : Priority) : List Task :=
  tasks.filter (fun task => decide (priority task = level))

variable {priority}

theorem mem_lane_iff
    {tasks : List Task}
    {level : Priority}
    {task : Task} :
    task ∈ lane priority tasks level ↔
      task ∈ tasks ∧ priority task = level := by
  simp [lane]

theorem lane_push
    (tasks : List Task)
    (task : Task)
    (level : Priority) :
    lane priority (push tasks task) level =
      if priority task = level then
        lane priority tasks level ++ [task]
      else lane priority tasks level := by
  by_cases hLevel : priority task = level
  · simp [lane, push, List.filter_append, hLevel]
  · simp [lane, push, List.filter_append, hLevel]

theorem eq_nil_of_lanes
    {tasks : List Task}
    (hLanes : ∀ level, lane priority tasks level = []) :
    tasks = [] := by
  apply List.eq_nil_iff_forall_not_mem.mpr
  intro task hTask
  have hLane :
      task ∈ lane priority tasks (priority task) :=
    mem_lane_iff.mpr ⟨hTask, rfl⟩
  simp [hLanes] at hLane

/-
  The highest lane splits the list at the task that leaves.
-/
theorem split_of_highest_lane
    {tasks : List Task}
    {level : Priority}
    {task : Task}
    {rest : List Task}
    (hLane : lane priority tasks level = task :: rest)
    (hAbove :
      ∀ higher, level < higher →
        lane priority tasks higher = []) :
    ∃ front back,
      tasks = front ++ task :: back ∧
        priority task = level ∧
        rest = lane priority back level ∧
        (∀ other ∈ front, priority other ≠ level) ∧
        isTop priority tasks task = true ∧
        ∀ other ∈ front,
          isTop priority tasks other = false := by
  rcases List.filter_eq_cons_iff.mp hLane with
    ⟨front, back, hTasks, hFront, hTask, hRest⟩
  have hLevel : priority task = level := by simpa using hTask
  have hFrontNe :
      ∀ other ∈ front, priority other ≠ level := by
    intro other hOther
    simpa using hFront other hOther
  have hMax : ∀ other ∈ tasks, priority other ≤ level := by
    intro other hOther
    by_contra hGreater
    have hMem :
        other ∈ lane priority tasks (priority other) :=
      mem_lane_iff.mpr ⟨hOther, rfl⟩
    simp [hAbove _ (lt_of_not_ge hGreater)] at hMem
  refine ⟨front, back, hTasks, hLevel, hRest.symm,
    hFrontNe, ?_, ?_⟩
  · rw [isTop, List.all_eq_true]
    intro other hOther
    rw [decide_eq_true_eq, hLevel]
    exact hMax other hOther
  · intro other hOther
    have hMem : task ∈ tasks := by simp [hTasks]
    have hLt : priority other < level :=
      lt_of_le_of_ne
        (hMax other (by simp [hTasks, hOther]))
        (hFrontNe other hOther)
    rw [isTop, List.all_eq_false]
    refine ⟨task, hMem, ?_⟩
    rw [decide_eq_true_eq, hLevel, not_le]
    exact hLt

/- Popping takes the head of the highest lane. -/
theorem pop_of_highest_lane
    {tasks : List Task}
    {level : Priority}
    {task : Task}
    {rest : List Task}
    (hLane : lane priority tasks level = task :: rest)
    (hAbove :
      ∀ higher, level < higher →
        lane priority tasks higher = []) :
    (pop priority tasks).1 = some task ∧
      (∀ other,
        lane priority (pop priority tasks).2 other =
          if other = level then rest
          else lane priority tasks other) ∧
      (pop priority tasks).2.length + 1 = tasks.length := by
  rcases split_of_highest_lane hLane hAbove with
    ⟨front, back, hTasks, hLevel, hRest, hFront, hTop,
      hNotTop⟩
  have hFind :
      tasks.find? (isTop priority tasks) = some task := by
    have hAppend :
        (front ++ task :: back).find?
            (isTop priority tasks) =
          some task := by
      rw [List.find?_append,
        List.find?_eq_none.mpr
          (fun other hOther => by
            simp [hNotTop other hOther]),
        List.find?_cons_of_pos hTop]
      rfl
    rwa [← hTasks] at hAppend
  have hErase :
      tasks.eraseP (isTop priority tasks) =
        front ++ back := by
    have hAppend :
        (front ++ task :: back).eraseP
            (isTop priority tasks) =
          front ++ back := by
      rw [List.eraseP_append_right _
        (fun other hOther => by simp [hNotTop other hOther]),
        List.eraseP_cons_of_pos hTop]
    rwa [← hTasks] at hAppend
  simp only [pop, hFind, hErase, true_and]
  constructor
  · intro other
    by_cases hOther : other = level
    · subst hOther
      have hNone :
          front.filter
              (fun task => decide (priority task = other)) =
            [] := by
        simpa [List.filter_eq_nil_iff] using hFront
      rw [if_pos rfl, hRest, lane, List.filter_append, hNone]
      rfl
    · have hNe : ¬ priority task = other := by
        rw [hLevel]
        exact Ne.symm hOther
      rw [if_neg hOther, hTasks]
      simp [lane, List.filter_append, hNe]
  · simp [hTasks]
    omega

end PriorityList

end Nesso
