import Mathlib

/-
  Threads in a list, one of which takes a step.

  The counting rules are stated as sums, so that linear
  arithmetic can use them.

  The main theorems are:
    * `Threads.countP_set_add`
    * `Threads.mem_set_cases`
-/

------------------------------------------------------------
-- Changing One Thread
------------------------------------------------------------

namespace Threads

variable {α : Type}
variable {threads : List α} {position : Nat} {old new : α}

/- How a count changes with one thread. -/
theorem countP_set_add
    (p : α → Bool)
    (hOld : threads[position]? = some old)
    (new : α) :
    (threads.set position new).countP p +
        (if p old then 1 else 0) =
      threads.countP p + (if p new then 1 else 0) := by
  induction threads generalizing position with
  | nil => simp at hOld
  | cons head threads ih =>
      cases position with
      | zero =>
          simp only [List.getElem?_cons_zero,
            Option.some.injEq] at hOld
          subst hOld
          simp only [List.set_cons_zero, List.countP_cons]
          omega
      | succ position =>
          simp only [List.getElem?_cons_succ] at hOld
          have hRest := ih hOld
          simp only [List.set_cons_succ, List.countP_cons]
          omega

/- How a sum changes with one thread. -/
theorem sum_map_set_add
    (f : α → Nat)
    (hOld : threads[position]? = some old)
    (new : α) :
    ((threads.set position new).map f).sum + f old =
      (threads.map f).sum + f new := by
  induction threads generalizing position with
  | nil => simp at hOld
  | cons head threads ih =>
      cases position with
      | zero =>
          simp only [List.getElem?_cons_zero,
            Option.some.injEq] at hOld
          subst hOld
          simp only [List.set_cons_zero, List.map_cons,
            List.sum_cons]
          omega
      | succ position =>
          simp only [List.getElem?_cons_succ] at hOld
          have hRest := ih hOld
          simp only [List.set_cons_succ, List.map_cons,
            List.sum_cons]
          omega

/- A thread after the step is the new one or an old one. -/
theorem mem_set_cases
    {thread : α}
    (hMem : thread ∈ threads.set position new) :
    thread = new ∨ thread ∈ threads := by
  rcases List.mem_or_eq_of_mem_set hMem with hOld | hNew
  · exact .inr hOld
  · exact .inl hNew

/- The same, for threads that are known by their position. -/
theorem getElem?_set_cases
    {other : Nat}
    {thread : α}
    (hThread :
      (threads.set position new)[other]? = some thread) :
    other = position ∧ thread = new ∨
      other ≠ position ∧ threads[other]? = some thread := by
  rw [List.getElem?_set] at hThread
  split at hThread
  · next hEq =>
      split at hThread
      · rw [Option.some.injEq] at hThread
        exact .inl ⟨hEq.symm, hThread.symm⟩
      · simp at hThread
  · next hNe => exact .inr ⟨Ne.symm hNe, hThread⟩

/- Every thread is still there, but the one that stepped. -/
theorem getElem?_set_of_ne
    {other : Nat}
    {thread : α}
    (hNe : other ≠ position)
    (hThread : threads[other]? = some thread)
    (new : α) :
    (threads.set position new)[other]? = some thread := by
  rw [List.getElem?_set_ne (Ne.symm hNe)]
  exact hThread

end Threads
