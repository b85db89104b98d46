import Mathlib

/-
  Directories as resolved paths.

  A directory is the list of names that leads to it from the
  root.  Walking along a path skips empty and `.` components
  and leaves a directory at `..`, as on a file system without
  symbolic links.

  Key definitions include:
    * `Paths.join`
    * `Paths.Canonical`

  The main lemmas are:
    * `Paths.join_of_canonical`
    * `Paths.join_injective`
    * `Paths.exists_canonical_join_eq`
-/

------------------------------------------------------------
-- Joining
------------------------------------------------------------

namespace Paths

abbrev Component :=
  List Char

/- The names from the root to the directory. -/
abbrev Directory :=
  List Component

/- Follow one component of a path. -/
def enter
    (directory : Directory)
    (component : Component) : Directory :=
  if component = [] ∨ component = ['.'] then
    directory
  else if component = ['.', '.'] then
    directory.dropLast
  else
    directory ++ [component]

def walk
    (directory : Directory)
    (components : List Component) : Directory :=
  components.foldl enter directory

/- The pieces of a path between its separators. -/
def components (path : String) : List Component :=
  path.toList.splitOn '/'

/- `PathBuf::join`: an absolute path replaces the base. -/
def join
    (base : Directory)
    (path : String) : Directory :=
  if path.toList.head? = some '/' then
    walk [] (components path)
  else
    walk base (components path)

/- A component that names a directory below. -/
def Plain (component : Component) : Prop :=
  component ≠ [] ∧ component ≠ ['.'] ∧
    component ≠ ['.', '.']

instance (component : Component) :
    Decidable (Plain component) := by
  unfold Plain
  infer_instance

/- Every component names a directory below. -/
def Canonical (path : String) : Prop :=
  ∀ component ∈ components path, Plain component

instance (path : String) : Decidable (Canonical path) := by
  unfold Canonical
  infer_instance

theorem enter_of_plain
    {component : Component}
    (hPlain : Plain component)
    (directory : Directory) :
    enter directory component =
      directory ++ [component] := by
  rcases hPlain with ⟨hNil, hDot, hDots⟩
  simp [enter, hNil, hDot, hDots]

theorem walk_of_plain
    {components : List Component}
    (hPlain :
      ∀ component ∈ components, Plain component)
    (directory : Directory) :
    walk directory components =
      directory ++ components := by
  induction components generalizing directory with
  | nil => simp [walk]
  | cons component components ih =>
      have hFirst := hPlain component (by simp)
      have hRest :
          ∀ other ∈ components, Plain other := by
        intro other hOther
        exact hPlain other (by simp [hOther])
      have hWalk := ih hRest (directory ++ [component])
      simp only [walk, List.foldl_cons,
        enter_of_plain hFirst] at hWalk ⊢
      simpa using hWalk

/- A canonical path does not start at the root. -/
theorem head?_of_canonical
    {path : String}
    (hPath : Canonical path) :
    path.toList.head? ≠ some '/' := by
  intro hHead
  rcases List.head?_eq_some_iff.mp hHead with
    ⟨rest, hRest⟩
  have hFirst : ([] : Component) ∈ components path := by
    rw [components, hRest]
    simp [List.splitOn_cons_eq_if_modifyHead]
  exact (hPath [] hFirst).1 rfl

theorem join_of_canonical
    {path : String}
    (hPath : Canonical path)
    (base : Directory) :
    join base path = base ++ components path := by
  rw [join, if_neg (head?_of_canonical hPath)]
  exact walk_of_plain hPath base

theorem components_ne_nil
    (path : String) :
    components path ≠ [] :=
  List.splitOn_ne_nil _ _

theorem components_injective :
    Function.Injective components := by
  intro left right hEq
  have hJoin :=
    congrArg (List.intercalate ['/']) hEq
  simp only [components, List.intercalate_splitOn] at hJoin
  exact String.toList_injective hJoin

/- Distinct canonical paths lead to distinct directories. -/
theorem join_injective
    {left right : String}
    (hLeft : Canonical left)
    (hRight : Canonical right)
    {base : Directory}
    (hEq : join base left = join base right) :
    left = right := by
  rw [join_of_canonical hLeft,
    join_of_canonical hRight] at hEq
  exact components_injective (List.append_cancel_left hEq)

end Paths

------------------------------------------------------------
-- Other Spellings
------------------------------------------------------------

namespace Paths

theorem not_mem_of_mem_components
    {path : String}
    {component : Component}
    (hComponent : component ∈ components path) :
    '/' ∉ component := by
  unfold components at hComponent
  generalize path.toList = letters at hComponent
  induction letters generalizing component with
  | nil =>
      rw [List.splitOn_nil, List.mem_singleton] at hComponent
      simp [hComponent]
  | cons letter letters ih =>
      rcases List.exists_cons_of_ne_nil
          (List.splitOn_ne_nil '/' letters) with
        ⟨first, rest, hSplit⟩
      rw [List.splitOn_cons_eq_if_modifyHead, hSplit]
        at hComponent
      rw [hSplit] at ih
      split at hComponent
      · rcases List.mem_cons.mp hComponent with rfl | hMem
        · simp
        · exact ih hMem
      · next hLetter =>
          rw [List.modifyHead_cons, List.mem_cons]
            at hComponent
          rcases hComponent with rfl | hMem
          · have hFirst := ih (List.mem_cons_self)
            have hNe : ¬ '/' = letter := by
              intro hEq
              simp [← hEq] at hLetter
            simp [hFirst, hNe]
          · exact ih (List.mem_cons_of_mem _ hMem)

/- Beyond its start a walk has only plain components. -/
theorem walk_eq_take_append
    {pieces : List Component}
    (hSlash : ∀ component ∈ pieces, '/' ∉ component)
    (base : Directory) :
    ∃ kept added,
      walk base pieces = base.take kept ++ added ∧
        kept ≤ base.length ∧
        ∀ component ∈ added,
          Plain component ∧ '/' ∉ component := by
  induction pieces using List.reverseRecOn with
  | nil => exact ⟨base.length, [], by simp [walk]⟩
  | append_singleton pieces piece ih =>
      rcases ih (fun other hOther =>
        hSlash other (by simp [hOther])) with
        ⟨kept, added, hWalk, hKept, hAdded⟩
      have hStep :
          walk base (pieces ++ [piece]) =
            enter (base.take kept ++ added) piece := by
        rw [← hWalk]
        simp [walk]
      rw [hStep]
      by_cases hStay : piece = [] ∨ piece = ['.']
      · rw [enter, if_pos hStay]
        exact ⟨kept, added, rfl, hKept, hAdded⟩
      · by_cases hUp : piece = ['.', '.']
        · rw [enter, if_neg hStay, if_pos hUp]
          rcases List.eq_nil_or_concat' added with
            hNil | ⟨front, last, hConcat⟩
          · refine ⟨kept - 1, [], ?_, by omega, by simp⟩
            rw [hNil, List.append_nil, List.append_nil,
              List.dropLast_eq_take, List.length_take,
              Nat.min_eq_left hKept, List.take_take,
              Nat.min_eq_left (by omega)]
          · refine ⟨kept, front, ?_, hKept, ?_⟩
            · rw [hConcat, ← List.append_assoc,
                List.dropLast_concat]
            · intro component hComponent
              exact hAdded component
                (by simp [hConcat, hComponent])
        · have hPlain : Plain piece := by
            simp only [not_or] at hStay
            exact ⟨hStay.1, hStay.2, hUp⟩
          refine ⟨kept, added ++ [piece], ?_, hKept, ?_⟩
          · rw [enter_of_plain hPlain, List.append_assoc]
          · intro component hComponent
            rw [List.mem_append, List.mem_singleton]
              at hComponent
            rcases hComponent with hMem | rfl
            · exact hAdded component hMem
            · exact ⟨hPlain, hSlash component (by simp)⟩

theorem join_eq_append
    (base : Directory)
    (path : String) :
    ∃ kept added,
      join base path = kept ++ added ∧
        kept.length ≤ base.length ∧
        ∀ component ∈ added,
          Plain component ∧ '/' ∉ component := by
  have hSlash :
      ∀ component ∈ components path, '/' ∉ component :=
    fun _ hMem => not_mem_of_mem_components hMem
  rw [join]
  split
  · rcases walk_eq_take_append hSlash [] with
      ⟨_, added, hWalk, _, hAdded⟩
    exact ⟨[], added, by simpa using hWalk, by simp, hAdded⟩
  · rcases walk_eq_take_append hSlash base with
      ⟨kept, added, hWalk, hKept, hAdded⟩
    exact ⟨base.take kept, added, hWalk, by simp, hAdded⟩

/-
  Whatever path leads below a directory, a canonical one
  leads there too.
-/
theorem exists_canonical_join_eq
    {base : Directory}
    {path : String}
    (hInside : base <+: join base path)
    (hNe : join base path ≠ base) :
    ∃ other,
      Canonical other ∧
        join base other = join base path := by
  rcases hInside with ⟨below, hBelow⟩
  have hBelowNe : below ≠ [] := by
    intro hNil
    exact hNe (by rw [← hBelow, hNil, List.append_nil])
  rcases join_eq_append base path with
    ⟨kept, added, hJoin, hKept, hAdded⟩
  have hDrop : below = added.drop (base.length - kept.length) := by
    have hSame := congrArg (List.drop base.length)
      (hBelow.trans hJoin)
    rwa [List.drop_left, List.drop_append,
      List.drop_eq_nil_of_le hKept, List.nil_append] at hSame
  have hPlain :
      ∀ component ∈ below,
        Plain component ∧ '/' ∉ component := by
    intro component hComponent
    rw [hDrop] at hComponent
    exact hAdded component (List.mem_of_mem_drop hComponent)
  have hComponents :
      components
          (String.ofList (List.intercalate ['/'] below)) =
        below := by
    rw [components, String.toList_ofList,
      List.splitOn_intercalate '/'
        (fun component hMem => (hPlain component hMem).2)
        hBelowNe]
  have hCanonical :
      Canonical
        (String.ofList (List.intercalate ['/'] below)) := by
    intro component hComponent
    rw [hComponents] at hComponent
    exact (hPlain component hComponent).1
  refine ⟨_, hCanonical, ?_⟩
  rw [join_of_canonical hCanonical, hComponents, hBelow]

end Paths
