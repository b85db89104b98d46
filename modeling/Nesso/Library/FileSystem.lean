import Mathlib

/-
  One directory of an inode file system.

  Names refer to inodes, and a handle is an inode: removing
  or replacing a name does not change what an open handle
  reads.  No two names share an inode.

  Key definitions include:
    * `FileSystem`
    * `FileSystem.read`
    * `FileSystem.create`
    * `FileSystem.append`
    * `FileSystem.truncate`
    * `FileSystem.remove`
    * `FileSystem.rename`

  The read theorems describe every operation by name:
    * `FileSystem.read_create`
    * `FileSystem.read_append`
    * `FileSystem.read_truncate`
    * `FileSystem.read_remove`
    * `FileSystem.read_rename`
-/

------------------------------------------------------------
-- Names, Inodes and Contents
------------------------------------------------------------

structure FileSystem
    (ν β : Type)
    [Ord ν] [Std.TransOrd ν] where
  names : Std.ExtTreeMap ν Nat
  contents : List (List β)
  names_lt :
    ∀ {name : ν} {inode : Nat},
      names[name]? = some inode → inode < contents.length
  names_inj :
    ∀ {left right : ν} {inode : Nat},
      names[left]? = some inode →
        names[right]? = some inode → left = right

namespace FileSystem

variable {ν β : Type}
variable [Ord ν] [Std.TransOrd ν] [Std.LawfulEqOrd ν]

/- The empty directory. -/
def empty : FileSystem ν β where
  names := ∅
  contents := []
  names_lt := by simp
  names_inj := by simp

/- The inode a name refers to. -/
def lookup
    (fs : FileSystem ν β)
    (name : ν) : Option Nat :=
  fs.names[name]?

/- What a handle on an inode reads. -/
def contentOf
    (fs : FileSystem ν β)
    (inode : Nat) : List β :=
  fs.contents.getD inode []

/- What a freshly opened file reads. -/
def read
    (fs : FileSystem ν β)
    (name : ν) : Option (List β) :=
  (fs.lookup name).map fs.contentOf

/-
  Open a file for appending and create it when absent; the
  result is the directory and the handle.
-/
def create
    (fs : FileSystem ν β)
    (name : ν) : FileSystem ν β × Nat :=
  match fs.names[name]? with
  | some inode => (fs, inode)
  | none =>
      ({ names := fs.names.insert name fs.contents.length
         contents := fs.contents ++ [[]]
         names_lt := by
          intro other inode hOther
          rw [Std.ExtTreeMap.getElem?_insert] at hOther
          rw [List.length_append, List.length_singleton]
          split at hOther
          · simp only [Option.some.injEq] at hOther
            omega
          · have hLt := fs.names_lt hOther
            omega
         names_inj := by
          intro left right inode hLeft hRight
          rw [Std.ExtTreeMap.getElem?_insert]
            at hLeft hRight
          split at hLeft <;> split at hRight
          · next hL hR =>
              rw [← Std.LawfulEqOrd.eq_of_compare hL,
                ← Std.LawfulEqOrd.eq_of_compare hR]
          · have hLt := fs.names_lt hRight
            simp only [Option.some.injEq] at hLeft
            omega
          · have hLt := fs.names_lt hLeft
            simp only [Option.some.injEq] at hRight
            omega
          · exact fs.names_inj hLeft hRight },
        fs.contents.length)

/- Rewrite the content behind a handle. -/
def modify
    (fs : FileSystem ν β)
    (inode : Nat)
    (f : List β → List β) : FileSystem ν β where
  names := fs.names
  contents := fs.contents.modify inode f
  names_lt := by
    intro name other hName
    rw [List.length_modify]
    exact fs.names_lt hName
  names_inj := fs.names_inj

/- Write at the end of an open file. -/
def append
    (fs : FileSystem ν β)
    (inode : Nat)
    (bytes : List β) : FileSystem ν β :=
  fs.modify inode (· ++ bytes)

/- Shorten an open file. -/
def truncate
    (fs : FileSystem ν β)
    (inode size : Nat) : FileSystem ν β :=
  fs.modify inode (List.take size)

/- Unlink a name; open handles keep their inode. -/
def remove
    (fs : FileSystem ν β)
    (name : ν) : FileSystem ν β where
  names := fs.names.erase name
  contents := fs.contents
  names_lt := by
    intro other inode hOther
    rw [Std.ExtTreeMap.getElem?_erase] at hOther
    split at hOther
    · simp at hOther
    · exact fs.names_lt hOther
  names_inj := by
    intro left right inode hLeft hRight
    rw [Std.ExtTreeMap.getElem?_erase] at hLeft hRight
    split at hLeft
    · simp at hLeft
    · split at hRight
      · simp at hRight
      · exact fs.names_inj hLeft hRight

/- Atomically move a name over another one. -/
def rename
    (fs : FileSystem ν β)
    (source target : ν) : FileSystem ν β :=
  match hSource : fs.names[source]? with
  | none => fs
  | some inode =>
      { names := (fs.names.erase source).insert target inode
        contents := fs.contents
        names_lt := by
          intro other found hOther
          rw [Std.ExtTreeMap.getElem?_insert,
            Std.ExtTreeMap.getElem?_erase] at hOther
          split at hOther
          · simp only [Option.some.injEq] at hOther
            rw [← hOther]
            exact fs.names_lt hSource
          · split at hOther
            · simp at hOther
            · exact fs.names_lt hOther
        names_inj := by
          -- The moved inode has lost its only other name.
          have hMoved :
              ∀ (other : ν) (found : Nat),
                (fs.names.erase source)[other]? =
                    some found →
                  found ≠ inode := by
            intro other found hOther hEq
            rw [hEq, Std.ExtTreeMap.getElem?_erase]
              at hOther
            split at hOther
            · simp at hOther
            · next hNe =>
                apply hNe
                rw [fs.names_inj hOther hSource]
                exact Std.ReflCmp.compare_self
          intro left right found hLeft hRight
          rw [Std.ExtTreeMap.getElem?_insert]
            at hLeft hRight
          split at hLeft <;> split at hRight
          · next hL hR =>
              rw [← Std.LawfulEqOrd.eq_of_compare hL,
                ← Std.LawfulEqOrd.eq_of_compare hR]
          · simp only [Option.some.injEq] at hLeft
            exact (hMoved _ _ hRight hLeft.symm).elim
          · simp only [Option.some.injEq] at hRight
            exact (hMoved _ _ hLeft hRight.symm).elim
          · exact (fs.remove source).names_inj hLeft hRight }

end FileSystem

------------------------------------------------------------
-- Reading After an Operation
------------------------------------------------------------

namespace FileSystem

variable {ν β : Type} [DecidableEq ν]
variable [Ord ν] [Std.TransOrd ν] [Std.LawfulEqOrd ν]

omit [DecidableEq ν] [Std.LawfulEqOrd ν] in
theorem read_eq_some_iff
    {fs : FileSystem ν β}
    {name : ν}
    {bytes : List β} :
    fs.read name = some bytes ↔
      ∃ inode,
        fs.lookup name = some inode ∧
          fs.contentOf inode = bytes := by
  simp [read]

omit [DecidableEq ν] [Std.LawfulEqOrd ν] in
@[simp] theorem read_empty
    (name : ν) :
    (empty : FileSystem ν β).read name = none := by
  simp [read, lookup, empty]

/- Creating a file resolves its name to the handle. -/
theorem lookup_create
    (fs : FileSystem ν β)
    (name other : ν) :
    (fs.create name).1.lookup other =
      if other = name then some (fs.create name).2
      else fs.lookup other := by
  unfold create lookup
  cases hName : fs.names[name]? with
  | some inode =>
      by_cases hOther : other = name
      · simp [hOther, hName]
      · simp [hOther]
  | none =>
      by_cases hOther : other = name
      · simp [hOther]
      · simp [Std.ExtTreeMap.getElem?_insert, hOther,
          Ne.symm hOther]

omit [DecidableEq ν] in
/- Creating a file leaves every old handle unchanged. -/
theorem contentOf_create
    (fs : FileSystem ν β)
    (name : ν)
    (inode : Nat) :
    (fs.create name).1.contentOf inode =
      fs.contentOf inode := by
  unfold create contentOf
  cases fs.names[name]? with
  | some found => rfl
  | none =>
      simp only [List.getD_eq_getElem?_getD]
      rw [List.getElem?_append]
      split
      · rfl
      · next hLt =>
          -- Behind the old contents both sides are empty.
          have hOld : fs.contents[inode]? = none :=
            List.getElem?_eq_none (by omega)
          rw [hOld]
          cases inode - fs.contents.length <;> simp

/- Creating a file keeps its content, or starts empty. -/
theorem read_create
    (fs : FileSystem ν β)
    (name other : ν) :
    (fs.create name).1.read other =
      if other = name then
        some ((fs.read name).getD [])
      else fs.read other := by
  unfold read
  rw [lookup_create]
  by_cases hOther : other = name
  · rw [if_pos hOther, if_pos hOther, Option.map_some,
      contentOf_create]
    congr 1
    unfold create lookup contentOf
    cases hName : fs.names[name]? with
    | some inode => simp
    | none => simp
  · rw [if_neg hOther, if_neg hOther]
    congr 1
    funext inode
    exact contentOf_create fs name inode

/- The new handle of a created file is resolved by name. -/
theorem lookup_create_self
    (fs : FileSystem ν β)
    (name : ν) :
    (fs.create name).1.lookup name =
      some (fs.create name).2 := by
  rw [lookup_create, if_pos rfl]

/- Creating a file keeps the files that there are. -/
theorem lookup_create_of_lookup
    {fs : FileSystem ν β}
    {other : ν}
    {inode : Nat}
    (hLookup : fs.lookup other = some inode)
    (name : ν) :
    (fs.create name).1.lookup other = some inode := by
  rw [lookup_create]
  split
  · next hName =>
      rw [hName, lookup] at hLookup
      simp only [create, hLookup]
  · exact hLookup

omit [DecidableEq ν] [Std.LawfulEqOrd ν] in
/- Rewriting one inode changes no other handle. -/
theorem contentOf_modify
    {fs : FileSystem ν β}
    {inode : Nat}
    (hInode : inode < fs.contents.length)
    (f : List β → List β)
    (other : Nat) :
    (fs.modify inode f).contentOf other =
      if other = inode then f (fs.contentOf inode)
      else fs.contentOf other := by
  unfold modify contentOf
  simp only [List.getD_eq_getElem?_getD,
    List.getElem?_modify]
  by_cases hOther : other = inode
  · subst hOther
    rw [List.getElem?_eq_getElem hInode]
    simp
  · rw [if_neg hOther]
    have hNe : ¬ inode = other := fun hEq =>
      hOther hEq.symm
    simp [hNe]

omit [DecidableEq ν] [Std.LawfulEqOrd ν] in
/- Writing to a handle changes no other handle. -/
theorem contentOf_append_of_ne
    (fs : FileSystem ν β)
    {inode other : Nat}
    (hOther : other ≠ inode)
    (bytes : List β) :
    (fs.append inode bytes).contentOf other =
      fs.contentOf other := by
  unfold append modify contentOf
  simp [List.getD_eq_getElem?_getD, Ne.symm hOther]

omit [DecidableEq ν] [Std.LawfulEqOrd ν] in
/- Writing at the end keeps what is there. -/
theorem contentOf_prefix_append
    (fs : FileSystem ν β)
    (inode other : Nat)
    (bytes : List β) :
    fs.contentOf other <+:
      (fs.append inode bytes).contentOf other := by
  by_cases hOther : other = inode
  · subst hOther
    by_cases hLt : other < fs.contents.length
    · rw [append, contentOf_modify hLt, if_pos rfl]
      exact List.prefix_append _ _
    · have hEmpty : fs.contentOf other = [] := by
        simp [contentOf, List.getD_eq_getElem?_getD, hLt]
      rw [hEmpty]
      exact List.nil_prefix
  · rw [contentOf_append_of_ne fs hOther]

omit [DecidableEq ν] [Std.LawfulEqOrd ν] in
/- Shortening leaves the beginning of every file. -/
theorem contentOf_truncate_le
    (fs : FileSystem ν β)
    (inode size other : Nat) :
    (fs.truncate inode size).contentOf other <+:
      fs.contentOf other := by
  by_cases hOther : other = inode
  · subst hOther
    by_cases hLt : other < fs.contents.length
    · rw [truncate, contentOf_modify hLt, if_pos rfl]
      exact List.take_prefix _ _
    · have hEmpty :
          (fs.truncate other size).contentOf other = [] := by
        simp [truncate, modify, contentOf,
          List.getD_eq_getElem?_getD, hLt]
      rw [hEmpty]
      exact List.nil_prefix
  · have hSame :
        (fs.truncate inode size).contentOf other =
          fs.contentOf other := by
      unfold truncate modify contentOf
      simp [List.getD_eq_getElem?_getD, Ne.symm hOther]
    rw [hSame]

omit [Std.LawfulEqOrd ν] in
/- Rewriting a named file changes no other file. -/
theorem read_modify
    {fs : FileSystem ν β}
    {name : ν}
    {inode : Nat}
    (hName : fs.lookup name = some inode)
    (f : List β → List β)
    (other : ν) :
    (fs.modify inode f).read other =
      if other = name then (fs.read name).map f
      else fs.read other := by
  have hInode : inode < fs.contents.length :=
    fs.names_lt hName
  have hLookup :
      (fs.modify inode f).lookup other =
        fs.lookup other := rfl
  unfold read
  rw [hLookup]
  by_cases hOther : other = name
  · subst hOther
    rw [if_pos rfl, hName]
    simp [contentOf_modify hInode]
  · rw [if_neg hOther]
    cases hFound : fs.lookup other with
    | none => rfl
    | some found =>
        have hNe : found ≠ inode := by
          rintro rfl
          exact hOther (fs.names_inj hFound hName)
        simp [contentOf_modify hInode, hNe]

omit [Std.LawfulEqOrd ν] in
theorem read_append
    {fs : FileSystem ν β}
    {name : ν}
    {inode : Nat}
    (hName : fs.lookup name = some inode)
    (bytes : List β)
    (other : ν) :
    (fs.append inode bytes).read other =
      if other = name then
        (fs.read name).map (· ++ bytes)
      else fs.read other :=
  read_modify hName _ other

omit [Std.LawfulEqOrd ν] in
theorem read_truncate
    {fs : FileSystem ν β}
    {name : ν}
    {inode : Nat}
    (hName : fs.lookup name = some inode)
    (size : Nat)
    (other : ν) :
    (fs.truncate inode size).read other =
      if other = name then
        (fs.read name).map (List.take size)
      else fs.read other :=
  read_modify hName _ other

omit [DecidableEq ν] [Std.LawfulEqOrd ν] in
@[simp] theorem lookup_append
    (fs : FileSystem ν β)
    (inode : Nat)
    (bytes : List β)
    (name : ν) :
    (fs.append inode bytes).lookup name =
      fs.lookup name := rfl

omit [DecidableEq ν] [Std.LawfulEqOrd ν] in
@[simp] theorem lookup_truncate
    (fs : FileSystem ν β)
    (inode size : Nat)
    (name : ν) :
    (fs.truncate inode size).lookup name =
      fs.lookup name := rfl

omit [DecidableEq ν] [Std.LawfulEqOrd ν] in
@[simp] theorem contentOf_remove
    (fs : FileSystem ν β)
    (name : ν)
    (inode : Nat) :
    (fs.remove name).contentOf inode =
      fs.contentOf inode := rfl

/- An unlinked name is gone; the other names stay. -/
theorem lookup_remove
    (fs : FileSystem ν β)
    (name other : ν) :
    (fs.remove name).lookup other =
      if other = name then none
      else fs.lookup other := by
  unfold remove lookup
  rw [Std.ExtTreeMap.getElem?_erase]
  by_cases hOther : other = name
  · simp [hOther]
  · simp [hOther, Ne.symm hOther]

theorem read_remove
    (fs : FileSystem ν β)
    (name other : ν) :
    (fs.remove name).read other =
      if other = name then none
      else fs.read other := by
  unfold read
  rw [lookup_remove]
  by_cases hOther : other = name
  · simp [hOther]
  · simp only [if_neg hOther]
    rfl

omit [DecidableEq ν] in
/- Renaming changes no handle. -/
@[simp] theorem contentOf_rename
    (fs : FileSystem ν β)
    (source target : ν)
    (inode : Nat) :
    (fs.rename source target).contentOf inode =
      fs.contentOf inode := by
  unfold rename contentOf
  split <;> rfl

/- A renamed file is found under its target only. -/
theorem lookup_rename
    {fs : FileSystem ν β}
    {source target : ν}
    {inode : Nat}
    (hSource : fs.lookup source = some inode)
    (other : ν) :
    (fs.rename source target).lookup other =
      if other = target then some inode
      else if other = source then none
      else fs.lookup other := by
  unfold rename
  split
  · next hNone =>
      rw [lookup, hNone] at hSource
      simp at hSource
  · next found hFound =>
      rw [lookup, hFound, Option.some.injEq] at hSource
      subst hSource
      unfold lookup
      rw [Std.ExtTreeMap.getElem?_insert,
        Std.ExtTreeMap.getElem?_erase]
      by_cases hTarget : other = target
      · simp [hTarget]
      · by_cases hOther : other = source
        · have hNe : ¬ target = source := by
            rw [← hOther]
            exact Ne.symm hTarget
          subst hOther
          simp [hTarget, Ne.symm hTarget]
        · simp [hTarget, hOther, Ne.symm hTarget,
            Ne.symm hOther]

theorem read_rename
    {fs : FileSystem ν β}
    {source target : ν}
    {bytes : List β}
    (hSource : fs.read source = some bytes)
    (other : ν) :
    (fs.rename source target).read other =
      if other = target then some bytes
      else if other = source then none
      else fs.read other := by
  rcases read_eq_some_iff.mp hSource with
    ⟨inode, hLookup, hContent⟩
  unfold read
  rw [lookup_rename hLookup]
  by_cases hTarget : other = target
  · simp [hTarget, hContent]
  · by_cases hOther : other = source
    · simp only [if_neg hTarget, if_pos hOther]
      rfl
    · simp only [if_neg hTarget, if_neg hOther]
      congr 1
      funext found
      exact contentOf_rename fs source target found

end FileSystem

------------------------------------------------------------
-- Programs of File System Steps
------------------------------------------------------------

namespace FileSystem

/-
  The steps a program asks of the file system.  A write goes
  to the end of the named file; syncing has no effect on what
  a later read returns.
-/
inductive Step (ν β : Type) where
| create (name : ν)
| createTruncate (name : ν)
| write (name : ν) (bytes : List β)
| truncate (name : ν) (size : Nat)
| sync (name : ν)
| rename (source target : ν)
| remove (name : ν)

variable {ν β : Type}
variable [Ord ν] [Std.TransOrd ν] [Std.LawfulEqOrd ν]

/- The effect of one step; missing files are skipped. -/
def Step.exec
    (fs : FileSystem ν β) :
    Step ν β → FileSystem ν β
| .create name => (fs.create name).1
| .createTruncate name =>
    (fs.create name).1.truncate (fs.create name).2 0
| .write name bytes =>
    match fs.lookup name with
    | some inode => fs.append inode bytes
    | none => fs
| .truncate name size =>
    match fs.lookup name with
    | some inode => fs.truncate inode size
    | none => fs
| .sync _ => fs
| .rename source target => fs.rename source target
| .remove name => fs.remove name

/- Run a list of steps to its end. -/
def execAll
    (fs : FileSystem ν β)
    (steps : List (Step ν β)) : FileSystem ν β :=
  steps.foldl Step.exec fs

/-
  The directories a crash can leave: some steps took effect,
  and the write that was under way may be torn.
-/
inductive CrashesTo :
    FileSystem ν β → List (Step ν β) →
      FileSystem ν β → Prop where
| stop (fs : FileSystem ν β) (steps : List (Step ν β)) :
    CrashesTo fs steps fs
| torn (fs : FileSystem ν β) (name : ν)
    (bytes : List β) (size : Nat)
    (steps : List (Step ν β)) :
    CrashesTo fs (.write name bytes :: steps)
      (Step.exec fs (.write name (bytes.take size)))
| step {fs left : FileSystem ν β} {first : Step ν β}
    {steps : List (Step ν β)} :
    CrashesTo (Step.exec fs first) steps left →
      CrashesTo fs (first :: steps) left

@[simp] theorem execAll_nil
    (fs : FileSystem ν β) :
    fs.execAll [] = fs := rfl

@[simp] theorem execAll_cons
    (fs : FileSystem ν β)
    (first : Step ν β)
    (steps : List (Step ν β)) :
    fs.execAll (first :: steps) =
      (Step.exec fs first).execAll steps := rfl

theorem execAll_append
    (fs : FileSystem ν β)
    (left right : List (Step ν β)) :
    fs.execAll (left ++ right) =
      (fs.execAll left).execAll right := by
  simp [execAll]

/- A finished program is one of its crash points. -/
theorem CrashesTo.finished
    (fs : FileSystem ν β)
    (steps : List (Step ν β)) :
    CrashesTo fs steps (fs.execAll steps) := by
  induction steps generalizing fs with
  | nil => exact .stop fs []
  | cons first steps ih => exact .step (ih _)

/- A crash between two steps. -/
theorem CrashesTo.take
    (fs : FileSystem ν β)
    (steps : List (Step ν β))
    (count : Nat) :
    CrashesTo fs steps (fs.execAll (steps.take count)) := by
  induction steps generalizing fs count with
  | nil => simpa using .stop fs []
  | cons first steps ih =>
      cases count with
      | zero => exact .stop _ _
      | succ count => exact .step (ih _ count)

/- A crash among unlinks has done the first few of them. -/
theorem CrashesTo.of_removes
    {fs left : FileSystem ν β}
    {names : List ν}
    (hCrash :
      CrashesTo fs
        (names.map (fun name => .remove name)) left) :
    ∃ count,
      left =
        fs.execAll
          ((names.take count).map
            (fun name => .remove name)) := by
  induction names generalizing fs with
  | nil =>
      cases hCrash with
      | stop => exact ⟨0, rfl⟩
  | cons name names ih =>
      cases hCrash with
      | stop => exact ⟨0, rfl⟩
      | step hCrash =>
          rcases ih hCrash with ⟨count, hLeft⟩
          exact ⟨count + 1, by simpa using hLeft⟩

/-
  A crash of a composed program falls into its first part,
  or into its second part after the first one finished.
-/
theorem CrashesTo.append_cases
    {fs left : FileSystem ν β}
    {front back : List (Step ν β)}
    (hCrash : CrashesTo fs (front ++ back) left) :
    CrashesTo fs front left ∨
      CrashesTo (fs.execAll front) back left := by
  induction front generalizing fs with
  | nil => exact .inr hCrash
  | cons first front ih =>
      cases hCrash with
      | stop => exact .inl (.stop _ _)
      | torn name bytes size steps =>
          exact .inl (.torn _ _ _ _ _)
      | step hNext =>
          rcases ih hNext with hFront | hBack
          · exact .inl (.step hFront)
          · exact .inr hBack

/-
  A property kept by every step, torn writes included, holds
  in whatever a crash leaves.
-/
theorem CrashesTo.invariant
    {steps : List (Step ν β)}
    {Inv : FileSystem ν β → Prop}
    (hStep :
      ∀ fs, ∀ step ∈ steps,
        Inv fs → Inv (Step.exec fs step))
    (hTorn :
      ∀ fs name bytes size,
        Step.write name bytes ∈ steps → Inv fs →
          Inv (Step.exec fs
            (.write name (bytes.take size))))
    {fs left : FileSystem ν β}
    (hCrash : CrashesTo fs steps left)
    (hInv : Inv fs) : Inv left := by
  induction hCrash with
  | stop => exact hInv
  | torn fs name bytes size steps =>
      exact hTorn fs name bytes size (by simp) hInv
  | @step fs left first steps hNext ih =>
      apply ih
      · intro other step hMem
        exact hStep other step (by simp [hMem])
      · intro other name bytes size hMem
        exact hTorn other name bytes size (by simp [hMem])
      · exact hStep fs first (by simp) hInv

end FileSystem

------------------------------------------------------------
-- Reading After a Step
------------------------------------------------------------

namespace FileSystem

variable {ν β : Type} [DecidableEq ν]
variable [Ord ν] [Std.TransOrd ν] [Std.LawfulEqOrd ν]

/- Writing by name extends the named file, if it exists. -/
theorem read_exec_write
    (fs : FileSystem ν β)
    (name other : ν)
    (bytes : List β) :
    (Step.exec fs (.write name bytes)).read other =
      if other = name then
        (fs.read name).map (· ++ bytes)
      else fs.read other := by
  rw [Step.exec]
  split
  · next inode hName =>
      exact read_append hName bytes other
  · next hName =>
      by_cases hOther : other = name
      · simp [hOther, read, hName]
      · simp [hOther]

/- Truncating by name shortens the named file. -/
theorem read_exec_truncate
    (fs : FileSystem ν β)
    (name other : ν)
    (size : Nat) :
    (Step.exec fs (.truncate name size)).read other =
      if other = name then
        (fs.read name).map (List.take size)
      else fs.read other := by
  rw [Step.exec]
  split
  · next inode hName =>
      exact read_truncate hName size other
  · next hName =>
      by_cases hOther : other = name
      · simp [hOther, read, hName]
      · simp [hOther]

/- Creating with truncation leaves an empty file. -/
theorem read_exec_createTruncate
    (fs : FileSystem ν β)
    (name other : ν) :
    (Step.exec fs (.createTruncate name)).read other =
      if other = name then some []
      else fs.read other := by
  rw [Step.exec,
    read_truncate (lookup_create_self fs name),
    read_create, read_create]
  by_cases hOther : other = name
  · simp [hOther]
  · simp [hOther]

end FileSystem

------------------------------------------------------------
-- Files a Program Leaves Alone
------------------------------------------------------------

namespace FileSystem

variable {ν β : Type} [DecidableEq ν]
variable [Ord ν] [Std.TransOrd ν] [Std.LawfulEqOrd ν]

omit [DecidableEq ν] [Ord ν] [Std.TransOrd ν]
  [Std.LawfulEqOrd ν] in
/- The names whose file a step may change. -/
def Step.targets : Step ν β → List ν
| .create name => [name]
| .createTruncate name => [name]
| .write name _ => [name]
| .truncate name _ => [name]
| .sync _ => []
| .rename source target => [source, target]
| .remove name => [name]

/- A step keeps the inode of every other name. -/
theorem lookup_exec_of_not_target
    (fs : FileSystem ν β)
    {step : Step ν β}
    {name : ν}
    (hName : name ∉ step.targets) :
    (Step.exec fs step).lookup name = fs.lookup name := by
  cases step with
  | create other =>
      have hNe : name ≠ other := by
        simpa [Step.targets] using hName
      rw [Step.exec, lookup_create, if_neg hNe]
  | createTruncate other =>
      have hNe : name ≠ other := by
        simpa [Step.targets] using hName
      rw [Step.exec, lookup_truncate, lookup_create,
        if_neg hNe]
  | write other bytes =>
      rw [Step.exec]
      split <;> rfl
  | truncate other size =>
      rw [Step.exec]
      split <;> rfl
  | sync other => rfl
  | rename source target =>
      have hNe : name ≠ source ∧ name ≠ target := by
        simpa [Step.targets] using hName
      rw [Step.exec]
      cases hSource : fs.lookup source with
      | none =>
          unfold rename
          split
          · rfl
          · next inode hInode =>
              rw [lookup, hInode] at hSource
              simp at hSource
      | some inode =>
          rw [lookup_rename hSource, if_neg hNe.2,
            if_neg hNe.1]
  | remove other =>
      have hNe : name ≠ other := by
        simpa [Step.targets] using hName
      rw [Step.exec, lookup_remove, if_neg hNe]

/- A step keeps the content of every other name. -/
theorem read_exec_of_not_target
    (fs : FileSystem ν β)
    {step : Step ν β}
    {name : ν}
    (hName : name ∉ step.targets) :
    (Step.exec fs step).read name = fs.read name := by
  cases step with
  | create other =>
      have hNe : name ≠ other := by
        simpa [Step.targets] using hName
      rw [Step.exec, read_create, if_neg hNe]
  | createTruncate other =>
      have hNe : name ≠ other := by
        simpa [Step.targets] using hName
      rw [read_exec_createTruncate, if_neg hNe]
  | write other bytes =>
      have hNe : name ≠ other := by
        simpa [Step.targets] using hName
      rw [read_exec_write, if_neg hNe]
  | truncate other size =>
      have hNe : name ≠ other := by
        simpa [Step.targets] using hName
      rw [read_exec_truncate, if_neg hNe]
  | sync other => rfl
  | rename source target =>
      have hNe : name ≠ source ∧ name ≠ target := by
        simpa [Step.targets] using hName
      rw [Step.exec]
      cases hSource : fs.read source with
      | none =>
          unfold rename
          split
          · rfl
          · next inode hInode =>
              rw [read, lookup, hInode] at hSource
              simp at hSource
      | some bytes =>
          rw [read_rename hSource, if_neg hNe.2,
            if_neg hNe.1]
  | remove other =>
      have hNe : name ≠ other := by
        simpa [Step.targets] using hName
      rw [Step.exec, read_remove, if_neg hNe]

theorem lookup_execAll_of_not_target
    (fs : FileSystem ν β)
    {steps : List (Step ν β)}
    {name : ν}
    (hName : ∀ step ∈ steps, name ∉ step.targets) :
    (fs.execAll steps).lookup name = fs.lookup name := by
  induction steps generalizing fs with
  | nil => rfl
  | cons first steps ih =>
      rw [execAll_cons,
        ih _ (fun step hStep => hName step (by simp [hStep])),
        lookup_exec_of_not_target fs
          (hName first (by simp))]

theorem read_execAll_of_not_target
    (fs : FileSystem ν β)
    {steps : List (Step ν β)}
    {name : ν}
    (hName : ∀ step ∈ steps, name ∉ step.targets) :
    (fs.execAll steps).read name = fs.read name := by
  induction steps generalizing fs with
  | nil => rfl
  | cons first steps ih =>
      rw [execAll_cons,
        ih _ (fun step hStep => hName step (by simp [hStep])),
        read_exec_of_not_target fs
          (hName first (by simp))]

/- Writing in pieces appends all of them. -/
theorem read_execAll_writes
    (fs : FileSystem ν β)
    (name : ν)
    (pieces : List (List β)) :
    (fs.execAll
        (pieces.map (fun piece => .write name piece))).read
          name =
      (fs.read name).map (· ++ pieces.flatten) := by
  induction pieces generalizing fs with
  | nil => simp
  | cons piece pieces ih =>
      rw [List.map_cons, execAll_cons, ih, read_exec_write,
        if_pos rfl]
      cases fs.read name <;> simp

/- Unlinked files are gone. -/
theorem read_execAll_removes
    (fs : FileSystem ν β)
    (names : List ν)
    (other : ν) :
    (fs.execAll
        (names.map (fun name => .remove name))).read other =
      if other ∈ names then none else fs.read other := by
  induction names generalizing fs with
  | nil => simp
  | cons name names ih =>
      rw [List.map_cons, execAll_cons, ih, Step.exec,
        read_remove]
      by_cases hNames : other ∈ names
      · simp [hNames]
      · by_cases hName : other = name
        · simp [hName]
        · simp [hNames, hName]

end FileSystem
