import Mathlib

/-
  Keys in the order of their last use.

  A bounded list of keys, the least recently used first: a
  use moves a key to the end, and a new key pushes the first
  one out of a full list.

  Key definitions include:
    * `RecentlyUsed.UsedBefore`
    * `RecentlyUsed`

  The rules for the two kinds of use are:
    * `RecentlyUsed.hit`
    * `RecentlyUsed.miss`
-/

------------------------------------------------------------
-- Uses
------------------------------------------------------------

/- `earlier` has not been used since a use of `later`. -/
def RecentlyUsed.UsedBefore {κ : Type}
    (uses : List κ)
    (earlier later : κ) : Prop :=
  ∃ front back,
    uses = front ++ later :: back ∧
      earlier ∉ later :: back

/- Different keys, each used before the ones behind it. -/
structure RecentlyUsed {κ : Type}
    (capacity : Nat)
    (uses keys : List κ) : Prop where
  bounded : keys.length ≤ capacity
  nodup : keys.Nodup
  used : ∀ key ∈ keys, key ∈ uses
  ordered :
    keys.Pairwise (RecentlyUsed.UsedBefore uses)

namespace RecentlyUsed

variable {κ α : Type}
variable {capacity : Nat} {uses keys : List κ} {key : κ}

theorem empty (capacity : Nat) (uses : List κ) :
    RecentlyUsed capacity uses [] := by
  constructor
  · exact Nat.zero_le _
  · exact List.nodup_nil
  · simp
  · exact List.Pairwise.nil

/- A use of another key keeps the order of two keys. -/
theorem UsedBefore.use
    {earlier later : κ}
    (hBefore : UsedBefore uses earlier later)
    (hNe : earlier ≠ key) :
    UsedBefore (uses ++ [key]) earlier later := by
  rcases hBefore with ⟨front, back, hUses, hSince⟩
  refine ⟨front, back ++ [key], ?_, ?_⟩
  · rw [hUses]
    simp
  · rw [← List.cons_append, List.mem_append, not_or]
    exact ⟨hSince, by simpa using hNe⟩

theorem usedBefore_last
    {earlier : κ}
    (hNe : earlier ≠ key) :
    UsedBefore (uses ++ [key]) earlier key :=
  ⟨uses, [], rfl, by simpa using hNe⟩

/- The keys that stay, with the used one behind them. -/
theorem use_of_sublist
    (hKeys : RecentlyUsed capacity uses keys)
    {kept : List κ}
    (hKept : kept.Sublist keys)
    (hOther : key ∉ kept)
    (hRoom : kept.length < capacity) :
    RecentlyUsed capacity (uses ++ [key])
      (kept ++ [key]) := by
  constructor
  · rw [List.length_append, List.length_singleton]
    exact hRoom
  · exact (hKeys.nodup.sublist hKept).append
      (List.nodup_singleton key) (by simpa using hOther)
  · intro other hOther
    rcases List.mem_append.mp hOther with hOld | hNew
    · exact List.mem_append_left _
        (hKeys.used other (hKept.subset hOld))
    · exact List.mem_append_right _ hNew
  · rw [List.pairwise_append]
    refine ⟨?_, List.pairwise_singleton _ _, ?_⟩
    · refine (hKeys.ordered.sublist hKept).imp_of_mem ?_
      intro earlier later hEarlier _ hBefore
      exact hBefore.use (ne_of_mem_of_not_mem hEarlier hOther)
    · intro earlier hEarlier later hLater
      rw [List.mem_singleton.mp hLater]
      exact usedBefore_last
        (ne_of_mem_of_not_mem hEarlier hOther)

variable [DecidableEq κ]

/- The use of a key that is there. -/
theorem hit
    (hKeys : RecentlyUsed capacity uses keys)
    (hKey : key ∈ keys) :
    RecentlyUsed capacity (uses ++ [key])
      (keys.erase key ++ [key]) := by
  apply hKeys.use_of_sublist List.erase_sublist
  · rw [hKeys.nodup.mem_erase_iff]
    simp
  · rw [List.length_erase_of_mem hKey]
    have hLength := List.length_pos_of_mem hKey
    have hBounded := hKeys.bounded
    omega

omit [DecidableEq κ] in
/- The use of a key that is not there. -/
theorem miss
    (hKeys : RecentlyUsed capacity uses keys)
    (hKey : key ∉ keys)
    (hCapacity : 0 < capacity) :
    RecentlyUsed capacity (uses ++ [key])
      ((if capacity ≤ keys.length then keys.drop 1
        else keys) ++ [key]) := by
  have hBounded := hKeys.bounded
  split
  · next hFull =>
      apply hKeys.use_of_sublist (List.drop_sublist 1 keys)
      · exact fun hMem => hKey (List.mem_of_mem_drop hMem)
      · rw [List.length_drop]
        omega
  · next hRoom =>
      exact hKeys.use_of_sublist (List.Sublist.refl keys)
        hKey (Nat.not_le.mp hRoom)

/- Entries that are found by their key. -/
theorem map_erase_of_find
    {entries : List α}
    [BEq α]
    [LawfulBEq α]
    {keyOf : α → κ}
    {entry : α}
    (hFind :
      entries.find? (fun other => keyOf other = key) =
        some entry) :
    (entries.erase entry).map keyOf =
      (entries.map keyOf).erase key := by
  induction entries with
  | nil => simp at hFind
  | cons head entries ih =>
      by_cases hHead : keyOf head = key
      · rw [List.find?_cons_of_pos (by simpa using hHead),
          Option.some.injEq] at hFind
        rw [← hFind, List.erase_cons_head, List.map_cons,
          hHead, List.erase_cons_head]
      · rw [List.find?_cons_of_neg (by simpa using hHead)]
          at hFind
        have hEntry : keyOf entry = key := by
          simpa using List.find?_some hFind
        have hNe : head ≠ entry := by
          rintro rfl
          exact hHead hEntry
        rw [List.erase_cons_tail (by simpa using hNe),
          List.map_cons, List.map_cons, ih hFind,
          List.erase_cons_tail (by simpa using hHead)]

end RecentlyUsed
