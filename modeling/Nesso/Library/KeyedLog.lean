import Mathlib

/-
  Append-only logs whose entries carry a key.

  Key definitions include:
    * `KeyedLog.history`
    * `KeyedLog.latest`
    * `KeyedLog.latests`
    * `KeyedLog.lastWriter`

  The replay theorems are:
    * `KeyedLog.mem_latests_iff`
    * `KeyedLog.getElem?_lastWriter`
    * `KeyedLog.insertionSort_lastWriter`
-/

------------------------------------------------------------
-- Entries of One Key
------------------------------------------------------------

namespace KeyedLog

variable {α κ : Type} [DecidableEq κ]
variable (key : α → κ)

/- The entries of one key, in log order. -/
def history
    (log : List α)
    (k : κ) : List α :=
  log.filter (fun entry => key entry = k)

/- The last entry of one key. -/
def latest
    (log : List α)
    (k : κ) : Option α :=
  (history key log k).getLast?

/- The last entry of every key, in log order. -/
def latests : List α → List α
| [] => []
| entry :: log =>
    if latest key log (key entry) = none then
      entry :: latests log
    else
      latests log

variable {key}

@[simp] theorem history_nil
    (k : κ) :
    history key [] k = [] := rfl

@[simp] theorem history_append
    (left right : List α)
    (k : κ) :
    history key (left ++ right) k =
      history key left k ++ history key right k := by
  simp [history]

/- A one-entry log has the history of its own key. -/
theorem history_singleton
    (entry : α)
    (k : κ) :
    history key [entry] k =
      if key entry = k then [entry] else [] := by
  by_cases hKey : key entry = k <;> simp [history, hKey]

theorem mem_history_iff
    {log : List α}
    {k : κ}
    {entry : α} :
    entry ∈ history key log k ↔
      entry ∈ log ∧ key entry = k := by
  simp [history]

@[simp] theorem latest_nil
    (k : κ) :
    latest key [] k = none := rfl

/- A later log overrides an earlier one, key by key. -/
theorem latest_append
    (left right : List α)
    (k : κ) :
    latest key (left ++ right) k =
      (latest key right k).or (latest key left k) := by
  simp [latest, List.getLast?_append]

/- Appending one entry updates exactly its own key. -/
theorem latest_append_singleton
    (log : List α)
    (entry : α)
    (k : κ) :
    latest key (log ++ [entry]) k =
      if key entry = k then some entry
      else latest key log k := by
  rw [latest_append]
  by_cases hKey : key entry = k <;>
    simp [latest, history_singleton, hKey]

/- Prepending one entry matters only for an absent key. -/
theorem latest_cons
    (entry : α)
    (log : List α)
    (k : κ) :
    latest key (entry :: log) k =
      (latest key log k).or
        (if key entry = k then some entry else none) := by
  have hSplit : entry :: log = [entry] ++ log := rfl
  rw [hSplit, latest_append]
  by_cases hKey : key entry = k <;>
    simp [latest, history_singleton, hKey]

/- The last entry of a key is an entry of that key. -/
theorem latest_mem
    {log : List α}
    {k : κ}
    {entry : α}
    (hLatest : latest key log k = some entry) :
    entry ∈ log ∧ key entry = k := by
  apply mem_history_iff.mp
  exact List.mem_of_getLast? hLatest

/- A key has a last entry when it has any entry. -/
theorem latest_eq_none_iff
    {log : List α}
    {k : κ} :
    latest key log k = none ↔
      ∀ entry ∈ log, key entry ≠ k := by
  rw [latest, List.getLast?_eq_none_iff, history,
    List.filter_eq_nil_iff]
  simp

/- The history in a mapped log is the mapped history. -/
theorem history_map
    {γ : Type}
    (f : γ → α)
    (log : List γ)
    (k : κ) :
    history key (log.map f) k =
      (history (fun entry => key (f entry)) log k).map f := by
  simp [history, List.filter_map, Function.comp_def]

/- With distinct keys an entry is its whole history. -/
theorem history_eq_singleton_of_nodup
    {log : List α}
    (hNodup : (log.map key).Nodup)
    {entry : α}
    (hMem : entry ∈ log) :
    history key log (key entry) = [entry] := by
  induction log with
  | nil => simp at hMem
  | cons head log ih =>
      rw [List.map_cons, List.nodup_cons] at hNodup
      rcases List.mem_cons.mp hMem with rfl | hTail
      · have hRest : history key log (key entry) = [] := by
          rw [history, List.filter_eq_nil_iff]
          intro other hOther hEq
          apply hNodup.1
          rw [← of_decide_eq_true hEq]
          exact List.mem_map_of_mem hOther
        rw [history] at hRest ⊢
        rw [List.filter_cons_of_pos (by simp), hRest]
      · have hNe : key head ≠ key entry := by
          intro hEq
          apply hNodup.1
          rw [hEq]
          exact List.mem_map_of_mem hTail
        rw [history, List.filter_cons_of_neg (by simpa)]
        exact ih hNodup.2 hTail

/- The last entry of a mapped log is the mapped last entry. -/
theorem latest_map
    {γ : Type}
    (f : γ → α)
    (log : List γ)
    (k : κ) :
    latest key (log.map f) k =
      (latest (fun entry => key (f entry)) log k).map f := by
  induction log with
  | nil => rfl
  | cons entry log ih =>
      rw [List.map_cons, latest_cons, latest_cons, ih]
      cases latest (fun entry => key (f entry)) log k with
      | some last => rfl
      | none =>
          by_cases hKey : key (f entry) = k <;> simp [hKey]

end KeyedLog

------------------------------------------------------------
-- Latest Entries in Log Order
------------------------------------------------------------

namespace KeyedLog

variable {α κ : Type} [DecidableEq κ]
variable {key : α → κ}

/- The latest entries keep their relative log order. -/
theorem latests_sublist
    (log : List α) :
    (latests key log).Sublist log := by
  induction log with
  | nil => simp [latests]
  | cons entry log ih =>
      rw [latests]
      split
      · exact ih.cons_cons entry
      · exact ih.cons entry

/- An entry is listed exactly when it is its key's last. -/
theorem mem_latests_iff
    {log : List α}
    {entry : α} :
    entry ∈ latests key log ↔
      latest key log (key entry) = some entry := by
  induction log with
  | nil => simp [latests]
  | cons head log ih =>
      rw [latests, latest_cons]
      by_cases hHead : latest key log (key head) = none
      · rw [if_pos hHead, List.mem_cons, ih]
        by_cases hKey : key head = key entry
        · rw [hKey] at hHead
          simp [hHead, hKey, eq_comm]
        · have hNe : entry ≠ head := by
            rintro rfl
            exact hKey rfl
          simp [hNe, hKey]
      · rw [if_neg hHead, ih]
        by_cases hKey : key head = key entry
        · rw [hKey] at hHead
          rcases Option.ne_none_iff_exists'.mp hHead with
            ⟨last, hLast⟩
          simp [hLast]
        · simp [hKey]

/- Every key occurs at most once among the latest entries. -/
theorem latests_keys_nodup
    (log : List α) :
    ((latests key log).map key).Nodup := by
  induction log with
  | nil => simp [latests]
  | cons entry log ih =>
      rw [latests]
      split
      · next hNone =>
          rw [List.map_cons, List.nodup_cons]
          refine ⟨?_, ih⟩
          intro hMem
          rcases List.mem_map.mp hMem with
            ⟨other, hOther, hKey⟩
          have hLatest := mem_latests_iff.mp hOther
          rw [hKey, hNone] at hLatest
          simp at hLatest
      · exact ih

/- Later entries replace the earlier ones of their keys. -/
theorem latests_append
    (left right : List α) :
    latests key (left ++ right) =
      (latests key left).filter
          (fun entry =>
            (latest key right (key entry)).isNone) ++
        latests key right := by
  induction left with
  | nil => simp [latests]
  | cons head left ih =>
      rw [List.cons_append, latests, latests, ih,
        latest_append]
      cases hRight : latest key right (key head) with
      | some last =>
          by_cases hLeft : latest key left (key head) = none
          · simp [hLeft, hRight]
          · simp [hLeft]
      | none =>
          by_cases hLeft : latest key left (key head) = none
          · simp [hLeft, hRight]
          · simp [hLeft]

theorem latests_append_singleton
    (log : List α)
    (entry : α) :
    latests key (log ++ [entry]) =
      (latests key log).filter
          (fun other => key other ≠ key entry) ++
        [entry] := by
  rw [latests_append]
  congr 1
  apply List.filter_congr
  intro other _
  by_cases hKey : key entry = key other
  · simp [latest, history_singleton, hKey]
  · simp [latest, history_singleton, hKey, Ne.symm hKey]

/- With distinct keys every entry is its key's last. -/
theorem latest_eq_some_iff_of_nodup
    {log : List α}
    (hNodup : (log.map key).Nodup)
    {k : κ}
    {entry : α} :
    latest key log k = some entry ↔
      entry ∈ log ∧ key entry = k := by
  constructor
  · exact latest_mem
  · rintro ⟨hMem, hKey⟩
    have hSome : latest key log k ≠ none := by
      rw [Ne, latest_eq_none_iff]
      intro hAll
      exact hAll entry hMem hKey
    rcases Option.ne_none_iff_exists'.mp hSome with
      ⟨other, hOther⟩
    have hLast := latest_mem hOther
    have hSame : other = entry :=
      List.inj_on_of_nodup_map hNodup hLast.1 hMem
        (by rw [hLast.2, hKey])
    rw [hOther, hSame]

/- Dropping overwritten entries keeps the last ones. -/
theorem latest_latests
    (log : List α)
    (k : κ) :
    latest key (latests key log) k = latest key log k := by
  ext entry
  rw [latest_eq_some_iff_of_nodup (latests_keys_nodup log),
    mem_latests_iff]
  constructor
  · rintro ⟨hLatest, rfl⟩
    exact hLatest
  · intro hLatest
    have hKey := (latest_mem hLatest).2
    rw [hKey]
    exact ⟨hLatest, rfl⟩

end KeyedLog

------------------------------------------------------------
-- Last-Writer Maps
------------------------------------------------------------

namespace KeyedLog

variable {α κ ν : Type} [DecidableEq κ] [Ord κ]
variable [Std.TransOrd κ] [Std.LawfulEqOrd κ]

/- The map left by inserting every entry in log order. -/
def lastWriter
    (key : α → κ)
    (value : α → ν)
    (log : List α) : Std.ExtTreeMap κ ν :=
  log.foldl
    (fun map entry => map.insert (key entry) (value entry))
    ∅

/- Inserting only when absent keeps an old value. -/
theorem getElem?_insertIfNew_eq_or
    (map : Std.ExtTreeMap κ ν)
    (k other : κ)
    (v : ν) :
    (map.insertIfNew k v)[other]? =
      map[other]?.or (if k = other then some v else none) := by
  rw [Std.ExtTreeMap.getElem?_insertIfNew]
  by_cases hKey : k = other
  · subst hKey
    by_cases hMem : k ∈ map
    · rw [if_neg (by simp [hMem])]
      rcases Option.isSome_iff_exists.mp
        (Std.ExtTreeMap.isSome_getElem?_iff_mem.mpr hMem)
        with ⟨old, hOld⟩
      simp [hOld]
    · rw [if_pos ⟨Std.ReflCmp.compare_self, hMem⟩,
        Std.ExtTreeMap.getElem?_eq_none hMem]
      simp
  · rw [if_neg (by simp [hKey])]
    simp [hKey]

variable {key : α → κ} {value : α → ν}

/- Insertion in log order keeps the latest value. -/
theorem getElem?_foldl_insert
    (log : List α)
    (map : Std.ExtTreeMap κ ν)
    (k : κ) :
    (log.foldl
        (fun map entry =>
          map.insert (key entry) (value entry)) map)[k]? =
      ((latest key log k).map value).or map[k]? := by
  induction log generalizing map with
  | nil => simp
  | cons entry log ih =>
      rw [List.foldl_cons, ih, latest_cons,
        Std.ExtTreeMap.getElem?_insert]
      by_cases hKey : key entry = k
      · cases latest key log k <;> simp [hKey]
      · have hCompare :
            compare (key entry) k ≠ .eq := by
          simpa using hKey
        cases latest key log k <;>
          simp [hKey]

theorem getElem?_lastWriter
    (log : List α)
    (k : κ) :
    (lastWriter key value log)[k]? =
      (latest key log k).map value := by
  rw [lastWriter, getElem?_foldl_insert]
  simp

/-
  Sorting a last-writer map by position replays the latest
  entries in log order, when positions increase in the log.
-/
theorem insertionSort_lastWriter
    [LinearOrder ν]
    {log : List α}
    (hSorted :
      log.Pairwise
        (fun left right => value left < value right)) :
    (lastWriter key value log).toList.insertionSort
        (fun left right => left.2 ≤ right.2) =
      (latests key log).map
        (fun entry => (key entry, value entry)) := by
  have hLatests :
      (latests key log).Pairwise
        (fun left right => value left < value right) :=
    hSorted.sublist (latests_sublist log)
  have hRight :
      ((latests key log).map
        (fun entry => (key entry, value entry))).Pairwise
          (fun left right => left.2 < right.2) := by
    rw [List.pairwise_map]
    exact hLatests
  have hMem :
      ∀ pair,
        pair ∈ (lastWriter key value log).toList ↔
          pair ∈ (latests key log).map
            (fun entry => (key entry, value entry)) := by
    rintro ⟨k, v⟩
    rw [Std.ExtTreeMap.mem_toList_iff_getElem?_eq_some,
      getElem?_lastWriter, List.mem_map]
    constructor
    · intro hGet
      rcases Option.map_eq_some_iff.mp hGet with
        ⟨entry, hLatest, rfl⟩
      have hKey := (latest_mem hLatest).2
      refine ⟨entry, ?_, by rw [hKey]⟩
      rw [mem_latests_iff, hKey]
      exact hLatest
    · rintro ⟨entry, hEntry, hPair⟩
      rw [Prod.mk.injEq] at hPair
      rcases hPair with ⟨rfl, rfl⟩
      rw [mem_latests_iff.mp hEntry]
      rfl
  have hNodup :
      (lastWriter key value log).toList.Nodup := by
    have hDistinct :=
      Std.ExtTreeMap.distinct_keys_toList
        (t := lastWriter key value log)
    refine hDistinct.imp ?_
    intro left right hNe hEq
    rw [hEq] at hNe
    simp at hNe
  have hPerm :
      (lastWriter key value log).toList.Perm
        ((latests key log).map
          (fun entry => (key entry, value entry))) := by
    apply (List.perm_ext_iff_of_nodup hNodup ?_).mpr hMem
    refine hRight.imp ?_
    intro left right hLt hEq
    rw [hEq] at hLt
    exact lt_irrefl _ hLt
  refine List.Perm.eq_of_pairwise ?_
    (List.pairwise_insertionSort _ _)
    (hRight.imp le_of_lt)
    ((List.perm_insertionSort _ _).trans hPerm)
  · intro left right hLeft hRightMem hLe hGe
    have hLeft' :=
      hPerm.mem_iff.mp
        ((List.mem_insertionSort _).mp hLeft)
    have hEq := le_antisymm hLe hGe
    -- Positions are pairwise distinct, so they name entries.
    have hPositions :
        (((latests key log).map
          (fun entry => (key entry, value entry))).map
            Prod.snd).Nodup := by
      rw [List.Nodup, List.pairwise_map]
      exact hRight.imp ne_of_lt
    exact
      List.inj_on_of_nodup_map hPositions
        hLeft' hRightMem hEq

end KeyedLog
