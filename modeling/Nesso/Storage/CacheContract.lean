import Nesso.Library.Transition
import Nesso.Storage.PayloadCache

/-
  What the payload cache holds after any operations that
  insert no id twice.

  `remove` leaves stale ids in `order`.  The cached ids are
  in it in the order of their insertion, so the eviction loop
  meets the oldest cached id first.

  Key definitions include:
    * `CacheTrace`
    * `CacheOp`
    * `Held`
    * `CacheTrace.Contract`
    * `CacheTrace.Represents`

  The main theorems are:
    * `PayloadCache.insert_overflow`
    * `CacheTrace.Represents.step`
    * `cacheRun_contract`
    * `zero_capacity_drops_payload`
-/

------------------------------------------------------------
-- Operations and Their History
------------------------------------------------------------

namespace Nesso

inductive CacheOp where
| insert (id : UInt64) (payload : Bytes)
| get (id : UInt64)
| remove (id : UInt64)
| clear

inductive CacheEvent where
| inserted (id : UInt64) (payload : Bytes)
| removed (id : UInt64)
| cleared
| evicted (id : UInt64)
deriving DecidableEq

/- Whether the event takes the id out of the cache. -/
def CacheEvent.drops (id : UInt64) : CacheEvent → Bool
| .inserted _ _ => false
| .removed other => other = id
| .cleared => true
| .evicted other => other = id

/- The id was inserted and not dropped since. -/
def Held
    (history : List CacheEvent)
    (id : UInt64)
    (payload : Bytes) : Prop :=
  ∃ front back,
    history = front ++ .inserted id payload :: back ∧
      ∀ event ∈ back, event.drops id = false

/- All ids that were inserted, the oldest first. -/
def insertedIds (history : List CacheEvent) : List UInt64 :=
  history.filterMap (fun event =>
    match event with
    | .inserted id _ => some id
    | _ => none)

/- `history` is not known to the program. -/
structure CacheTrace where
  cache : PayloadCache
  history : List CacheEvent

/- The cached ids that an insertion has dropped. -/
def PayloadCache.evictedBy
    (cache next : PayloadCache) : List UInt64 :=
  cache.entries.keys.filter (· ∉ next.entries)

namespace CacheTrace

def start (capacity : Nat) : CacheTrace where
  cache := .new capacity
  history := []

def step (trace : CacheTrace) : CacheOp → Option CacheTrace
| .insert id payload =>
    let next := trace.cache.insert id payload
    some
      { cache := next
        history :=
          trace.history ++
            .inserted id payload ::
              (trace.cache.evictedBy next).map .evicted }
| .get id =>
    some { trace with cache := (trace.cache.get id).2 }
| .remove id =>
    some
      { cache := trace.cache.remove id
        history := trace.history ++ [.removed id] }
| .clear =>
    some
      { cache := trace.cache.clear
        history := trace.history ++ [.cleared] }

end CacheTrace

/- No id is inserted twice. -/
def CacheOp.Fresh (trace : CacheTrace) : CacheOp → Prop
| .insert id _ => id ∉ insertedIds trace.history
| _ => True

instance
    (trace : CacheTrace)
    (op : CacheOp) :
    Decidable (op.Fresh trace) :=
  match op with
  | .insert .. => inferInstanceAs (Decidable (_ ∉ _))
  | .get .. => isTrue trivial
  | .remove .. => isTrue trivial
  | .clear => isTrue trivial

def CacheRun (capacity : Nat) :
    List CacheOp → CacheTrace → Prop :=
  Transition.Run CacheTrace.step
    (fun trace op => op.Fresh trace)
    (CacheTrace.start capacity)

/-
  The cached ids, the oldest first, are what `order` says,
  and an insertion drops the first of them if and only if the
  cache overflows.  A cache without capacity stays empty.
-/
structure CacheTrace.Contract
    (trace : CacheTrace) : Prop where
  bounded : trace.cache.entries.size ≤ trace.cache.capacity
  once :
    ∀ id ∈ trace.cache.entries,
      trace.cache.order.count id = 1
  in_order :
    trace.cache.order.filter (· ∈ trace.cache.entries) =
      (insertedIds trace.history).filter
        (· ∈ trace.cache.entries)
  order_le :
    ∀ id payload, id ∉ insertedIds trace.history →
      (trace.cache.insert id payload).order.length ≤
        2 * trace.cache.capacity
  fits :
    ∀ id payload, id ∉ insertedIds trace.history →
      (trace.cache.entries.insert id payload).size ≤
          trace.cache.capacity →
        (trace.cache.insert id payload).entries =
            trace.cache.entries.insert id payload ∧
          (trace.cache.insert id payload).evictions =
            trace.cache.evictions
  overflows :
    ∀ id payload, id ∉ insertedIds trace.history →
      trace.cache.capacity ≠ 0 →
        trace.cache.capacity <
            (trace.cache.entries.insert id payload).size →
          ∃ oldest,
            ((insertedIds trace.history).filter
                (· ∈ trace.cache.entries)).head? =
              some oldest ∧
              (trace.cache.insert id payload).entries =
                (trace.cache.entries.insert id
                  payload).erase oldest ∧
              (trace.cache.insert id payload).evictions =
                trace.cache.evictions + 1
  get_iff :
    trace.cache.capacity ≠ 0 →
      ∀ id payload,
        (trace.cache.get id).1 = some payload ↔
          Held trace.history id payload
  without_capacity :
    trace.cache.capacity = 0 →
      (∀ id, (trace.cache.get id).1 = none) ∧
        ∀ id payload,
          trace.cache.insert id payload = trace.cache

end Nesso

------------------------------------------------------------
-- Histories
------------------------------------------------------------

namespace Nesso

theorem held_append_singleton
    {history : List CacheEvent}
    {event : CacheEvent}
    {id : UInt64}
    {payload : Bytes} :
    Held (history ++ [event]) id payload ↔
      event = .inserted id payload ∨
        Held history id payload ∧
          event.drops id = false := by
  constructor
  · rintro ⟨front, back, hHistory, hKept⟩
    rcases List.eq_nil_or_concat back with
      rfl | ⟨rest, last, rfl⟩
    · have hLast := List.append_inj_right' hHistory rfl
      exact .inl (List.singleton_inj.mp hLast)
    · rw [List.concat_eq_append, ← List.cons_append,
        ← List.append_assoc] at hHistory
      have hLast := List.append_inj_right' hHistory rfl
      have hRest := List.append_inj_left' hHistory rfl
      rw [List.concat_eq_append] at hKept
      refine .inr ⟨⟨front, rest, hRest, ?_⟩, ?_⟩
      · intro found hFound
        exact hKept found (List.mem_append_left _ hFound)
      · rw [List.singleton_inj.mp hLast]
        exact hKept last (by simp)
  · rintro (rfl | ⟨⟨front, back, hHistory, hKept⟩, hDrops⟩)
    · exact ⟨history, [], rfl, by simp⟩
    · refine ⟨front, back ++ [event], ?_, ?_⟩
      · rw [hHistory]
        simp
      · intro found hFound
        rcases List.mem_append.mp hFound with hOld | hNew
        · exact hKept found hOld
        · rw [List.mem_singleton.mp hNew]
          exact hDrops

theorem insertedIds_append
    (left right : List CacheEvent) :
    insertedIds (left ++ right) =
      insertedIds left ++ insertedIds right := by
  simp [insertedIds]

theorem insertedIds_evicted (ids : List UInt64) :
    insertedIds (ids.map .evicted) = [] := by
  simp [insertedIds]

/- Evictions drop what they name. -/
theorem held_append_evicted
    {history : List CacheEvent}
    {ids : List UInt64}
    {id : UInt64}
    {payload : Bytes} :
    Held (history ++ ids.map .evicted) id payload ↔
      Held history id payload ∧ id ∉ ids := by
  induction ids using List.reverseRecOn with
  | nil => simp
  | append_singleton ids last ih =>
      rw [List.map_append, List.map_singleton,
        ← List.append_assoc, held_append_singleton, ih]
      simp only [reduceCtorEq, false_or, CacheEvent.drops,
        decide_eq_false_iff_not, List.mem_append,
        List.mem_singleton, not_or, and_assoc]
      exact and_congr_right (fun _ =>
        and_congr_right (fun _ => ne_comm))

theorem Held.mem_insertedIds
    {history : List CacheEvent}
    {id : UInt64}
    {payload : Bytes}
    (hHeld : Held history id payload) :
    id ∈ insertedIds history := by
  rcases hHeld with ⟨front, back, hHistory, _⟩
  rw [hHistory, insertedIds_append]
  simp [insertedIds]

end Nesso

------------------------------------------------------------
-- Inserting and Evicting
------------------------------------------------------------

namespace Nesso

namespace PayloadCache

variable {cache : PayloadCache}

/- Every cached id is in `order`, which has no id twice. -/
structure Ordered (cache : PayloadCache) : Prop where
  nodup : cache.order.Nodup
  known : ∀ id ∈ cache.entries, id ∈ cache.order

/- The hygiene pass at the end of `insert`. -/
def tidy (cache : PayloadCache) : PayloadCache :=
  if cache.capacity * 2 < cache.order.length then
    { cache with
      order := cache.order.filter (· ∈ cache.entries) }
  else
    cache

theorem capacity_evict
    (cache : PayloadCache)
    (order : List UInt64) :
    (cache.evict order).capacity = cache.capacity := by
  induction order with
  | nil => rfl
  | cons oldest order ih =>
      unfold evict
      split
      · split
        · rfl
        · exact ih
      · rfl

/- Nothing is evicted from a cache that is not too large. -/
theorem evict_of_fits
    (hFits : cache.entries.size ≤ cache.capacity)
    (order : List UInt64) :
    cache.evict order = { cache with order := order } := by
  cases order with
  | nil => rfl
  | cons oldest order =>
      unfold evict
      rw [if_neg (Nat.not_lt.mpr hFits)]

/- The loop skips stale ids and stops at a cached one. -/
theorem evict_of_overflow
    (hOverflow : cache.capacity < cache.entries.size)
    {stale rest : List UInt64}
    {oldest : UInt64}
    (hStale : ∀ id ∈ stale, id ∉ cache.entries)
    (hCached : oldest ∈ cache.entries) :
    cache.evict (stale ++ oldest :: rest) =
      { cache with
        entries := cache.entries.erase oldest
        order := rest
        evictions := cache.evictions + 1 } := by
  induction stale with
  | nil =>
      rw [List.nil_append, evict, if_pos hOverflow,
        if_pos hCached]
  | cons id stale ih =>
      rw [List.cons_append, evict, if_pos hOverflow,
        if_neg (hStale id (by simp))]
      exact ih (fun other hOther =>
        hStale other (List.mem_cons_of_mem _ hOther))

theorem insert_eq_tidy
    (hCapacity : cache.capacity ≠ 0)
    {id : UInt64}
    (hNew : id ∉ cache.entries)
    (payload : Bytes) :
    cache.insert id payload =
      (evict
        { cache with
          entries := cache.entries.insert id payload }
        (cache.order ++ [id])).tidy := by
  rw [insert, if_neg hCapacity]
  simp only [if_neg hNew, tidy, capacity_evict]

theorem insert_without_capacity
    (hCapacity : cache.capacity = 0)
    (id : UInt64)
    (payload : Bytes) :
    cache.insert id payload = cache := by
  rw [insert, if_pos hCapacity]

theorem capacity_insert
    (cache : PayloadCache)
    (id : UInt64)
    (payload : Bytes) :
    (cache.insert id payload).capacity = cache.capacity := by
  unfold insert
  dsimp only
  generalize
    (if id ∈ cache.entries then cache.order
      else cache.order ++ [id]) = order
  split
  · rfl
  · split
    · exact capacity_evict _ _
    · exact capacity_evict _ _

theorem size_insert_of_not_mem
    {id : UInt64}
    (hNew : id ∉ cache.entries)
    (payload : Bytes) :
    (cache.entries.insert id payload).size =
      cache.entries.size + 1 := by
  rw [Std.ExtTreeMap.size_insert]
  exact if_neg hNew

/- The cached ids in `order` are all there are. -/
theorem Ordered.filter_perm_keys
    (hOrdered : cache.Ordered) :
    (cache.order.filter (· ∈ cache.entries)).Perm
      cache.entries.keys := by
  rw [List.perm_ext_iff_of_nodup
    (hOrdered.nodup.filter _) Std.ExtTreeMap.nodup_keys]
  intro id
  rw [List.mem_filter, Std.ExtTreeMap.mem_keys,
    decide_eq_true_eq]
  exact ⟨And.right, fun hMem =>
    ⟨hOrdered.known id hMem, hMem⟩⟩

theorem Ordered.length_filter
    (hOrdered : cache.Ordered) :
    (cache.order.filter (· ∈ cache.entries)).length =
      cache.entries.size := by
  rw [hOrdered.filter_perm_keys.length_eq,
    Std.ExtTreeMap.length_keys]

/- The first cached id in a cache that is full. -/
theorem Ordered.exists_oldest
    (hOrdered : cache.Ordered)
    (hSome : 0 < cache.entries.size) :
    ∃ stale oldest rest,
      cache.order = stale ++ oldest :: rest ∧
        (∀ id ∈ stale, id ∉ cache.entries) ∧
        oldest ∈ cache.entries ∧
        (cache.order.filter
          (· ∈ cache.entries)).head? = some oldest := by
  cases hHeld : cache.order.filter (· ∈ cache.entries) with
  | nil =>
      have hLength := hOrdered.length_filter
      rw [hHeld] at hLength
      exact absurd hLength.symm (Nat.ne_of_gt hSome)
  | cons oldest others =>
      rcases List.filter_eq_cons_iff.mp hHeld with
        ⟨stale, rest, hOrder, hStale, hOldest, _⟩
      refine ⟨stale, oldest, rest, hOrder, ?_, ?_, rfl⟩
      · simpa using hStale
      · exact of_decide_eq_true hOldest

/- An insertion without overflow. -/
theorem insert_fits
    (hCapacity : cache.capacity ≠ 0)
    {id : UInt64}
    (hNew : id ∉ cache.entries)
    (payload : Bytes)
    (hFits : cache.entries.size < cache.capacity) :
    cache.insert id payload =
      tidy
        { cache with
          entries := cache.entries.insert id payload
          order := cache.order ++ [id] } := by
  rw [insert_eq_tidy hCapacity hNew, evict_of_fits]
  rw [size_insert_of_not_mem hNew]
  exact hFits

/- An insertion into a full cache. -/
theorem insert_overflow
    (hCapacity : cache.capacity ≠ 0)
    {id : UInt64}
    (hNew : id ∉ cache.entries)
    (hFresh : id ∉ cache.order)
    (payload : Bytes)
    (hFull : cache.capacity ≤ cache.entries.size)
    {stale rest : List UInt64}
    {oldest : UInt64}
    (hOrder : cache.order = stale ++ oldest :: rest)
    (hStale : ∀ id ∈ stale, id ∉ cache.entries)
    (hOldest : oldest ∈ cache.entries) :
    cache.insert id payload =
      tidy
        { cache with
          entries :=
            (cache.entries.insert id payload).erase oldest
          order := rest ++ [id]
          evictions := cache.evictions + 1 } := by
  rw [insert_eq_tidy hCapacity hNew, hOrder,
    List.append_assoc, List.cons_append, evict_of_overflow]
  · rw [size_insert_of_not_mem hNew]
    exact Nat.lt_succ_of_le hFull
  · intro other hOther hMem
    rw [Std.ExtTreeMap.mem_insert,
      Std.LawfulEqOrd.compare_eq_iff_eq] at hMem
    rcases hMem with hEq | hMem
    · apply hFresh
      rw [hOrder, hEq]
      exact List.mem_append_left _ hOther
    · exact hStale other hOther hMem
  · rw [Std.ExtTreeMap.mem_insert]
    exact .inr hOldest

@[simp] theorem entries_tidy (cache : PayloadCache) :
    cache.tidy.entries = cache.entries := by
  unfold tidy
  split <;> rfl

@[simp] theorem evictions_tidy (cache : PayloadCache) :
    cache.tidy.evictions = cache.evictions := by
  unfold tidy
  split <;> rfl

theorem order_tidy_sublist (cache : PayloadCache) :
    cache.tidy.order.Sublist cache.order := by
  unfold tidy
  split
  · exact List.filter_sublist
  · exact List.Sublist.refl _

/- The hygiene pass drops no cached id. -/
theorem Ordered.tidy
    (hOrdered : cache.Ordered) :
    cache.tidy.Ordered := by
  constructor
  · exact hOrdered.nodup.sublist cache.order_tidy_sublist
  · intro id hMem
    rw [entries_tidy] at hMem
    unfold PayloadCache.tidy
    split
    · exact List.mem_filter.mpr
        ⟨hOrdered.known id hMem, decide_eq_true hMem⟩
    · exact hOrdered.known id hMem

theorem Ordered.length_order_tidy
    (hOrdered : cache.Ordered)
    (hBounded : cache.entries.size ≤ cache.capacity) :
    cache.tidy.order.length ≤ 2 * cache.capacity := by
  unfold PayloadCache.tidy
  split
  · have hLength := hOrdered.length_filter
    dsimp only
    omega
  · omega

end PayloadCache

end Nesso

------------------------------------------------------------
-- Traces
------------------------------------------------------------

namespace Nesso

namespace CacheTrace

/- The queue lists inserted ids in order, and the cached. -/
structure Represents (trace : CacheTrace) : Prop where
  ids_nodup : (insertedIds trace.history).Nodup
  sublist :
    trace.cache.order.Sublist (insertedIds trace.history)
  known :
    ∀ id ∈ trace.cache.entries, id ∈ trace.cache.order
  bounded : trace.cache.entries.size ≤ trace.cache.capacity
  idle :
    trace.cache.capacity = 0 → trace.cache.order = []
  held :
    trace.cache.capacity ≠ 0 →
      ∀ id payload,
        trace.cache.entries[id]? = some payload ↔
          Held trace.history id payload

namespace Represents

variable {trace : CacheTrace}

theorem start (capacity : Nat) :
    (CacheTrace.start capacity).Represents := by
  constructor
  · exact List.nodup_nil
  · exact List.Sublist.refl _
  · simp [CacheTrace.start, PayloadCache.new]
  · simp [CacheTrace.start, PayloadCache.new]
  · simp [CacheTrace.start, PayloadCache.new]
  · simp [CacheTrace.start, PayloadCache.new, Held]

theorem ordered
    (hTrace : trace.Represents) :
    trace.cache.Ordered where
  nodup := hTrace.ids_nodup.sublist hTrace.sublist
  known := hTrace.known

/- A fresh id is neither cached nor waiting for eviction. -/
theorem not_mem_of_fresh
    (hTrace : trace.Represents)
    {id : UInt64}
    (hFresh : id ∉ insertedIds trace.history) :
    id ∉ trace.cache.order ∧ id ∉ trace.cache.entries := by
  have hOrder : id ∉ trace.cache.order :=
    fun hMem => hFresh (hTrace.sublist.subset hMem)
  exact ⟨hOrder, fun hMem => hOrder (hTrace.known id hMem)⟩

/- The cached ids are in the order of their insertion. -/
theorem filter_order
    (hTrace : trace.Represents) :
    trace.cache.order.filter (· ∈ trace.cache.entries) =
      (insertedIds trace.history).filter
        (· ∈ trace.cache.entries) := by
  apply (hTrace.sublist.filter _).eq_of_length_le
  apply (hTrace.ids_nodup.filter _).subperm _ |>.length_le
  intro id hMem
  rw [List.mem_filter, decide_eq_true_eq] at hMem ⊢
  exact ⟨hTrace.known id hMem.2, hMem.2⟩

/- What the insertion of a fresh id does. -/
theorem insert_cases
    (hTrace : trace.Represents)
    (hCapacity : trace.cache.capacity ≠ 0)
    {id : UInt64}
    (hFresh : id ∉ insertedIds trace.history)
    (payload : Bytes) :
    (trace.cache.entries.size < trace.cache.capacity ∧
        trace.cache.insert id payload =
          PayloadCache.tidy
            { trace.cache with
              entries :=
                trace.cache.entries.insert id payload
              order := trace.cache.order ++ [id] }) ∨
      ∃ stale oldest rest,
        trace.cache.entries.size = trace.cache.capacity ∧
          trace.cache.order = stale ++ oldest :: rest ∧
          (∀ id ∈ stale, id ∉ trace.cache.entries) ∧
          oldest ∈ trace.cache.entries ∧
          (trace.cache.order.filter
              (· ∈ trace.cache.entries)).head? =
            some oldest ∧
          trace.cache.insert id payload =
            PayloadCache.tidy
              { trace.cache with
                entries :=
                  (trace.cache.entries.insert id
                    payload).erase oldest
                order := rest ++ [id]
                evictions := trace.cache.evictions + 1 } := by
  rcases hTrace.not_mem_of_fresh hFresh with
    ⟨hOrder, hNew⟩
  have hBounded := hTrace.bounded
  by_cases hFits :
      trace.cache.entries.size < trace.cache.capacity
  · exact .inl ⟨hFits,
      PayloadCache.insert_fits hCapacity hNew payload hFits⟩
  · have hFull :
        trace.cache.entries.size = trace.cache.capacity := by
      omega
    rcases hTrace.ordered.exists_oldest (by omega) with
      ⟨stale, oldest, rest, hSplit, hStale, hOldest, hHead⟩
    refine .inr ⟨stale, oldest, rest, hFull, hSplit, hStale,
      hOldest, hHead, ?_⟩
    exact PayloadCache.insert_overflow hCapacity hNew hOrder
      payload hFull.ge hSplit hStale hOldest

/- The entries after the insertion of a fresh id. -/
theorem getElem?_insert
    (hTrace : trace.Represents)
    (hCapacity : trace.cache.capacity ≠ 0)
    {id : UInt64}
    (hFresh : id ∉ insertedIds trace.history)
    {payload found : Bytes}
    {other : UInt64} :
    (trace.cache.insert id payload).entries[other]? =
        some found ↔
      (trace.cache.entries.insert id payload)[other]? =
          some found ∧
        other ∉
          trace.cache.evictedBy
            (trace.cache.insert id payload) := by
  rcases hTrace.not_mem_of_fresh hFresh with ⟨_, hNew⟩
  rw [PayloadCache.evictedBy, List.mem_filter,
    Std.ExtTreeMap.mem_keys, decide_eq_true_eq]
  rcases hTrace.insert_cases hCapacity hFresh payload with
    ⟨_, hInsert⟩ |
    ⟨stale, oldest, rest, _, _, _, hOldest, _, hInsert⟩
  · rw [hInsert, PayloadCache.entries_tidy]
    simp only [Std.ExtTreeMap.mem_insert]
    tauto
  · rw [hInsert, PayloadCache.entries_tidy]
    simp only [Std.ExtTreeMap.getElem?_erase,
      Std.ExtTreeMap.mem_erase, Std.ExtTreeMap.mem_insert,
      ne_eq, Std.LawfulEqOrd.compare_eq_iff_eq]
    by_cases hEq : oldest = other
    · subst hEq
      simp [hOldest]
    · rw [if_neg hEq]
      tauto

/- The order after the insertion of a fresh id. -/
theorem order_insert_sublist
    (hTrace : trace.Represents)
    (hCapacity : trace.cache.capacity ≠ 0)
    {id : UInt64}
    (hFresh : id ∉ insertedIds trace.history)
    (payload : Bytes) :
    (trace.cache.insert id payload).order.Sublist
      (insertedIds trace.history ++ [id]) := by
  rcases hTrace.insert_cases hCapacity hFresh payload with
    ⟨_, hInsert⟩ |
    ⟨stale, oldest, rest, _, hOrder, _, _, _, hInsert⟩
  · rw [hInsert]
    exact (PayloadCache.order_tidy_sublist _).trans
      (hTrace.sublist.append_right _)
  · rw [hInsert]
    have hRest : rest.Sublist trace.cache.order := by
      rw [hOrder]
      exact ((List.Sublist.refl rest).cons oldest).trans
        (List.sublist_append_right stale _)
    exact (PayloadCache.order_tidy_sublist _).trans
      ((hRest.trans hTrace.sublist).append_right _)

/- An insertion keeps the cached ids in order. -/
theorem ordered_insert
    (hTrace : trace.Represents)
    (hCapacity : trace.cache.capacity ≠ 0)
    {id : UInt64}
    (hFresh : id ∉ insertedIds trace.history)
    (payload : Bytes) :
    (trace.cache.insert id payload).Ordered ∧
      (trace.cache.insert id payload).entries.size ≤
        trace.cache.capacity ∧
      (trace.cache.insert id payload).order.length ≤
        2 * trace.cache.capacity := by
  rcases hTrace.not_mem_of_fresh hFresh with
    ⟨hOrder, hNew⟩
  have hNodup := hTrace.ordered.nodup
  rcases hTrace.insert_cases hCapacity hFresh payload with
    ⟨hFits, hInsert⟩ |
    ⟨stale, oldest, rest, hFull, hSplit, hStale, hOldest, _,
      hInsert⟩
  · have hSize :=
      PayloadCache.size_insert_of_not_mem hNew payload
    have hOrdered :
        PayloadCache.Ordered
          { trace.cache with
            entries := trace.cache.entries.insert id payload
            order := trace.cache.order ++ [id] } := by
      constructor
      · exact hNodup.append (List.nodup_singleton id)
          (by simpa using hOrder)
      · intro other hMem
        rw [Std.ExtTreeMap.mem_insert,
          Std.LawfulEqOrd.compare_eq_iff_eq] at hMem
        rcases hMem with hEq | hMem
        · simp [hEq]
        · exact List.mem_append_left _
            (hTrace.known other hMem)
    rw [hInsert]
    refine ⟨hOrdered.tidy, ?_,
      hOrdered.length_order_tidy ?_⟩
    · rw [PayloadCache.entries_tidy]
      exact hSize.trans_le hFits
    · exact hSize.trans_le hFits
  · have hSize :
        ((trace.cache.entries.insert id payload).erase
          oldest).size = trace.cache.entries.size := by
      have hInserted :=
        PayloadCache.size_insert_of_not_mem hNew payload
      have hMem :
          oldest ∈ trace.cache.entries.insert id payload := by
        rw [Std.ExtTreeMap.mem_insert]
        exact .inr hOldest
      rw [Std.ExtTreeMap.size_erase]
      refine (if_pos hMem).trans ?_
      omega
    rw [hSplit] at hNodup hOrder
    have hRest : (oldest :: rest).Nodup :=
      hNodup.sublist (List.sublist_append_right stale _)
    have hOrdered :
        PayloadCache.Ordered
          { trace.cache with
            entries :=
              (trace.cache.entries.insert id payload).erase
                oldest
            order := rest ++ [id]
            evictions := trace.cache.evictions + 1 } := by
      constructor
      · refine (List.nodup_cons.mp hRest).2.append
          (List.nodup_singleton id) ?_
        rw [List.disjoint_singleton]
        intro hMem
        exact hOrder (List.mem_append_right _
          (List.mem_cons_of_mem _ hMem))
      · intro other hMem
        rw [Std.ExtTreeMap.mem_erase,
          Std.ExtTreeMap.mem_insert, ne_eq,
          Std.LawfulEqOrd.compare_eq_iff_eq,
          Std.LawfulEqOrd.compare_eq_iff_eq] at hMem
        rcases hMem with ⟨hNe, hEq | hMem⟩
        · simp [hEq]
        · have hKnown := hTrace.known other hMem
          rw [hSplit] at hKnown
          rcases List.mem_append.mp hKnown with hIn | hIn
          · exact (hStale other hIn hMem).elim
          · rcases List.mem_cons.mp hIn with hEq | hIn
            · exact (hNe hEq.symm).elim
            · exact List.mem_append_left _ hIn
    rw [hInsert]
    refine ⟨hOrdered.tidy, ?_,
      hOrdered.length_order_tidy ?_⟩
    · rw [PayloadCache.entries_tidy]
      exact (hSize.trans hFull).le
    · exact (hSize.trans hFull).le

/- The history after the insertion of a fresh id. -/
theorem held_insert
    (hTrace : trace.Represents)
    (hCapacity : trace.cache.capacity ≠ 0)
    {id : UInt64}
    (hFresh : id ∉ insertedIds trace.history)
    {payload found : Bytes}
    {other : UInt64} :
    (trace.cache.insert id payload).entries[other]? =
        some found ↔
      Held
        (trace.history ++
          .inserted id payload ::
            (trace.cache.evictedBy
              (trace.cache.insert id payload)).map .evicted)
        other found := by
  rw [hTrace.getElem?_insert hCapacity hFresh,
    List.append_cons, held_append_evicted,
    held_append_singleton, Std.ExtTreeMap.getElem?_insert]
  simp only [Std.LawfulEqOrd.compare_eq_iff_eq]
  apply and_congr_left
  intro _
  by_cases hEq : id = other
  · subst hEq
    have hNot : ¬ Held trace.history id found :=
      fun hHeld => hFresh hHeld.mem_insertedIds
    simp [hNot]
  · rw [if_neg hEq, hTrace.held hCapacity]
    simp [hEq, CacheEvent.drops]

theorem insert
    (hTrace : trace.Represents)
    {id : UInt64}
    (hFresh : id ∉ insertedIds trace.history)
    (payload : Bytes) :
    Represents
      { cache := trace.cache.insert id payload
        history :=
          trace.history ++
            .inserted id payload ::
              (trace.cache.evictedBy
                (trace.cache.insert id
                  payload)).map .evicted } := by
  have hIds :
      insertedIds
          (trace.history ++
            .inserted id payload ::
              (trace.cache.evictedBy
                (trace.cache.insert id
                  payload)).map .evicted) =
        insertedIds trace.history ++ [id] := by
    rw [List.append_cons, insertedIds_append,
      insertedIds_append, insertedIds_evicted,
      List.append_nil]
    rfl
  have hNodup :
      (insertedIds trace.history ++ [id]).Nodup :=
    hTrace.ids_nodup.append (List.nodup_singleton id)
      (by simpa using hFresh)
  by_cases hCapacity : trace.cache.capacity = 0
  · have hSame :=
      PayloadCache.insert_without_capacity hCapacity id
        payload
    constructor
    · rw [hIds]
      exact hNodup
    · rw [hIds, hSame]
      exact hTrace.sublist.trans
        (List.sublist_append_left _ _)
    · rw [hSame]
      exact hTrace.known
    · rw [hSame]
      exact hTrace.bounded
    · rw [hSame]
      exact hTrace.idle
    · rw [hSame]
      exact fun hSome => (hSome hCapacity).elim
  · rcases hTrace.ordered_insert hCapacity hFresh payload
      with ⟨hOrdered, hSize, _⟩
    constructor
    · rw [hIds]
      exact hNodup
    · rw [hIds]
      exact hTrace.order_insert_sublist hCapacity hFresh
        payload
    · exact hOrdered.known
    · rw [PayloadCache.capacity_insert]
      exact hSize
    · rw [PayloadCache.capacity_insert]
      exact fun hZero => (hCapacity hZero).elim
    · intro _ other found
      exact hTrace.held_insert hCapacity hFresh

theorem get
    (hTrace : trace.Represents)
    (id : UInt64) :
    Represents
      { trace with cache := (trace.cache.get id).2 } := by
  have hOrder :
      (trace.cache.get id).2.order = trace.cache.order := by
    unfold PayloadCache.get
    split <;> rfl
  have hCapacity :
      (trace.cache.get id).2.capacity =
        trace.cache.capacity := by
    unfold PayloadCache.get
    split <;> rfl
  constructor
  · exact hTrace.ids_nodup
  · rw [hOrder]
    exact hTrace.sublist
  · rw [hOrder, PayloadCache.entries_get]
    exact hTrace.known
  · rw [hCapacity, PayloadCache.entries_get]
    exact hTrace.bounded
  · rw [hCapacity, hOrder]
    exact hTrace.idle
  · rw [hCapacity, PayloadCache.entries_get]
    exact hTrace.held

/- A removal leaves the id in `order` as a stale one. -/
theorem remove
    (hTrace : trace.Represents)
    (id : UInt64) :
    Represents
      { cache := trace.cache.remove id
        history := trace.history ++ [.removed id] } := by
  have hIds :
      insertedIds (trace.history ++ [.removed id]) =
        insertedIds trace.history := by
    rw [insertedIds_append]
    exact List.append_nil _
  constructor
  · rw [hIds]
    exact hTrace.ids_nodup
  · rw [hIds]
    exact hTrace.sublist
  · intro other hMem
    exact hTrace.known other
      (Std.ExtTreeMap.mem_of_mem_erase hMem)
  · exact Std.ExtTreeMap.size_erase_le.trans hTrace.bounded
  · exact hTrace.idle
  · intro hCapacity other found
    rw [held_append_singleton,
      ← hTrace.held hCapacity other found]
    simp only [PayloadCache.remove,
      Std.ExtTreeMap.getElem?_erase,
      Std.LawfulEqOrd.compare_eq_iff_eq, reduceCtorEq,
      false_or, CacheEvent.drops, decide_eq_false_iff_not]
    by_cases hEq : id = other
    · simp [hEq]
    · simp [hEq]

theorem clear
    (hTrace : trace.Represents) :
    Represents
      { cache := trace.cache.clear
        history := trace.history ++ [.cleared] } := by
  have hIds :
      insertedIds (trace.history ++ [.cleared]) =
        insertedIds trace.history := by
    rw [insertedIds_append]
    exact List.append_nil _
  constructor
  · rw [hIds]
    exact hTrace.ids_nodup
  · exact List.nil_sublist _
  · simp [PayloadCache.clear]
  · simp [PayloadCache.clear]
  · exact fun _ => rfl
  · intro _ id payload
    rw [held_append_singleton]
    simp [PayloadCache.clear, CacheEvent.drops]

theorem step
    (hTrace : trace.Represents)
    {op : CacheOp}
    (hFresh : op.Fresh trace)
    {next : CacheTrace}
    (hNext : trace.step op = some next) :
    next.Represents := by
  cases op with
  | insert id payload =>
      rw [CacheTrace.step, Option.some.injEq] at hNext
      rw [← hNext]
      exact hTrace.insert hFresh payload
  | get id =>
      rw [CacheTrace.step, Option.some.injEq] at hNext
      rw [← hNext]
      exact hTrace.get id
  | remove id =>
      rw [CacheTrace.step, Option.some.injEq] at hNext
      rw [← hNext]
      exact hTrace.remove id
  | clear =>
      rw [CacheTrace.step, Option.some.injEq] at hNext
      rw [← hNext]
      exact hTrace.clear

/- A cache that fits its capacity only overflows when full. -/
theorem overflow
    (hTrace : trace.Represents)
    (hCapacity : trace.cache.capacity ≠ 0)
    {id : UInt64}
    (hFresh : id ∉ insertedIds trace.history)
    (payload : Bytes)
    (hOverflow :
      trace.cache.capacity <
        (trace.cache.entries.insert id payload).size) :
    ∃ oldest,
      ((insertedIds trace.history).filter
          (· ∈ trace.cache.entries)).head? = some oldest ∧
        (trace.cache.insert id payload).entries =
          (trace.cache.entries.insert id payload).erase
            oldest ∧
        (trace.cache.insert id payload).evictions =
          trace.cache.evictions + 1 := by
  rw [PayloadCache.size_insert_of_not_mem
    (hTrace.not_mem_of_fresh hFresh).2] at hOverflow
  rcases hTrace.insert_cases hCapacity hFresh payload with
    ⟨hFits, _⟩ | ⟨_, oldest, _, _, _, _, _, hHead, hInsert⟩
  · omega
  · refine ⟨oldest, ?_, ?_, ?_⟩
    · rw [← hTrace.filter_order]
      exact hHead
    · rw [hInsert, PayloadCache.entries_tidy]
    · rw [hInsert, PayloadCache.evictions_tidy]

theorem contract
    (hTrace : trace.Represents) :
    trace.Contract := by
  constructor
  · exact hTrace.bounded
  · intro id hMem
    exact List.count_eq_one_of_mem hTrace.ordered.nodup
      (hTrace.known id hMem)
  · exact hTrace.filter_order
  · intro id payload hFresh
    by_cases hCapacity : trace.cache.capacity = 0
    · rw [PayloadCache.insert_without_capacity hCapacity,
        hTrace.idle hCapacity]
      exact Nat.zero_le _
    · exact (hTrace.ordered_insert hCapacity hFresh
        payload).2.2
  · intro id payload hFresh hFits
    have hCapacity : trace.cache.capacity ≠ 0 := by
      rw [PayloadCache.size_insert_of_not_mem
        (hTrace.not_mem_of_fresh hFresh).2] at hFits
      omega
    rcases hTrace.insert_cases hCapacity hFresh payload with
      ⟨_, hInsert⟩ | ⟨_, _, _, hFull, _⟩
    · rw [hInsert, PayloadCache.entries_tidy,
        PayloadCache.evictions_tidy]
      exact ⟨rfl, rfl⟩
    · rw [PayloadCache.size_insert_of_not_mem
        (hTrace.not_mem_of_fresh hFresh).2] at hFits
      omega
  · intro id payload hFresh hCapacity hOverflow
    exact hTrace.overflow hCapacity hFresh payload hOverflow
  · intro hCapacity id payload
    rw [PayloadCache.get_fst]
    exact hTrace.held hCapacity id payload
  · intro hCapacity
    refine ⟨?_,
      PayloadCache.insert_without_capacity hCapacity⟩
    intro id
    have hSize := hTrace.bounded
    rw [hCapacity, Nat.le_zero] at hSize
    have hEmpty : trace.cache.entries = ∅ :=
      Std.ExtTreeMap.eq_empty_iff_size_eq_zero.mpr hSize
    rw [PayloadCache.get_fst, hEmpty]
    exact Std.ExtTreeMap.getElem?_empty

end Represents

end CacheTrace

end Nesso

------------------------------------------------------------
-- Runs of the Cache
------------------------------------------------------------

namespace Nesso

theorem cacheRun_contract
    {capacity : Nat}
    {ops : List CacheOp}
    {trace : CacheTrace}
    (hRun : CacheRun capacity ops trace) :
    trace.Contract := by
  have hTrace : trace.Represents := by
    apply hRun.invariant
    · exact CacheTrace.Represents.start capacity
    · intro trace next op hTrace hFresh hNext
      exact hTrace.step hFresh hNext
  exact hTrace.contract

/- Task 2 is removed; the next overflow evicts task 1. -/
def staleIds : List CacheOp :=
  [.insert 1 [1], .insert 2 [2], .remove 2,
    .insert 3 [3], .get 1, .insert 4 [4]]

theorem cacheRun_contract_staleIds :
    ∃ trace,
      CacheRun 2 staleIds trace ∧
        trace.cache.order = [2, 3, 4] ∧
        trace.cache.evictions = 1 ∧ trace.Contract := by
  have hEnd :
      (Transition.execute
        (Transition.checkedStep CacheTrace.step
          (fun trace op => op.Fresh trace))
        staleIds (CacheTrace.start 2)).any
          (fun trace =>
            trace.cache.order = [2, 3, 4] ∧
              trace.cache.evictions = 1) = true := by
    decide +kernel
  rcases Transition.exists_run_of_checked
    (fun _ _ hOp => of_decide_eq_true hOp) hEnd with
    ⟨trace, hRun, hEnds⟩
  rcases of_decide_eq_true hEnds with ⟨hOrder, hEvictions⟩
  exact ⟨trace, hRun, hOrder, hEvictions,
    cacheRun_contract hRun⟩

/- What was inserted is not found without capacity. -/
theorem zero_capacity_drops_payload :
    ∃ trace,
      CacheRun 0 [.insert 1 [7]] trace ∧
        trace.cache.evictions = 0 ∧
        ¬ ((trace.cache.get 1).1 = some [7] ↔
          Held trace.history 1 [7]) := by
  refine ⟨{ cache := .new 0,
            history := [.inserted 1 [7]] }, ?_, rfl, ?_⟩
  · refine Transition.Run.step Transition.Run.start
      (by decide) ?_
    rfl
  · intro hIff
    have hHeld :
        Held [.inserted 1 [7]] 1 [7] :=
      ⟨[], [], rfl, by simp⟩
    have hGet := hIff.mpr hHeld
    revert hGet
    decide

end Nesso
