import Nesso.Storage.Record

/-
  The in-memory payload cache (`storage/payload_cache.rs`).

  Key definitions include:
    * `PayloadCache`
    * `PayloadCache.get`
    * `PayloadCache.insert`
    * `PayloadCache.remove`
    * `PayloadCache.clear`

  No operation invents a cached payload:
    * `PayloadCache.of_getElem?_insert`
-/

------------------------------------------------------------
-- Cache Operations
------------------------------------------------------------

namespace Nesso

structure PayloadCache where
  capacity : Nat
  entries : Std.ExtTreeMap UInt64 Bytes
  order : List UInt64
  hits : Nat
  misses : Nat
  evictions : Nat

/- `DEFAULT_PAYLOAD_CACHE_CAPACITY`. -/
def defaultPayloadCacheCapacity : Nat := 10000

namespace PayloadCache

def new (capacity : Nat) : PayloadCache where
  capacity := capacity
  entries := ∅
  order := []
  hits := 0
  misses := 0
  evictions := 0

def get
    (cache : PayloadCache)
    (id : UInt64) : Option Bytes × PayloadCache :=
  match cache.entries[id]? with
  | some payload =>
      (some payload, { cache with hits := cache.hits + 1 })
  | none =>
      (none, { cache with misses := cache.misses + 1 })

/-
  The eviction loop of `insert`: skip stale ids, and stop at
  the first entry that is really removed.
-/
def evict
    (cache : PayloadCache) :
    List UInt64 → PayloadCache
| [] => { cache with order := [] }
| oldest :: order =>
    if cache.capacity < cache.entries.size then
      if oldest ∈ cache.entries then
        { cache with
          entries := cache.entries.erase oldest
          order := order
          evictions := cache.evictions + 1 }
      else
        evict cache order
    else
      { cache with order := oldest :: order }

def insert
    (cache : PayloadCache)
    (id : UInt64)
    (payload : Bytes) : PayloadCache :=
  if cache.capacity = 0 then
    cache
  else
    let order :=
      if id ∈ cache.entries then cache.order
      else cache.order ++ [id]
    let evicted :=
      evict
        { cache with
          entries := cache.entries.insert id payload }
        order
    if cache.capacity * 2 < evicted.order.length then
      { evicted with
        order :=
          evicted.order.filter (· ∈ evicted.entries) }
    else
      evicted

def remove
    (cache : PayloadCache)
    (id : UInt64) : PayloadCache :=
  { cache with entries := cache.entries.erase id }

def clear (cache : PayloadCache) : PayloadCache :=
  { cache with entries := ∅, order := [] }

end PayloadCache

end Nesso

------------------------------------------------------------
-- Cached Payloads
------------------------------------------------------------

namespace Nesso

namespace PayloadCache

/- Looking up a payload changes only the counters. -/
@[simp] theorem entries_get
    (cache : PayloadCache)
    (id : UInt64) :
    (cache.get id).2.entries = cache.entries := by
  unfold get
  split <;> rfl

theorem get_fst
    (cache : PayloadCache)
    (id : UInt64) :
    (cache.get id).1 = cache.entries[id]? := by
  unfold get
  split
  · next payload hPayload => exact hPayload.symm
  · next hNone => exact hNone.symm

/- Eviction only drops entries. -/
theorem of_getElem?_evict
    {cache : PayloadCache}
    {order : List UInt64}
    {id : UInt64}
    {payload : Bytes}
    (hGet :
      (cache.evict order).entries[id]? = some payload) :
    cache.entries[id]? = some payload := by
  induction order with
  | nil => exact hGet
  | cons oldest order ih =>
      rw [evict] at hGet
      split at hGet
      · split at hGet
        · simp only [Std.ExtTreeMap.getElem?_erase] at hGet
          split at hGet
          · simp at hGet
          · exact hGet
        · exact ih hGet
      · exact hGet

/- An inserted cache holds old entries and the new one. -/
theorem of_getElem?_insert
    {cache : PayloadCache}
    {id other : UInt64}
    {payload found : Bytes}
    (hGet :
      (cache.insert id payload).entries[other]? =
        some found) :
    (other = id ∧ found = payload) ∨
      cache.entries[other]? = some found := by
  unfold insert at hGet
  split at hGet
  · exact .inr hGet
  · have hEvict :
        (cache.entries.insert id payload)[other]? =
          some found := by
      dsimp only at hGet
      generalize
        (if id ∈ cache.entries then cache.order
          else cache.order ++ [id]) = order at hGet
      split at hGet
      · exact of_getElem?_evict hGet
      · exact of_getElem?_evict hGet
    rw [Std.ExtTreeMap.getElem?_insert] at hEvict
    split at hEvict
    · next hCompare =>
        left
        refine ⟨?_, ?_⟩
        · exact
            (Std.LawfulEqOrd.eq_of_compare hCompare).symm
        · simpa using hEvict.symm
    · exact .inr hEvict

/- A removed payload is no longer cached. -/
theorem of_getElem?_remove
    {cache : PayloadCache}
    {id other : UInt64}
    {found : Bytes}
    (hGet : (cache.remove id).entries[other]? = some found) :
    cache.entries[other]? = some found := by
  simp only [remove, Std.ExtTreeMap.getElem?_erase] at hGet
  split at hGet
  · simp at hGet
  · exact hGet

end PayloadCache

end Nesso
