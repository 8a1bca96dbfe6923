import AccessSampling.FixedWidth
import AccessSampling.MinHeap

/-!
# Hot item heaps

One bounded heap per event class counts how often the class sampled each item. A hit only ever moves
its entry upwards, so an entry that is counted again while it sits at the root stays there, and
admission into a full heap looks at the root alone.

An item is known by its identity, of any type with decidable equality.
-/

namespace AccessSampling

/-- A tracked item and how often it was hit. -/
structure HeapEntry (ι : Type) where
  item : ι
  hits : UInt32
  deriving DecidableEq, Repr

/-- What became of one hit. -/
inductive Admission where
  /-- The item was tracked already; its new hit count. -/
  | updated (hits : UInt32)
  | inserted
  /-- The heap was full and the item took the place of a root without hits. -/
  | replaced
  /-- The heap was full and its root had hits. -/
  | discarded
  deriving DecidableEq, Repr

/-- At most `capacity` items with their hit counts. -/
structure HotHeap (ι : Type) where
  capacity : Nat
  entries : Array (HeapEntry ι) := #[]
  deriving DecidableEq, Repr

namespace HotHeap

variable {ι : Type}

/-- The key by which entries are ordered. -/
def hitKey (e : HeapEntry ι) : Nat := e.hits.toNat

def size (h : HotHeap ι) : Nat := h.entries.size

def clear (h : HotHeap ι) : HotHeap ι := { h with entries := #[] }

/-- Counts one more hit of the entry at `i`. -/
def bump (h : HotHeap ι) (i : Fin h.entries.size) : Admission × HotHeap ι :=
  let hits := saturatingSucc h.entries[i].hits
  let entries := h.entries.set i { h.entries[i] with hits }
  (.updated hits, { h with entries := MinHeap.siftUp hitKey entries i })

/-- Appends an item with its first hit. -/
def insert (h : HotHeap ι) (item : ι) : HotHeap ι :=
  { h with
    entries := MinHeap.siftUp hitKey (h.entries.push { item, hits := 1 }) h.entries.size }

/-- Offers an item to a full heap: only a root without hits gives way. -/
def challenge (h : HotHeap ι) (item : ι) : Admission × HotHeap ι :=
  if hs : 0 < h.entries.size then
    if h.entries[0].hits = 0 then
      (.replaced,
        { h with entries := MinHeap.siftDown hitKey (h.entries.set 0 { item, hits := 1 }) 0 })
    else (.discarded, h)
  else (.discarded, h)

/-- Counts one hit of an item. -/
def recordHit [DecidableEq ι] (h : HotHeap ι) (item : ι) : Admission × HotHeap ι :=
  match h.entries.findFinIdx? (fun e => decide (e.item = item)) with
  | some i => h.bump i
  | none => if h.size < h.capacity then (.inserted, h.insert item) else h.challenge item

@[simp] theorem clear_entries (h : HotHeap ι) : h.clear.entries = #[] := rfl

@[simp] theorem clear_capacity (h : HotHeap ι) : h.clear.capacity = h.capacity := rfl

/-- No hit changes the capacity. -/
@[simp] theorem recordHit_capacity [DecidableEq ι] (h : HotHeap ι) (item : ι) :
    (h.recordHit item).2.capacity = h.capacity := by
  unfold recordHit
  split
  · rfl
  · split
    · rfl
    · unfold challenge
      split
      · split <;> rfl
      · rfl

end HotHeap

end AccessSampling
