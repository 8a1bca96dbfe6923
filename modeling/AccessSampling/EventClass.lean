/-!
# Event classes

The nine kinds of memory access that the hardware samples, in the one order in which every table,
every loop and every report of this library lists them. Each class has its own hardware event, and
its tier says which table of coarse periods the CPU quota takes for it.
-/

namespace AccessSampling

/-- A kind of memory access, sampled by a hardware event of its own on every CPU. -/
inductive EventClass where
  | l1Hit
  | l1Miss
  | l2Hit
  | l2Miss
  | l3Hit
  | l3Miss
  | dramRead
  /-- A read served by the slow tier of memory. -/
  | nvmRead
  | memWrite
  deriving DecidableEq, Repr, Inhabited

/-- How the CPU quota treats a class. -/
inductive Tier where
  /-- The class follows the base table of coarse periods. -/
  | base
  /-- The class fires on almost every memory instruction and follows a table of its own, about two
  orders of magnitude coarser. -/
  | instr
  /-- The CPU quota never retunes the class. -/
  | fixed
  deriving DecidableEq, Repr

/-- What a counter of the processor is programmed with. -/
structure RawEvent where
  /-- Unit mask and event select, the mask in the high byte. -/
  config : UInt64
  config1 : UInt64 := 0
  deriving DecidableEq, Repr

namespace EventClass

/-- Every class, in the order of all tables. -/
def all : List EventClass :=
  [l1Hit, l1Miss, l2Hit, l2Miss, l3Hit, l3Miss, dramRead, nvmRead, memWrite]

@[simp] theorem mem_all (c : EventClass) : c ∈ all := by
  cases c <;> decide

theorem nodup_all : all.Nodup := by decide

@[simp] theorem length_all : all.length = 9 := rfl

/-- The place of a class in `all`. -/
def index : EventClass → Nat
  | l1Hit => 0
  | l1Miss => 1
  | l2Hit => 2
  | l2Miss => 3
  | l3Hit => 4
  | l3Miss => 5
  | dramRead => 6
  | nvmRead => 7
  | memWrite => 8

/-- The class at a place of `all`, if there is one. -/
def ofIndex? (i : Nat) : Option EventClass := all[i]?

@[simp] theorem ofIndex?_index (c : EventClass) : ofIndex? c.index = some c := by
  cases c <;> rfl

/-- The tier of a class: stores and the first cache level fire on almost every instruction, the
second level is never retuned. -/
def tier : EventClass → Tier
  | l1Hit | l1Miss | memWrite => .instr
  | l2Hit | l2Miss => .fixed
  | l3Hit | l3Miss | dramRead | nvmRead => .base

/-- The name by which messages call a class. -/
def name : EventClass → String
  | l1Hit => "L1_HIT"
  | l1Miss => "L1_MISS"
  | l2Hit => "L2_HIT"
  | l2Miss => "L2_MISS"
  | l3Hit => "L3_HIT"
  | l3Miss => "L3_MISS"
  | dramRead => "DRAM_READ"
  | nvmRead => "NVM_READ"
  | memWrite => "MEM_WRITE"

/-- The encoding of a class on an Ice Lake server: the low byte selects the event, `0xd1` for loads
retired, `0xd3` for loads that missed the third level and `0xd0` for all memory instructions. -/
def raw : EventClass → RawEvent
  | l1Hit => { config := 0x01d1 }
  | l1Miss => { config := 0x08d1 }
  | l2Hit => { config := 0x02d1 }
  | l2Miss => { config := 0x10d1 }
  | l3Hit => { config := 0x04d1 }
  | l3Miss => { config := 0x20d1 }
  | dramRead => { config := 0x01d3 }
  | nvmRead => { config := 0x80d1 }
  | memWrite => { config := 0x82d0 }

end EventClass

end AccessSampling
