/-!
# Resolvers

A resolver turns the address of a sample into the item whose statistics the sample belongs to. It
may remember what it hands out, so a call returns the next resolver. Addresses that it does not
report are dropped before it is asked.
-/

namespace AccessSampling

/-- Whether an address is a user-space address and not null: with four-level page tables, an address
of more than 48 bits belongs to the kernel or is not canonical. -/
def isUserSpace (addr : UInt64) : Bool := addr != 0 && addr >>> 48 == 0

/-- A way to find the item of an address. -/
class Resolver (ρ : Type) (ι : outParam Type) where
  /-- The item that an address of a process belongs to; none drops the sample. -/
  resolve : ρ → (addr : UInt64) → (pid : UInt32) → (time : UInt64) → Option ι × ρ
  /-- Which addresses are looked at in the first place. -/
  isReportable : ρ → (addr : UInt64) → Bool := fun _ addr => isUserSpace addr

/-! ## Pages -/

/-- A resolver with one item per page of 4 KiB, known by the number of the page. -/
structure PageDirectory where
  /-- Whether only listed pages resolve; otherwise a page is listed when it is first asked for. -/
  closed : Bool := false
  pages : List UInt64 := []
  deriving DecidableEq, Repr

namespace PageDirectory

/-- The number of the page that holds an address. -/
def pageOf (addr : UInt64) : UInt64 := addr >>> 12

/-- Lists the page of an address. -/
def insert (d : PageDirectory) (addr : UInt64) : PageDirectory :=
  if pageOf addr ∈ d.pages then d else { d with pages := d.pages ++ [pageOf addr] }

/-- The page of an address, if it is listed. -/
def find? (d : PageDirectory) (addr : UInt64) : Option UInt64 :=
  if pageOf addr ∈ d.pages then some (pageOf addr) else none

/-- A directory in which only the pages of some addresses resolve. -/
def ofAddresses (addrs : List UInt64) : PageDirectory :=
  addrs.foldl insert { closed := true }

instance : Resolver PageDirectory UInt64 where
  resolve d addr _ _ :=
    if d.closed then (d.find? addr, d) else (some (pageOf addr), d.insert addr)

@[simp] theorem insert_closed (d : PageDirectory) (addr : UInt64) :
    (d.insert addr).closed = d.closed := by
  unfold insert
  split <;> rfl

/-- Listing a page makes its addresses resolve and loses no other page. -/
theorem mem_pages_insert (d : PageDirectory) (addr p : UInt64) :
    p ∈ (d.insert addr).pages ↔ p = pageOf addr ∨ p ∈ d.pages := by
  unfold insert
  split <;> grind

end PageDirectory

/-! ## Recorded calls -/

/-- A question that a resolver was asked. -/
structure ResolveCall where
  addr : UInt64
  pid : UInt32
  time : UInt64
  deriving DecidableEq, Repr

/-- A resolver together with the questions it was asked, in order. -/
structure Recorded (ρ : Type) where
  inner : ρ
  calls : Array ResolveCall := #[]

instance {ρ ι : Type} [Resolver ρ ι] : Resolver (Recorded ρ) ι where
  resolve r addr pid time :=
    let (item, inner) := Resolver.resolve r.inner addr pid time
    (item, { inner, calls := r.calls.push { addr, pid, time } })
  isReportable r addr := Resolver.isReportable r.inner addr

end AccessSampling
