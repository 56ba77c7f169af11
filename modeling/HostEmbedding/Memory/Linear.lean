import HostEmbedding.Memory.Limits
import HostEmbedding.Memory.Runs

/-!
# Linear memories

A growable byte array. It starts zero-filled at the minimum of its type, never exceeds the maximum
of its type nor the page cap of its engine, and refuses what would leave those bounds without
changing anything.
-/

namespace HostEmbedding

def pageSize : Nat := 65536

/-- The number of addressable byte positions: offsets and lengths stay below it. -/
def addressSpace : Nat := UInt64.size

structure LinearMemory where
  limits : Limits
  cap : UInt32
  bytes : Runs

namespace LinearMemory

/-- A zero-filled memory of the minimum size; none when the minimum exceeds the cap. -/
def create? (cap : UInt32) (limits : Limits) : Option LinearMemory :=
  if cap < limits.min then none
  else some ⟨limits, cap, Runs.replicate (limits.min.toNat * pageSize) 0⟩

def dataSize (m : LinearMemory) : Nat := m.bytes.size

def pages (m : LinearMemory) : UInt32 := (m.dataSize / pageSize).toUInt32

/-- The largest size in pages: the maximum of the type, but never beyond the cap. -/
def maxPages (m : LinearMemory) : UInt32 := if m.cap < m.limits.max then m.cap else m.limits.max

/-- Grow by `delta` pages of zeros; none when the result would be too large. -/
def grow? (m : LinearMemory) (delta : UInt32) : Option LinearMemory :=
  let newPages := m.pages.toNat + delta.toNat
  if newPages < UInt32.size ∧ newPages ≤ m.maxPages.toNat then
    some { m with
      bytes := m.bytes.append (Runs.replicate (newPages * pageSize - m.dataSize) 0) }
  else none

/-- Whether an access of `len` bytes at `offset` stays inside the memory and the address space. -/
def InBounds (m : LinearMemory) (offset len : Nat) : Prop :=
  offset + len < addressSpace ∧ offset + len ≤ m.dataSize

instance (m : LinearMemory) (offset len : Nat) : Decidable (m.InBounds offset len) :=
  inferInstanceAs (Decidable (_ ∧ _))

/-- The bytes of an access; none when it is out of bounds. -/
def read? (m : LinearMemory) (offset len : Nat) : Option Runs :=
  if m.InBounds offset len then some (m.bytes.slice offset len) else none

/-- Overwrite the bytes from `offset` on without a check. -/
def overwrite (m : LinearMemory) (offset : Nat) (data : Runs) : LinearMemory :=
  { m with bytes := m.bytes.splice offset data }

/-- Overwrite the bytes from `offset` on; none when the access is out of bounds. -/
def write? (m : LinearMemory) (offset : Nat) (data : Runs) : Option LinearMemory :=
  if m.InBounds offset data.size then some (m.overwrite offset data) else none

end LinearMemory

end HostEmbedding
