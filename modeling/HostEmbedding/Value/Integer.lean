import HostEmbedding.Value.Basic

/-!
# Integer arithmetic on scalars

Sums and differences wrap in the type of the first operand. Little-endian bytes and addresses are
those of the integer itself; a negative address wraps around the address space.
-/

namespace HostEmbedding.Scalar

variable {ρ : Type}

def toInt? : Scalar ρ → Option Int
  | .i32 v => some v.toInt
  | .u32 v => some v.toNat
  | .i64 v => some v.toInt
  | .u64 v => some v.toNat
  | _ => none

/-- The scalar of an integer type that is congruent to an integer. -/
def ofInt? : ScalarType → Int → Option (Scalar ρ)
  | .i32, n => some (.i32 (Int32.ofInt n))
  | .u32, n => some (.u32 (UInt32.ofInt n))
  | .i64, n => some (.i64 (Int64.ofInt n))
  | .u64, n => some (.u64 (UInt64.ofInt n))
  | _, _ => none

/-- Combine two integers in the type of the first. -/
def combine? (f : Int → Int → Int) (a b : Scalar ρ) : Option (Scalar ρ) := do
  ofInt? a.type (f (← a.toInt?) (← b.toInt?))

def address? (s : Scalar ρ) : Option Nat := s.toInt?.map fun n => (UInt64.ofInt n).toNat

/-- The `n` low bytes of a number, the lowest first. -/
def littleEndian : Nat → Nat → List UInt8
  | 0, _ => []
  | n + 1, v => v.toUInt8 :: littleEndian n (v / 256)

def bytes? : Scalar ρ → Option (List UInt8)
  | .i32 v => some (littleEndian 4 v.toUInt32.toNat)
  | .u32 v => some (littleEndian 4 v.toNat)
  | .i64 v => some (littleEndian 8 v.toUInt64.toNat)
  | .u64 v => some (littleEndian 8 v.toNat)
  | _ => none

end HostEmbedding.Scalar
