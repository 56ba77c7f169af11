import HostEmbedding.Value.Kind

/-!
# Values and typed scalars

A `Val` is a value at the engine boundary. Floats are kept as their bits, so equality of values is
equality bit for bit, signalling NaNs and negative zero included. A `Scalar` is what host code with
static types holds: it also tells signed from unsigned integers, which the engine does not. The
parameter of both types is what a reference is: an object of the heap, or a label when shown.
-/

namespace HostEmbedding

/-- A value at the engine boundary; a reference may be null. -/
inductive Val (ρ : Type) where
  | i32 (v : Int32)
  | i64 (v : Int64)
  | f32 (bits : UInt32)
  | f64 (bits : UInt64)
  | externref (r : Option ρ)
  deriving DecidableEq

namespace Val

variable {ρ σ : Type}

def kind : Val ρ → Kind
  | .i32 _ => .i32
  | .i64 _ => .i64
  | .f32 _ => .f32
  | .f64 _ => .f64
  | .externref _ => .externref

def zero : Kind → Val ρ
  | .i32 => .i32 0
  | .i64 => .i64 0
  | .f32 => .f32 0
  | .f64 => .f64 0
  | .externref => .externref none

def ref? : Val ρ → Option ρ
  | .externref r => r
  | _ => none

def refs (vs : List (Val ρ)) : List ρ := vs.filterMap ref?

def map (f : ρ → σ) : Val ρ → Val σ
  | .i32 v => .i32 v
  | .i64 v => .i64 v
  | .f32 b => .f32 b
  | .f64 b => .f64 b
  | .externref r => .externref (r.map f)

@[simp] theorem kind_zero (k : Kind) : (zero k : Val ρ).kind = k := by
  cases k <;> rfl

@[simp] theorem kind_map (f : ρ → σ) (v : Val ρ) : (v.map f).kind = v.kind := by
  cases v <;> rfl

end Val

inductive ScalarType where
  | i32
  | u32
  | i64
  | u64
  | f32
  | f64
  | externref
  deriving DecidableEq

namespace ScalarType

def kind : ScalarType → Kind
  | .i32 | .u32 => .i32
  | .i64 | .u64 => .i64
  | .f32 => .f32
  | .f64 => .f64
  | .externref => .externref

def ofName? (s : String) : Option ScalarType :=
  match s with
  | "i32" => some .i32
  | "u32" => some .u32
  | "i64" => some .i64
  | "u64" => some .u64
  | "f32" => some .f32
  | "f64" => some .f64
  | "externref" => some .externref
  | _ => none

end ScalarType

inductive Scalar (ρ : Type) where
  | i32 (v : Int32)
  | u32 (v : UInt32)
  | i64 (v : Int64)
  | u64 (v : UInt64)
  | f32 (bits : UInt32)
  | f64 (bits : UInt64)
  | externref (r : Option ρ)
  deriving DecidableEq

namespace Scalar

variable {ρ σ : Type}

def type : Scalar ρ → ScalarType
  | .i32 _ => .i32
  | .u32 _ => .u32
  | .i64 _ => .i64
  | .u64 _ => .u64
  | .f32 _ => .f32
  | .f64 _ => .f64
  | .externref _ => .externref

/-- The value a scalar is passed as; unsigned integers keep their bits. -/
def toVal : Scalar ρ → Val ρ
  | .i32 v => .i32 v
  | .u32 v => .i32 v.toInt32
  | .i64 v => .i64 v
  | .u64 v => .i64 v.toInt64
  | .f32 b => .f32 b
  | .f64 b => .f64 b
  | .externref r => .externref r

/-- A value as a scalar, integers read as signed. -/
def ofVal : Val ρ → Scalar ρ
  | .i32 v => .i32 v
  | .i64 v => .i64 v
  | .f32 b => .f32 b
  | .f64 b => .f64 b
  | .externref r => .externref r

/-- Read a value as a scalar of a type; `none` when its kind is another one. -/
def decode? : ScalarType → Val ρ → Option (Scalar ρ)
  | .i32, .i32 v => some (.i32 v)
  | .u32, .i32 v => some (.u32 v.toUInt32)
  | .i64, .i64 v => some (.i64 v)
  | .u64, .i64 v => some (.u64 v.toUInt64)
  | .f32, .f32 b => some (.f32 b)
  | .f64, .f64 b => some (.f64 b)
  | .externref, .externref r => some (.externref r)
  | _, _ => none

def ref? : Scalar ρ → Option ρ
  | .externref r => r
  | _ => none

def refs (ss : List (Scalar ρ)) : List ρ := ss.filterMap ref?

def map (f : ρ → σ) : Scalar ρ → Scalar σ
  | .i32 v => .i32 v
  | .u32 v => .u32 v
  | .i64 v => .i64 v
  | .u64 v => .u64 v
  | .f32 b => .f32 b
  | .f64 b => .f64 b
  | .externref r => .externref (r.map f)

@[simp] theorem toVal_ofVal (v : Val ρ) : (ofVal v).toVal = v := by
  cases v <;> rfl

@[simp] theorem kind_toVal (s : Scalar ρ) : s.toVal.kind = s.type.kind := by
  cases s <;> rfl

/-- Decoding at its own type undoes encoding. -/
@[simp] theorem decode?_toVal (s : Scalar ρ) : decode? s.type s.toVal = some s := by
  cases s <;> rfl

/-- Decoding succeeds exactly at the kind of the type. -/
theorem decode?_isSome (t : ScalarType) (v : Val ρ) :
    (decode? t v).isSome = true ↔ v.kind = t.kind := by
  cases t <;> cases v <;> simp [decode?, Val.kind, ScalarType.kind]

/-- What was decoded encodes back to the value it came from. -/
theorem toVal_of_decode? {t : ScalarType} {v : Val ρ} {s : Scalar ρ} (h : decode? t v = some s) :
    s.toVal = v := by
  cases t <;> cases v <;> simp [decode?] at h <;> subst h <;> rfl

end Scalar

end HostEmbedding
