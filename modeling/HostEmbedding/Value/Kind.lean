/-!
# Kinds of values

The five kinds of value that cross between the host and the engine, with their written names and the
code byte that stands for each in a native signature or a raw slot. The code determines the kind.
-/

namespace HostEmbedding

/-- The kind of a single value: two integers, two floats, and an opaque host reference. -/
inductive Kind where
  | i32
  | i64
  | f32
  | f64
  | externref
  deriving DecidableEq

namespace Kind

def name : Kind → String
  | .i32 => "i32"
  | .i64 => "i64"
  | .f32 => "f32"
  | .f64 => "f64"
  | .externref => "externref"

def debugName : Kind → String
  | .i32 => "I32"
  | .i64 => "I64"
  | .f32 => "F32"
  | .f64 => "F64"
  | .externref => "ExternRef"

def code : Kind → UInt8
  | .i32 => 0
  | .i64 => 1
  | .f32 => 2
  | .f64 => 3
  | .externref => 128

def ofCode? (c : UInt8) : Option Kind :=
  if c = 0 then some .i32
  else if c = 1 then some .i64
  else if c = 2 then some .f32
  else if c = 3 then some .f64
  else if c = 128 then some .externref
  else none

def all : List Kind := [.i32, .i64, .f32, .f64, .externref]

@[simp] theorem ofCode?_code (k : Kind) : ofCode? k.code = some k := by
  cases k <;> rfl

theorem code_of_ofCode? {c : UInt8} {k : Kind} (h : ofCode? c = some k) : k.code = c := by
  unfold ofCode? at h
  split at h
  · cases h; simp_all [code]
  split at h
  · cases h; simp_all [code]
  split at h
  · cases h; simp_all [code]
  split at h
  · cases h; simp_all [code]
  split at h
  · cases h; simp_all [code]
  · cases h

/-- Distinct kinds have distinct codes. -/
theorem code_injective {a b : Kind} (h : a.code = b.code) : a = b := by
  have := congrArg ofCode? h
  simpa using this

end Kind

end HostEmbedding
