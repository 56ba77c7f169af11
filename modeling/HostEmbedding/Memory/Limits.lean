/-!
# Memory types

The size limits of a linear memory in pages. The host writes an absent maximum; the native side has
a greatest page number that stands for it. Limits whose minimum exceeds their maximum have no native
form.
-/

namespace HostEmbedding

structure Limits where
  min : UInt32
  max : UInt32
  deriving DecidableEq

/-- The native maximum that stands for no maximum. -/
def Limits.unbounded : UInt32 := 0xffffffff

/-- The type of a linear memory: a minimum and an optional maximum, in pages. -/
structure MemoryType where
  minimum : UInt32
  maximum : Option UInt32
  deriving DecidableEq

namespace MemoryType

/-- The native limits of a type; none when the minimum exceeds the maximum. -/
def toLimits? (t : MemoryType) : Option Limits :=
  let max := t.maximum.getD Limits.unbounded
  if max < t.minimum then none else some ⟨t.minimum, max⟩

def ofLimits (l : Limits) : MemoryType :=
  ⟨l.min, if l.max = Limits.unbounded then none else some l.max⟩

def text (t : MemoryType) : String :=
  "memory " ++ toString t.minimum.toNat ++ ".." ++
    match t.maximum with
    | some m => toString m.toNat
    | none => ""

def debugText (t : MemoryType) : String :=
  "MemoryType \x7b minimum: " ++ toString t.minimum.toNat ++ ", maximum: " ++
    (match t.maximum with
    | some m => "Some(" ++ toString m.toNat ++ ")"
    | none => "None") ++ " \x7d"

end MemoryType

end HostEmbedding
