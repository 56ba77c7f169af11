import HostEmbedding.Value.Kind

/-!
# Function types

The kinds a function takes and gives back, with their written form and the form the native side
keeps, in which every kind is a code byte.
-/

namespace HostEmbedding

/-- The type of a function at the engine boundary. -/
structure FuncType where
  params : List Kind
  results : List Kind
  deriving DecidableEq

/-- A function type as the native side keeps it: one code byte for each kind. -/
structure NativeFuncType where
  params : List UInt8
  results : List UInt8
  deriving DecidableEq

namespace NativeFuncType

def isKind (c : UInt8) : Bool := (Kind.ofCode? c).isSome

/-- A native function type; none when some byte stands for no kind. -/
def create? (params results : List UInt8) : Option NativeFuncType :=
  if (params ++ results).all isKind then some ⟨params, results⟩ else none

end NativeFuncType

namespace FuncType

def toNative (t : FuncType) : NativeFuncType :=
  ⟨t.params.map Kind.code, t.results.map Kind.code⟩

/-- Read a native type back; bytes that stand for no kind are skipped. -/
def ofNative (n : NativeFuncType) : FuncType :=
  ⟨n.params.filterMap Kind.ofCode?, n.results.filterMap Kind.ofCode?⟩

def separated (sep : String) : List String → String
  | [] => ""
  | [s] => s
  | s :: rest => s ++ sep ++ separated sep rest

def text (t : FuncType) : String :=
  "(" ++ separated ", " (t.params.map Kind.name) ++ ") -> (" ++
    separated ", " (t.results.map Kind.name) ++ ")"

def debugText (t : FuncType) : String :=
  "FuncType \x7b params: [" ++ separated ", " (t.params.map Kind.debugName) ++ "], results: [" ++
    separated ", " (t.results.map Kind.debugName) ++ "] \x7d"

/-- Reading back the native form of a type gives the type. -/
@[simp] theorem ofNative_toNative (t : FuncType) : ofNative t.toNative = t := by
  have (ks : List Kind) : (ks.map Kind.code).filterMap Kind.ofCode? = ks := by
    induction ks with
    | nil => rfl
    | cons k rest ih => simp [ih]
  simp [ofNative, toNative, this]

end FuncType

end HostEmbedding
