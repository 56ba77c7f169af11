import HostEmbedding.Config
import HostEmbedding.Function.Typed
import HostEmbedding.Memory.Linear
import HostEmbedding.Value.Slot

/-!
# The step language

What a script can ask for, one step at a time. Host functions have bodies written in the same
language, so a step may hold further steps. Native steps talk to the engine's own interface, where
objects are raw pointers.
-/

namespace HostEmbedding

/-- The name of a variable: looked up from the innermost scope outwards, or among the globals only. -/
inductive VarName where
  | scoped (name : String)
  | global (name : String)
  deriving DecidableEq

/-- Read a name; a leading caret means the global. -/
def VarName.ofText (s : String) : VarName :=
  match s.toList with
  | '^' :: rest => .global (String.ofList rest)
  | _ => .scoped s

def VarName.text : VarName → String
  | .scoped name => name
  | .global name => "^" ++ name

def VarName.base : VarName → String
  | .scoped name => name
  | .global name => name

/-- A value in a step: a variable or a literal, whose reference is null. -/
inductive Operand where
  | var (name : VarName)
  | literal (s : Scalar Empty)

/-- Whether a step goes on after what it raised, and whether its error is raised as a trap. -/
structure Guard where
  catches : Bool
  errorTraps : Bool

/-- The static type of registered host code: a plain function of values, or a typed one that may take
the caller and may fail with a trap. -/
inductive Shape where
  | generic (type : FuncType)
  | typed (sig : TypedSignature) (caller fallible : Bool)

def Shape.funcType : Shape → FuncType
  | .generic type => type
  | .typed sig _ _ => sig.funcType

def Shape.hasCaller : Shape → Bool
  | .generic _ => true
  | .typed _ caller _ => caller

/-- Whether a trap raised by the code reaches the engine as a trap. -/
def Shape.fallible : Shape → Bool
  | .generic _ => true
  | .typed _ _ fallible => fallible

inductive PayloadLiteral where
  | text (s : String)
  | int (n : Int)
  | unit
  | func (name : VarName)
  | memory (name : VarName)
  | store (name : VarName)

/-- The type under which the content of a reference is asked for. -/
inductive PayloadType where
  | text
  | int
  | unit
  | func
  | memory
  | store
  deriving DecidableEq

inductive Comparison where
  | less
  | equal
  deriving DecidableEq

inductive Side where
  | params
  | results
  deriving DecidableEq

/-- A raw array argument: elements, or a null pointer with a stated length. -/
inductive RawArray (α : Type) where
  | elements (xs : List α)
  | null (length : Nat)

/-- A raw array of result slots: how many are claimed, and whether the pointer is null. -/
structure SlotArray where
  count : Nat
  isNull : Bool

def SlotArray.available (a : SlotArray) : Nat := if a.isNull then 0 else a.count

def RawArray.toList {α : Type} : RawArray α → List α
  | .elements xs => xs
  | .null _ => []

/-- What a native callback writes into its result slots. -/
inductive Reply where
  | echo
  | slots (ss : List (Slot Empty))

/-- A step of the native interface that needs no callback; pointers may be null. -/
inductive NativeStep where
  | engineNew (config : Option Config)
  | engineDelete (engine : Option VarName)
  | storeNew (engine : Option VarName)
  | storeDelete (store : Option VarName)
  | funcTypeNew (params results : RawArray UInt8)
  | funcTypeParams (type : Option VarName)
  | funcTypeResults (type : Option VarName)
  | funcTypeDelete (type : Option VarName)
  | memoryTypeNew (limits : Option Limits)
  | memoryTypeLimits (type : Option VarName)
  | memoryTypeDelete (type : Option VarName)
  | memoryNew (store type : Option VarName)
  | memoryType (memory : Option VarName)
  | memoryData (memory : Option VarName)
  | memoryDataSize (memory : Option VarName)
  | memorySize (memory : Option VarName)
  | memoryGrow (memory : Option VarName) (delta : UInt32)
  | memoryAsExtern (memory : Option VarName)
  | memoryDelete (memory : Option VarName)
  | memoryPoke (memory : Option VarName) (offset : Nat) (bytes : List UInt8)
  | externKind (view : Option VarName)
  | externAsFunc (view : Option VarName)
  | externAsMemory (view : Option VarName)
  | externDelete (view : Option VarName)
  | funcType (func : Option VarName)
  | funcParamArity (func : Option VarName)
  | funcResultArity (func : Option VarName)
  | funcAsExtern (func : Option VarName)
  | funcDelete (func : Option VarName)
  | interruptNew (store : Option VarName)
  | interruptRequest (handle : Option VarName)
  | interruptDelete (handle : Option VarName)
  | trapNew (store : Option VarName) (message : RawArray UInt8)
  | trapMessage (trap : Option VarName)
  | trapCode (trap : Option VarName)
  | trapDelete (trap : Option VarName)
  | slotText (slot : Slot Empty)
  | blankSlot
  | constants

/-- A step that ends at once: it neither calls into the engine nor runs further steps. -/
inductive Action where
  | engine (name : VarName) (pages depth : Option UInt32)
  | store (name : VarName) (engine : Option VarName)
  | flush (store : VarName)
  | pending (store : VarName)
  | sameStore (a b : VarName)
  | storeOf (name : VarName) (of : VarName)
  | engineOf (name : VarName) (store : VarName)
  | interruptHandle (name : VarName) (store : VarName)
  | interrupt (of : VarName)
  | memory (name : VarName) (store : VarName) (type : MemoryType)
  | memoryType (of : VarName)
  | size (of : VarName)
  | dataSize (of : VarName)
  | grow (of : VarName) (delta : UInt32)
  | read (of : VarName) (offset len : Nat)
  | write (of : VarName) (offset : Nat) (bytes : List UInt8) (times : Nat)
  | poke (of : VarName) (at_ v : Operand)
  | data (of : VarName)
  | sameData (a b : VarName)
  | asExtern (name : VarName) (of : VarName)
  | externKind (of : VarName)
  | intoFunc (name : VarName) (of : VarName)
  | intoMemory (name : VarName) (of : VarName)
  | clone (name : VarName) (of : VarName)
  | drop (of : VarName)
  | cell (name : VarName)
  | put (cell of : VarName)
  | get (name : VarName) (cell : VarName)
  | take (cell : VarName)
  | debug (of : VarName)
  | funcType (of : VarName)
  | typed (name : VarName) (func : VarName) (sig : TypedSignature)
  | typedFunc (name : VarName) (of : VarName)
  | reference (name : VarName) (label : String) (payload : PayloadLiteral)
  | set (name : VarName) (v : Operand)
  | strong (v : Operand)
  | sameReference (a b : Operand)
  | equalValues (a b : Operand)
  | content (v : Operand) (type : PayloadType) (name : Option VarName)
  | accessors (v : Operand)
  | expectKind (v : Operand) (kind : Kind)
  | zeroOf (kind : Kind)
  | describeFuncType (type : FuncType)
  | equalFuncTypes (a b : FuncType)
  | describeMemoryType (type : MemoryType)
  | describeTrap (message : String)
  | configure (settings : List Config.Setting)
  | defaults
  | typedKinds (sig : TypedSignature)
  | decodeValues (sig : TypedSignature) (side : Side) (vals : List Operand)
  | encodeValues (sig : TypedSignature) (side : Side) (vals : List Operand)
  | depth (name : Option VarName)
  | callerStore (name : VarName)
  | callerDebug
  | giveBack (vals : List Operand)
  | trap (message : String)
  | panic (fault : Fault)
  | add (name : VarName) (a b : Operand)
  | subtract (name : VarName) (a b : Operand)
  | rawPointer (name : VarName) (of : VarName)

inductive Step where
  | plain (a : Action)
  | func (name : VarName) (store : VarName) (shape : Shape) (label : String) (quiet : Bool)
      (captures : List VarName) (body : List (Guard × Step))
  | call (func : VarName) (args : List Operand) (bind : List VarName)
  | typedCall (func : VarName) (args : List Operand) (bind : List VarName)
  | branch (a : Operand) (op : Comparison) (b : Operand) (yes no : List (Guard × Step))
  | loop (n : Nat) (body : List (Guard × Step))
  | thread (body : List (Guard × Step))
  | native (name : Option VarName) (step : NativeStep)
  | nativeFunc (name : Option VarName) (store type : Option VarName) (label : String)
      (reply : Reply) (trap : Option (List UInt8)) (nested : Option VarName) (finalizes : Bool)
      (finalizer : List (Guard × Step))
  | nativeCall (name : Option VarName) (func : Option VarName) (args : RawArray (Slot Empty))
      (slots : SlotArray)

/-- A list of steps, each with its guard. -/
abbrev Block := List (Guard × Step)

/-- Host code as a closure carries it. -/
structure HostCode where
  label : String
  quiet : Bool
  shape : Shape
  body : Block

/-- What a native function does when it is called and when it is deleted. -/
structure NativeCode where
  label : String
  reply : Reply
  trap : Option (List UInt8)
  nested : Option VarName
  finalizes : Bool
  finalizer : Block

end HostEmbedding
