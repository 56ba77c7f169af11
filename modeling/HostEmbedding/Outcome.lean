import HostEmbedding.Function.Signature
import HostEmbedding.Memory.Limits

/-!
# Traps, faults and errors

A call can fail in three ways. A trap is an ordinary value that travels through the engine as a
message, with a code when the engine raised it itself. A fault is the payload of a panic: it breaks
off host code and is resumed by the call that invoked that code. An API error is the refusal of a
single operation. Each has its text in one place.
-/

namespace HostEmbedding

inductive TrapCode where
  | stackOverflow
  | interrupt
  deriving DecidableEq

namespace TrapCode

def code : TrapCode → UInt8
  | .stackOverflow => 0
  | .interrupt => 1

def ofCode? (c : UInt8) : Option TrapCode :=
  if c = 0 then some .stackOverflow
  else if c = 1 then some .interrupt
  else none

def text : TrapCode → String
  | .stackOverflow => "call stack exhausted"
  | .interrupt => "interrupt"

@[simp] theorem ofCode?_code (c : TrapCode) : ofCode? c.code = some c := by
  cases c <;> rfl

end TrapCode

/-- A trap as the native side keeps it. -/
structure NativeTrap where
  message : String
  code : Option UInt8
  deriving DecidableEq

namespace NativeTrap

def ofCode (c : TrapCode) : NativeTrap := ⟨"wasm trap: " ++ c.text, some c.code⟩

def ofMessage (s : String) : NativeTrap := ⟨s, none⟩

/-- The refusal of a call whose argument or result count is wrong. -/
def wrongArity (params results args slots : Nat) : NativeTrap :=
  ofMessage ("wasm trap: expected " ++ toString params ++ " arguments and " ++ toString results ++
    " results, got " ++ toString args ++ " and " ++ toString slots)

/-- The refusal of a call whose argument at `index` is of another kind. -/
def wrongKind (index : Nat) : NativeTrap :=
  ofMessage ("wasm trap: argument " ++ toString index ++ " has the wrong kind")

end NativeTrap

/-- A trap as host code sees it. -/
structure Trap where
  message : String
  code : Option TrapCode
  deriving DecidableEq

namespace Trap

def ofMessage (s : String) : Trap := ⟨s, none⟩

/-- The native form of a trap that host code returns: the message, never a code. -/
def toNative (t : Trap) : NativeTrap := NativeTrap.ofMessage t.message

def ofNative (t : NativeTrap) : Trap := ⟨t.message, t.code.bind TrapCode.ofCode?⟩

end Trap

/-- The payload of a panic. -/
inductive Fault where
  | wrongArgCount (expected got : Nat)
  | wrongArgKind (index : Nat) (expected found : Kind)
  | wrongResultCount (expected got : Nat)
  | wrongSlotCount (slots declared : Nat)
  | wrongResultKind (index : Nat) (expected found : Kind)
  | tooFewValues
  | unexpectedKind (expected found : Kind)
  | text (message : String)
  | number (n : Int)
  deriving DecidableEq

namespace Fault

def message : Fault → String
  | .wrongArgCount expected got =>
      "wrong number of arguments: expected " ++ toString expected ++ ", got " ++ toString got
  | .wrongArgKind index expected found =>
      "wrong type of argument " ++ toString index ++ ": expected " ++ expected.name ++ ", found " ++
        found.name
  | .wrongResultCount expected got =>
      "callback produced wrong number of results: expected " ++ toString expected ++ ", got " ++
        toString got
  | .wrongSlotCount slots declared =>
      "engine provided " ++ toString slots ++ " result slots for " ++ toString declared ++
        " declared results"
  | .wrongResultKind index expected found =>
      "callback produced wrong type of result " ++ toString index ++ ": expected " ++
        expected.name ++ ", found " ++ found.name
  | .tooFewValues => "wrong number of values for typed signature"
  | .unexpectedKind expected found => "expected " ++ expected.name ++ ", found " ++ found.name
  | .text message => message
  | .number _ => "<non-string panic payload>"

end Fault

/-- Why an operation was refused. -/
inductive ApiError where
  | signatureMismatch (expected found : FuncType)
  | outOfBounds (offset len size : Nat)
  | invalidMemoryType (type : MemoryType)
  deriving DecidableEq

namespace ApiError

def message : ApiError → String
  | .signatureMismatch expected found =>
      "signature mismatch: expected " ++ expected.text ++ ", found " ++ found.text
  | .outOfBounds offset len size =>
      "out of bounds memory access: offset " ++ toString offset ++ " + length " ++ toString len ++
        " exceeds size " ++ toString size
  | .invalidMemoryType type => "engine rejected memory type " ++ type.text

end ApiError

/-- The message of the trap that stands for a parked panic while the engine returns. -/
def sentinelMessage : String := "host function panicked"

/-- The trap that stands for a parked panic while the engine returns. -/
def NativeTrap.sentinel : NativeTrap := NativeTrap.ofMessage sentinelMessage

/-- The trap of a panic that could not be parked. -/
def NativeTrap.unparked (f : Fault) : NativeTrap :=
  NativeTrap.ofMessage (sentinelMessage ++ ": " ++ f.message)

end HostEmbedding
