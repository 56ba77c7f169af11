import HostEmbedding.Memory.Linear
import HostEmbedding.Object.Item

/-!
# Native objects

What the engine keeps behind raw pointers. An entry counts its deletions: it is live while there has
been none. The interrupt flag of a store outlives the store, as handles on it may.
-/

namespace HostEmbedding

/-- What the engine calls back into: host code through an environment, or a native callback. -/
inductive Callback where
  | host (env : ObjId)
  | native (code : NativeCode)

structure NativeStore where
  config : Config
  interrupt : Bool
  depth : UInt32

structure NativeFunc where
  store : NativeId
  type : NativeFuncType
  callback : Callback

inductive Native where
  | engine (config : Config)
  | store (s : NativeStore)
  | memory (m : LinearMemory)
  | func (f : NativeFunc)
  | interrupt (store : NativeId)
  | funcType (t : NativeFuncType)
  | memoryType (l : Limits)
  | trap (t : NativeTrap)

/-- What an extern view can turn out to be. -/
inductive ExternKind where
  | func
  | memory
  deriving DecidableEq

namespace ExternKind

def code : ExternKind → UInt8
  | .func => 0
  | .memory => 3

def name : ExternKind → String
  | .func => "Func"
  | .memory => "Memory"

end ExternKind

def Native.externKind? : Native → Option ExternKind
  | .func _ => some .func
  | .memory _ => some .memory
  | _ => none

/-- A native object with the number of its deletions, the number of times its finalizer was run, and
the number it is shown under, if it was ever shown. -/
structure NativeEntry where
  object : Native
  deletions : Nat
  finalized : Nat
  tag : Option Nat

def NativeEntry.isLive (e : NativeEntry) : Bool := e.deletions = 0

/-- The native operations that must not run while a function finalizer runs. -/
inductive GuardedOp where
  | storeDelete
  | memoryNew
  | memoryDelete
  | funcNew
  | funcDelete
  | interruptNew
  | interruptDelete
  deriving DecidableEq

namespace GuardedOp

def name : GuardedOp → String
  | .storeDelete => "wasm_store_delete"
  | .memoryNew => "wasm_memory_new"
  | .memoryDelete => "wasm_memory_delete"
  | .funcNew => "wasmtime_func_new_with_env"
  | .funcDelete => "wasm_func_delete"
  | .interruptNew => "wasmtime_interrupt_handle_new"
  | .interruptDelete => "wasmtime_interrupt_handle_delete"

/-- The complaint with which the process ends. -/
def complaint (op : GuardedOp) : String :=
  op.name ++ " called while a function finalizer is running"

end GuardedOp

end HostEmbedding
