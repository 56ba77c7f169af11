import HostEmbedding.Object.Native

/-!
# Answers and events

What a script shows: an answer for each step, and the events that happened on the way. References are
shown by the label they were made with, native objects by the order in which they first appeared.
-/

namespace HostEmbedding

/-- A scalar as shown, its reference by label. -/
abbrev Shown := Scalar String

/-- A raw slot as shown; the address of a counted reference is not. -/
abbrev ShownSlot := Slot Unit

inductive Answer where
  | ok
  | pointer
  | null
  | bool (b : Bool)
  | nat (n : Nat)
  | int (n : Int)
  | text (s : String)
  | config (c : Config)
  | configDetails (c : Config)
  | defaults
  | memoryType (t : MemoryType)
  | memoryTypeDetails (t : MemoryType)
  | funcType (t : FuncType) (arity : Nat × Nat)
  | funcTypeDetails (t : FuncType)
  | typedKinds (params results : List Kind)
  | runs (rs : Runs)
  | value (v : Shown)
  | values (vs : List Shown)
  | accessors (v : Val String)
  | zero (k : Kind)
  | results (vs : List Shown)
  | returned (vs : List Shown)
  | trap (t : Trap)
  | panic (f : Fault)
  | error (e : ApiError)
  | freed (name : String)
  | unusable (name : String)
  | codes (cs : List UInt8)
  | limits (l : Limits)
  | slot (s : ShownSlot)
  | slots (ss : List ShownSlot)
  | nativeTrap (t : NativeTrap)
  | trapMessage (message : Option String)
  | trapCode (code : Option UInt8)
  | nativeConstants

inductive LogLevel where
  | error
  | debug
  | trace
  deriving DecidableEq

namespace LogLevel

def name : LogLevel → String
  | .error => "ERROR"
  | .debug => "DEBUG"
  | .trace => "TRACE"

/-- More severe levels come first. -/
def rank : LogLevel → Nat
  | .error => 0
  | .debug => 1
  | .trace => 2

end LogLevel

/-- Why a panic could not be parked. -/
inductive Unparked where
  | noFrame
  | occupied
  deriving DecidableEq

def Unparked.text : Unparked → String
  | .noFrame => "outside a host call"
  | .occupied => "while an earlier panic was pending"

inductive LogRecord where
  | createdEngine (config : Config)
  | createdMemory (type : MemoryType) (tag : Nat)
  | registered (type : FuncType) (tag : Nat)
  | deferred (kind : String) (tag : Nat)
  | releasing (kind : String) (tag : Nat)
  | released (n : Nat)
  | deletedStore (tag : Nat)
  | refusedGrow (tag : Nat) (delta : UInt32)
  | interruptRequested (tag : Nat)
  | unparked (why : Unparked) (message : String)

namespace LogRecord

def tagText (tag : Nat) : String := "#" ++ toString tag

def level : LogRecord → LogLevel
  | .unparked .. => .error
  | .createdMemory .. | .deferred .. | .releasing .. => .trace
  | _ => .debug

def text : LogRecord → String
  | .createdEngine c =>
      "created engine (max_memory_pages=" ++ toString c.maxMemoryPages.toNat ++
        ", max_call_depth=" ++ toString c.maxCallDepth.toNat ++ ")"
  | .createdMemory type tag => "created " ++ type.text ++ " at " ++ tagText tag
  | .registered type tag => "registered host function " ++ type.text ++ " at " ++ tagText tag
  | .deferred kind tag => "deferred " ++ kind ++ " " ++ tagText tag
  | .releasing kind tag => "releasing " ++ kind ++ " " ++ tagText tag
  | .released n => "released " ++ toString n ++ " native objects"
  | .deletedStore tag => "deleted store " ++ tagText tag
  | .refusedGrow tag delta =>
      "memory " ++ tagText tag ++ " refused to grow by " ++ toString delta.toNat ++ " pages"
  | .interruptRequested tag => "interrupt requested via " ++ tagText tag
  | .unparked why message => "host function panicked " ++ why.text ++ ": " ++ message

/-- A record as it is shown, its level in front. -/
def line (r : LogRecord) : String := r.level.name ++ " " ++ r.text

end LogRecord

/-- Something that happened while a step ran. -/
inductive Event where
  /-- The content of a reference was dropped. -/
  | dropped (label : String)
  /-- The closure of a function was dropped. -/
  | closureDropped (label : String)
  /-- Host code started on these arguments. -/
  | entered (label : String) (args : List Shown)
  /-- A step of host code ended with this answer. -/
  | stepDone (label : String) (index : Nat) (answer : Answer)
  | log (record : LogRecord)
  /-- A native callback started. -/
  | callback (label : String) (depth : UInt32) (args : List ShownSlot) (slots : Nat)
  /-- The call that a native callback made gave these results. -/
  | nested (label : String) (results : List ShownSlot)
  /-- A native function was deleted and its finalizer started. -/
  | finalized (label : String)
  /-- A step of a finalizer ended with this answer. -/
  | finalizerStep (label : String) (answer : Answer)

end HostEmbedding
