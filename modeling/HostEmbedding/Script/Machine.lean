import HostEmbedding.Call.HostCall
import HostEmbedding.Host.Function
import HostEmbedding.Host.Memory
import HostEmbedding.Host.View

/-!
# The script machine

A script runs as a machine with an explicit stack: blocks of steps, calls that wait for the engine,
and bodies that wait for their steps. Whatever a running call owns stands in the machine, so the
owners of a counted reference are the heap, the globals, the stack, the context and the control.
-/

namespace HostEmbedding

/-- Whose steps are running. -/
inductive Context where
  | top
  | thread
  | finalizer (label : String)
  | body (a : Activation)

/-- A native callback that has called on. -/
structure CallbackRun where
  code : NativeCode
  store : NativeId
  args : List (Slot ObjId)
  slots : Nat

/-- What waits on the stack. -/
inductive Frame where
  /-- A list of steps, the running one first; `outer` tells a whole script or body from a block
  inside one. -/
  | block (outer : Bool) (index : Nat) (steps : Block)
  | branch (taken : Bool)
  | loop (left : Nat) (body : Block)
  | hostCall (c : HostCall)
  | nativeCall (name : Option VarName)
  | callback (c : CallbackRun)
  /-- Host code; the context it was called in comes back afterwards. -/
  | activation (saved : Context)
  | thread (saved : Context) (state : ThreadState)
  | finalizer (saved : Context)

/-- What the machine does next. -/
inductive Control where
  /-- Run the next step of the block on top. -/
  | run
  /-- Tell the frame on top how what it waited for ended. -/
  | complete (c : Completion)
  /-- Enter the engine on behalf of the frame on top. -/
  | enter (func : NativeId) (args : List (Slot ObjId)) (slots : SlotArray)
  /-- Tell the frame on top how its call into the engine ended. -/
  | engine (r : EngineResult)
  /-- The script is over; these events came from dropping its variables. -/
  | halted (ending : List Event)

/-- A top-level step that has ended. -/
structure Record where
  step : Step
  answer : Answer
  events : List Event

structure Machine where
  world : World
  globals : Scope
  context : Context
  stack : List Frame
  control : Control
  /-- The top-level steps that have ended, the latest first. -/
  answers : List Record

namespace Machine

/-! ## Control -/

/-- The running step ends. -/
def complete (m : Machine) (c : Completion) : Machine := { m with control := .complete c }

def finish (m : Machine) (a : Answer) : Machine := m.complete (.done a)

/-- The running step is refused; a guard may ask for a trap instead. -/
def refuse (m : Machine) (g : Guard) (e : ApiError) : Machine :=
  if g.errorTraps then m.complete (.trapped (.ofMessage e.message)) else m.finish (.error e)

def push (m : Machine) (f : Frame) : Machine := { m with stack := f :: m.stack }

def runBlock (m : Machine) (outer : Bool) (b : Block) : Machine :=
  { m with stack := .block outer 0 b :: m.stack, control := .run }

/-! ## Variables -/

def captures (m : Machine) : Scope :=
  match m.context with
  | .body a => ((m.world.closure? a.closure).map Prod.snd).getD []
  | _ => []

def locals (m : Machine) : Scope :=
  match m.context with
  | .body a => a.locals
  | _ => []

/-- The item under a name: a local, a capture, or a global. -/
def lookup (m : Machine) : VarName → Option Item
  | .global name => m.globals.find? name
  | .scoped name =>
      (m.locals.find? name).or ((m.captures.find? name).or (m.globals.find? name))

/-- The scope that a name is set in. -/
def scope (m : Machine) : VarName → Scope
  | .global _ => m.globals
  | .scoped _ =>
      match m.context with
      | .body a => a.locals
      | _ => m.globals

def setScope (m : Machine) (v : VarName) (s : Scope) : Machine :=
  match v with
  | .global _ => { m with globals := s }
  | .scoped _ =>
      match m.context with
      | .body a => { m with context := .body { a with locals := s } }
      | _ => { m with globals := s }

def withWorld (m : Machine) (w : World) : Machine := { m with world := w }

/-- Set a variable to an item whose references are already counted; what it held is dropped after. -/
def assign (m : Machine) (v : VarName) (item : Item) : Machine :=
  let old := (m.scope v).find? v.base
  let m := m.setScope v ((m.scope v).insert v.base item)
  match old with
  | some i => m.withWorld (m.world.releaseAll i.refs)
  | none => m

def assignCopy (m : Machine) (v : VarName) (item : Item) : Machine :=
  (m.withWorld (m.world.retainAll item.refs)).assign v item

def erase (m : Machine) (v : VarName) : Bool × Machine :=
  match (m.scope v).find? v.base with
  | some i =>
      let m := m.setScope v ((m.scope v).erase v.base)
      (true, m.withWorld (m.world.releaseAll i.refs))
  | none => (false, m)

def operand? (m : Machine) : Operand → Option (Scalar ObjId)
  | .literal s => some (s.map Empty.elim)
  | .var v =>
      match m.lookup v with
      | some (.value s) => some s
      | _ => none

def operands? (m : Machine) (os : List Operand) : Option (List (Scalar ObjId)) :=
  os.mapM m.operand?

/-- The running step names something it cannot use. -/
def unusable (m : Machine) (v : VarName) : Machine := m.finish (.unusable v.base)

def withOperand (m : Machine) (o : Operand) (k : Scalar ObjId → Machine) : Machine :=
  match m.operand? o with
  | some s => k s
  | none =>
      match o with
      | .var v => m.unusable v
      | .literal _ => m.finish (.unusable "")

def withOperands (m : Machine) (os : List Operand) (k : List (Scalar ObjId) → Machine) : Machine :=
  match m.operands? os with
  | some ss => k ss
  | none => m.finish (.unusable "")

def withStore (m : Machine) (v : VarName) (k : ObjId → Machine) : Machine :=
  match m.lookup v with
  | some (.store s) => k s
  | _ => m.unusable v

def withMemory (m : Machine) (v : VarName) (k : NativeId → LinearMemory → Machine) : Machine :=
  match m.lookup v with
  | some (.memory h) =>
      match m.world.memoryOf? h with
      | some (n, mem) => k n mem
      | none => m.unusable v
  | _ => m.unusable v

def withHandle (m : Machine) (v : VarName) (k : Item → ObjId → Handle → Machine) : Machine :=
  match m.lookup v with
  | some item =>
      let id? := match item with
        | .memory h => some h
        | .func h _ => some h
        | .view h => some h
        | .interrupt h => some h
        | .typedFunc h _ _ => some h
        | _ => none
      match id? with
      | some id =>
          match m.world.handle? id with
          | some h => k item id h
          | none => m.unusable v
      | none => m.unusable v
  | none => m.unusable v

def withCell (m : Machine) (v : VarName) (k : ObjId → Option Item → Machine) : Machine :=
  match m.lookup v with
  | some (.cell c) =>
      match m.world.object? c with
      | some (.cell content) => k c content
      | _ => m.unusable v
  | _ => m.unusable v

/-- Set a variable to something new if there is something new. -/
def assignNew (m : Machine) (v : VarName) (item? : Option Item) (a : Answer) : Machine :=
  match item? with
  | some i => (m.assign v i).finish a
  | none => m.unusable v

end Machine

end HostEmbedding
