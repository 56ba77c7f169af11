import HostEmbedding.Script.Step

/-!
# Host objects

Shared host objects live in a heap and are counted. An `Item` is what a variable holds: a value, or a
handle on something shared. `Item.refs` lists the counted references that an item owns, one for each.
-/

namespace HostEmbedding

/-- The address of a counted object in the heap. -/
structure ObjId where
  index : Nat
  deriving DecidableEq

/-- The address of a native object, shared by every view of it. -/
structure NativeId where
  index : Nat
  deriving DecidableEq

/-- What a variable holds. -/
inductive Item where
  | engine (config : Config)
  | store (store : ObjId)
  | memory (handle : ObjId)
  | func (handle : ObjId) (type : FuncType)
  | view (handle : ObjId)
  | interrupt (handle : ObjId)
  | typedFunc (handle : ObjId) (type : FuncType) (sig : TypedSignature)
  | value (s : Scalar ObjId)
  | cell (cell : ObjId)
  | raw (native : NativeId)
  deriving DecidableEq

namespace Item

def refs : Item → List ObjId
  | .engine _ => []
  | .store s => [s]
  | .memory h => [h]
  | .func h _ => [h]
  | .view h => [h]
  | .interrupt h => [h]
  | .typedFunc h _ _ => [h]
  | .value s => s.ref?.toList
  | .cell c => [c]
  | .raw _ => []

end Item

/-- Variables in the order they were first set. -/
abbrev Scope := List (String × Item)

namespace Scope

def find? (s : Scope) (name : String) : Option Item := s.lookup name

/-- Set a name: in place if it exists, at the end if not. -/
def insert (name : String) (item : Item) : Scope → Scope
  | [] => [(name, item)]
  | (n, i) :: rest => if n = name then (n, item) :: rest else (n, i) :: insert name item rest

def erase (name : String) (s : Scope) : Scope := s.filter fun p => p.1 ≠ name

def refs (s : Scope) : List ObjId := s.flatMap fun p => p.2.refs

end Scope

inductive Payload where
  | text (s : String)
  | int (n : Int)
  | unit
  | item (i : Item)
  deriving DecidableEq

def Payload.refs : Payload → List ObjId
  | .item i => i.refs
  | _ => []

/-- The queues of a store: native objects whose last owning handle is gone, by kind, in the order they
were queued. -/
structure Pending where
  memories : List NativeId := []
  externs : List NativeId := []
  interrupts : List NativeId := []
  funcs : List NativeId := []
  deriving DecidableEq

namespace Pending

/-- The queued objects in the order a flush releases them. -/
def inOrder (p : Pending) : List NativeId := p.memories ++ p.externs ++ p.interrupts ++ p.funcs

def size (p : Pending) : Nat := p.inOrder.length

end Pending

/-- What a handle keeps besides its pointer; it determines the kind of the handle. A memory handle
shares the access lock of its memory, and an owning function handle holds the environment. -/
inductive HandleState where
  | memory (lock : Nat)
  | func (env : Option ObjId)
  | view
  | interrupt
  deriving DecidableEq

namespace HandleState

def kindName : HandleState → String
  | .memory _ => "memory"
  | .func _ => "func"
  | .view => "extern"
  | .interrupt => "interrupt handle"

def env? : HandleState → Option ObjId
  | .func env => env
  | _ => none

end HandleState

def Pending.push (p : Pending) (n : NativeId) : HandleState → Pending
  | .memory _ => { p with memories := p.memories ++ [n] }
  | .func _ => { p with funcs := p.funcs ++ [n] }
  | .view => { p with externs := p.externs ++ [n] }
  | .interrupt => { p with interrupts := p.interrupts ++ [n] }

/-- A handle on a native object. Without an owner it owns the object; with one it is a view that keeps
the owner alive. -/
structure Handle where
  native : NativeId
  store : ObjId
  owner : Option ObjId
  state : HandleState
  deriving DecidableEq

namespace Handle

def isOwning (h : Handle) : Bool := h.owner.isNone

def refs (h : Handle) : List ObjId := h.store :: (h.owner.toList ++ h.state.env?.toList)

end Handle

inductive Object where
  /-- A store: its native object, its configuration and its queues. -/
  | store (native : NativeId) (config : Config) (pending : Pending)
  | handle (h : Handle)
  /-- What a native function is registered with: the closure until it is detached, the type, and the
  store, which is not counted. -/
  | env (closure : Option ObjId) (type : FuncType) (store : ObjId)
  | closure (code : HostCode) (captures : Scope)
  /-- The content of a reference under the label it was made with. -/
  | referent (label : String) (payload : Payload)
  | cell (content : Option Item)

namespace Object

def refs : Object → List ObjId
  | .store .. => []
  | .handle h => h.refs
  | .env callback _ _ => callback.toList
  | .closure _ captures => captures.refs
  | .referent _ payload => payload.refs
  | .cell content => content.toList.flatMap Item.refs

end Object

/-- An object with its count; it is alive while the count is positive and never comes back. -/
structure Entry where
  strong : Nat
  object : Object

end HostEmbedding
