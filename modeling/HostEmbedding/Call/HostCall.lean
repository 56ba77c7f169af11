import HostEmbedding.Call.Activation

/-!
# Calls from the host

A host call checks its arguments against the signature, encodes them, opens a slot for a panic and
enters the engine. When the engine returns, the slot is closed and the raw arguments are released;
then a parked panic is resumed, or a trap is returned, or the results are decoded.
-/

namespace HostEmbedding

/-- What a caller asks for: it owns one reference to the handle and one for each argument. -/
structure CallRequest where
  /-- The handle that is called. -/
  func : ObjId
  type : FuncType
  args : List (Val ObjId)
  /-- Where the results are to be kept. -/
  bind : List VarName
  /-- The typed signature of a typed call. -/
  sig : Option TypedSignature

/-- The references a request owns, in the order they are dropped. -/
def CallRequest.refs (c : CallRequest) : List ObjId := Val.refs c.args ++ [c.func]

/-- A call in progress: it also owns the raw arguments that the engine borrows. -/
structure HostCall where
  request : CallRequest
  raw : List (Slot ObjId)

/-- Why arguments do not fit a signature: their number, then the first wrong kind. -/
def argumentFault? (params : List Kind) (args : List (Val ObjId)) : Option Fault :=
  if args.length ≠ params.length then some (.wrongArgCount params.length args.length)
  else match Activation.firstMismatch params args with
    | some (i, expected, found) => some (.wrongArgKind i expected found)
    | none => none

inductive CallOutcome where
  | returned (vals : List (Val ObjId))
  | trapped (t : Trap)
  | panicked (f : Fault)

namespace World

def encodeArgs (w : World) (args : List (Val ObjId)) : List (Slot ObjId) × World :=
  let raw := args.map Slot.ofVal
  (raw, w.retainAll (Slot.refs raw))

/-- End a host call once the engine has returned. The kinds of the results were compared with the declared
ones before the results were written, and they are not compared again. -/
def finishCall (w : World) (type : FuncType) (raw : List (Slot ObjId)) (r : EngineResult) :
    CallOutcome × World :=
  let (fault, w) := w.popFrame
  let w := w.releaseAll (Slot.refs raw)
  match fault, r with
  | some f, _ => (.panicked f, w)
  | none, .error t => (.trapped (Trap.ofNative t), w)
  | none, .ok slots => (.returned ((type.results.zip slots).map fun p => p.2.read p.1), w)

end World

end HostEmbedding
