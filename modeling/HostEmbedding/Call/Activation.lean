import HostEmbedding.Call.Gate
import HostEmbedding.Call.Parking

/-!
# Running host code

An activation is a running closure. On entry it takes its store, its closure and its decoded
parameters; on exit the values it gave back are checked against the declared results and written all
or not at all, and everything it held is dropped.
-/

namespace HostEmbedding

structure Activation where
  code : HostCode
  type : FuncType
  closure : ObjId
  store : ObjId
  native : NativeId
  params : List (Val ObjId)
  locals : Scope
  depth : UInt32
  /-- The number of result slots the engine offers. -/
  slots : Nat

/-- The scalars that code is given for its parameters: typed code decodes them at its signature. -/
def Shape.decode : Shape → List (Val ObjId) → Except Fault (List (Scalar ObjId))
  | .generic _, params => .ok (params.map .ofVal)
  | .typed sig _ _, params => sig.params.decode params

/-- How a step or a body ends. -/
inductive Completion where
  | done (a : Answer)
  | gaveBack (vals : List (Scalar ObjId))
  | trapped (t : Trap)
  | panicked (f : Fault)

namespace Activation

/-- The steps that the body runs; none if its parameters cannot be decoded. -/
def steps (a : Activation) : Block :=
  match a.code.shape.decode a.params with
  | .ok _ => a.code.body
  | .error _ => []

def initialLocals (scalars : List (Scalar ObjId)) : Scope :=
  scalars.mapIdx fun i s => ("a" ++ toString i, .value s)

/-- The position and kinds of the first value that is not of its declared kind. -/
def firstMismatch : List Kind → List (Val ObjId) → Option (Nat × Kind × Kind)
  | k :: ks, v :: vs =>
      if v.kind = k then (firstMismatch ks vs).map fun p => (p.1 + 1, p.2)
      else some (0, k, v.kind)
  | _, _ => none

/-- Why values cannot be written as results: their number, then the number of slots, then the first
wrong kind. -/
def resultFault? (declared : List Kind) (slots : Nat) (vals : List (Val ObjId)) : Option Fault :=
  if vals.length ≠ declared.length then some (.wrongResultCount declared.length vals.length)
  else if slots ≠ declared.length then some (.wrongSlotCount slots declared.length)
  else match firstMismatch declared vals with
    | some (i, expected, found) => some (.wrongResultKind i expected found)
    | none => none

end Activation

namespace World

/-- Decode borrowed argument slots: each reference is counted once more. The gate has compared the codes
of the slots with the kinds, and they are not compared again. -/
def decodeBorrowed (w : World) (kinds : List Kind) (args : List (Slot ObjId)) :
    List (Val ObjId) × World :=
  let vals := (kinds.zip args).map fun p => p.2.read p.1
  (vals, w.retainAll (Val.refs vals))

/-- Enter host code: the engine calls back through an environment. -/
def enterHost (w : World) (env : ObjId) (native : NativeId) (args : List (Slot ObjId))
    (depth : UInt32) (slots : Nat) : Except NativeTrap Activation × World :=
  match w.entry? env with
  | some ⟨_, .env callback type store⟩ =>
      if w.strong store = 0 then
        (.error (.ofMessage "host function called after its store was dropped"), w)
      else
        let w := w.retain store
        match callback.bind fun c => (w.closure? c).map fun p => (c, p.1) with
        | none =>
            (.error (.ofMessage "host function called after it was released"), w.release store)
        | some (closure, code) =>
            let w := w.retain closure
            let (params, w) := w.decodeBorrowed type.params args
            let activation (locals : Scope) : Activation :=
              ⟨code, type, closure, store, native, params, locals, depth, slots⟩
            match code.shape.decode params with
            | .error _ => (.ok (activation []), w)
            | .ok scalars =>
                let w := w.retainAll (Scalar.refs scalars)
                let w := if code.quiet then w else w.emit (.entered code.label (scalars.map w.shown))
                (.ok (activation (Activation.initialLocals scalars)), w)
  | _ => (.error (.ofMessage "host function called after it was released"), w)

/-- The trap a panic of host code ends in, once its parameters are dropped. -/
def failHost (w : World) (a : Activation) (f : Fault) : EngineResult × World :=
  let w := w.releaseAll (Val.refs a.params)
  let (trap, w) := w.park f
  (.error trap, w)

/-- What host code gives to the engine once its locals are dropped. -/
def deliverHost (w : World) (a : Activation) : Completion → EngineResult × World
  | .panicked f => w.failHost a f
  | .trapped t =>
      if a.code.shape.fallible then
        (.error t.toNative, w.releaseAll (Val.refs a.params))
      else w.failHost a (.text t.message)
  | .done _ =>
      match Activation.resultFault? a.type.results a.slots [] with
      | some f => w.failHost a f
      | none => (.ok [], w.releaseAll (Val.refs a.params))
  | .gaveBack scalars =>
      let vals := TypeList.encode scalars
      match Activation.resultFault? a.type.results a.slots vals with
      | some f => (w.releaseAll (Val.refs vals)).failHost a f
      | none => (.ok (vals.map Slot.ofVal), w.releaseAll (Val.refs a.params))

/-- Leave host code: its locals are dropped, its outcome is delivered, and then its closure, its store
and its place in the engine are given up. -/
def leaveHost (w : World) (a : Activation) (c : Completion) : EngineResult × World :=
  let w := w.releaseAll a.locals.refs
  let (r, w) := w.deliverHost a c
  let w := (w.release a.closure).release a.store
  (r, w.leave a.native)

end World

end HostEmbedding
