import HostEmbedding.Script.Machine
import HostEmbedding.Text.Lossy

/-!
# Calls in a script

How the machine starts a call, passes the engine's gate, runs host code or a native callback, and
ends the call. A call keeps its function, its arguments and its raw arguments until it ends; results
are dropped first, then the arguments, then the function.
-/

namespace HostEmbedding.Machine

/-! ## Host calls -/

def startCall (m : Machine) (native : NativeId) (store : ObjId) (c : CallRequest) : Machine :=
  let w := m.world.flush store
  match argumentFault? c.type.params c.args with
  | some f => (m.withWorld (w.releaseAll c.refs)).complete (.panicked f)
  | none =>
      let (raw, w) := w.encodeArgs c.args
      { m with
        world := w.pushFrame
        stack := .hostCall ⟨c, raw⟩ :: m.stack
        control := .enter native raw ⟨c.type.results.length, false⟩ }

def call (m : Machine) (v : VarName) (args : List Operand) (bind : List VarName) : Machine :=
  m.withHandle v fun item id h =>
    match item with
    | .func _ type =>
        m.withOperands args fun ss =>
          let vals := TypeList.encode ss
          (m.withWorld ((m.world.retain id).retainAll (Val.refs vals))).startCall h.native h.store
            ⟨id, type, vals, bind, none⟩
    | _ => m.unusable v

def typedCall (m : Machine) (v : VarName) (args : List Operand) (bind : List VarName) : Machine :=
  m.withHandle v fun item id h =>
    match item with
    | .typedFunc _ type sig =>
        m.withOperands args fun ss =>
          let vals := TypeList.encode ss
          (m.withWorld ((m.world.retain id).retainAll (Val.refs vals))).startCall h.native h.store
            ⟨id, type, vals, bind, some sig⟩
    | _ => m.unusable v

/-- Keep copies of results under names, in order. -/
def bindAll (m : Machine) (names : List VarName) (ss : List (Scalar ObjId)) : Machine :=
  (names.zip ss).foldl (fun m p => m.assignCopy p.1 (.value p.2)) m

/-- End a call that returned: keep the results, then drop them, the arguments and the function. A
typed call drops its arguments first. -/
def returnCall (m : Machine) (c : CallRequest) (vals : List (Val ObjId)) : Machine :=
  match c.sig with
  | none =>
      let shown := m.world.shownVals vals
      let m := m.bindAll c.bind (vals.map .ofVal)
      (m.withWorld ((m.world.releaseAll (Val.refs vals)).releaseAll c.refs)).finish (.results shown)
  | some sig =>
      let w := m.world.releaseAll (Val.refs c.args)
      match sig.results.decode vals with
      | .ok ss =>
          let shown := ss.map w.shown
          let m := (m.withWorld w).bindAll c.bind ss
          (m.withWorld ((m.world.releaseAll (Val.refs vals)).release c.func)).finish (.results shown)
      | .error f =>
          (m.withWorld ((w.releaseAll (Val.refs vals)).release c.func)).complete (.panicked f)

/-- End a host call once the engine has returned. -/
def endCall (m : Machine) (c : HostCall) (r : EngineResult) : Machine :=
  match m.world.finishCall c.request.type c.raw r with
  | (.returned vals, w) => (m.withWorld w).returnCall c.request vals
  | (.trapped t, w) => (m.withWorld (w.releaseAll c.request.refs)).complete (.trapped t)
  | (.panicked f, w) => (m.withWorld (w.releaseAll c.request.refs)).complete (.panicked f)

/-! ## Native callbacks -/

/-- What a native callback leaves in its result slots: as many replies as there are slots; a slot
without one stays blank. -/
def fillSlots (slots : Nat) (reply : List (Slot ObjId)) : List (Slot ObjId) :=
  reply.take slots ++ List.replicate (slots - reply.length) Slot.blank

/-- The end of a native callback: its trap, or its reply. -/
def replyOf (c : CallbackRun) : EngineResult :=
  match c.code.trap with
  | some bytes => .error (.ofMessage (Lossy.decode bytes))
  | none =>
      match c.code.reply with
      | .echo => .ok (fillSlots c.slots c.args)
      | .slots ss => .ok (fillSlots c.slots (ss.map (Slot.map Empty.elim)))

def endCallback (m : Machine) (c : CallbackRun) (r : EngineResult) : Machine :=
  { m with world := m.world.leave c.store, control := .engine r }

def shownSlots (ss : List (Slot ObjId)) : List ShownSlot := ss.map (Slot.map fun _ => ())

/-- The function that a native callback calls on, and the number of its results; none when no live
function stands under the name. -/
def nestedFunc? (m : Machine) (c : CallbackRun) : Option (NativeId × Nat) :=
  match c.code.nested.bind fun v => m.globals.find? v.base with
  | some (.raw n) => (m.world.nativeFunc? n).map fun f => (n, f.type.results.length)
  | _ => none

/-- Start a native callback; it may call on with its own arguments, and gives the function it calls a
slot for each result. -/
def startCallback (m : Machine) (c : CallbackRun) (depth : UInt32) : Machine :=
  let m := m.withWorld (m.world.emit (.callback c.code.label depth (shownSlots c.args) c.slots))
  match m.nestedFunc? c with
  | some (n, results) =>
      { m with stack := .callback c :: m.stack, control := .enter n c.args ⟨results, false⟩ }
  | none => m.endCallback c (replyOf c)

/-- Go on with a native callback once the call it made has ended: its trap is passed on. -/
def resumeCallback (m : Machine) (c : CallbackRun) : EngineResult → Machine
  | .error t => m.endCallback c (.error t)
  | .ok results =>
      (m.withWorld (m.world.emit (.nested c.code.label (shownSlots results)))).endCallback c
        (replyOf c)

/-! ## Through the engine -/

/-- What a body does first: run its steps, or panic if its parameters cannot be decoded. -/
def startOf (a : Activation) : Control :=
  match a.code.shape.decode a.params with
  | .ok _ => .run
  | .error f => .complete (.panicked f)

/-- Enter the engine on behalf of the frame on top. -/
def enter (m : Machine) (n : NativeId) (args : List (Slot ObjId)) (slots : SlotArray) : Machine :=
  match m.world.tryEnter n args slots.count with
  | (.error t, w) => { m with world := w, control := .engine (.error t) }
  | (.ok admitted, w) =>
      match admitted.func.callback with
      | .native code =>
          (m.withWorld w).startCallback ⟨code, admitted.func.store, args, slots.available⟩
            admitted.depth
      | .host env =>
          match w.enterHost env admitted.func.store args admitted.depth slots.available with
          | (.error t, w) =>
              { m with world := w.leave admitted.func.store, control := .engine (.error t) }
          | (.ok a, w) =>
              { m with
                world := w
                context := .body a
                stack := .block true 0 a.steps :: .activation m.context :: m.stack
                control := startOf a }

def leaveBody (m : Machine) (saved : Context) (a : Activation) (c : Completion) : Machine :=
  let (r, w) := m.world.leaveHost a c
  { m with world := w, context := saved, control := .engine r }

end HostEmbedding.Machine
