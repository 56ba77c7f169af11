import HostEmbedding.Proofs.Call.Callable
import HostEmbedding.Proofs.Machine.Actions

/-!
# Steps and calls begin

A step that ends leaves the machine coherent, with its completion on the way to the block that waits
for it. A call that begins opens its slot and waits for the engine; the gate refuses it, or its body
starts on top of it.
-/

namespace HostEmbedding

open World (Evolves)

namespace Machine

variable {m₀ m m' : Machine} {extra : List ObjId}

/-! ## The ledger -/

/-- While a script runs, the drops reported are those of its answers and of the running step. -/
theorem reported_going (going : m.isHalted = false) :
    m.reported = (m.answers.flatMap Record.events).filterMap Event.drop? ++ m.world.drops := by
  unfold isHalted at going
  unfold reported events
  cases control : m.control with
  | halted ending =>
      rw [control] at going
      cases going
  | _ =>
      rw [List.append_nil, List.filterMap_append]
      rfl

theorem ledger_going (ledger : ∀ d, m.world.fallen.count d = m.reported.count d)
    (going : m.isHalted = false) (going' : m'.isHalted = false) (answers : m'.answers = m.answers)
    (change : ∀ d, m'.world.fallen.count d + m.world.drops.count d =
      m.world.fallen.count d + m'.world.drops.count d) (d : Drop) :
    m'.world.fallen.count d = m'.reported.count d := by
  have before := ledger d
  have step := change d
  rw [reported_going going, List.count_append] at before
  rw [reported_going going', answers, List.count_append]
  omega

theorem not_cleared (going : m.isHalted = false) (ending : List Event)
    (halted : m.control = .halted ending) : m.globals = [] := by
  unfold isHalted at going
  rw [halted] at going
  cases going

/-! ## Steps that may end -/

/-- A machine whose running step may end: a block waits for it, and nothing is out of order. -/
structure Poised (m : Machine) : Prop where
  stacked : Stacked m.world.shapes m.context m.stack m.world.thread.frames
  waits : Frame.Waits m.stack
  depth : ∀ n, m.world.depthOf n = m.entered.count n
  ledger : ∀ d, m.world.fallen.count d = m.reported.count d
  going : m.isHalted = false

/-- A block that waits for the step that begins. -/
theorem Coherent.poised (coherent : m.Coherent) (running : m.control = .run)
    (waits : Frame.Waits m.stack) : m.Poised := by
  have placed := coherent.placed
  rw [running] at placed
  refine ⟨?_, waits, coherent.depth, coherent.ledger, by simp [isHalted, running]⟩
  generalize m.stack = stack at placed
  generalize m.world.thread.frames = frames at placed
  cases placed with
  | run stacked => exact stacked

namespace Poised

variable (poised : m₀.Poised)
include poised

/-- The stack of a machine that is busy with the step. -/
theorem stack (busy : Busy m₀ extra m) :
    Stacked m.world.shapes m.context m.stack m.world.thread.frames ∧ Frame.Waits m.stack := by
  have stacked := busy.stacked poised.stacked
  rw [← busy.evolves.frames] at stacked
  rw [busy.stack] at stacked ⊢
  exact ⟨stacked, poised.waits⟩

/-- When a step ends the machine is coherent. -/
theorem ends (ends : Ends m₀ m) : m.Coherent := by
  obtain ⟨busy, c, completes, fits⟩ := ends
  have going : m.isHalted = false := by simp [isHalted, completes]
  obtain ⟨stacked, waits⟩ := poised.stack busy
  refine ⟨busy.world, busy.globals, busy.distinct, ?_, fun n => ?_, ?_, not_cleared going⟩
  · rw [completes]
    exact .complete stacked fits (.inl waits)
  · rw [busy.evolves.depth, busy.entered]
    exact poised.depth n
  · exact ledger_going poised.ledger poised.going going busy.answers busy.evolves.ledger

end Poised

/-! ## A call begins -/

/-- The references that usable values are passed with are alive. -/
theorem Busy.args_alive (busy : Busy m₀ extra m) {ss : List (Scalar ObjId)} (usable : ∀ s ∈ ss, m.Usable (.value s)) :
    ∀ r ∈ Val.refs (TypeList.encode ss), m.world.strong r ≠ 0 := fun r mem => by
  rw [Scalar.refs_encode] at mem
  exact busy.alive_of_holds (busy.refs_usable usable r mem).1

/-- What a request of a call is about: a function of the type it is called with. -/
structure Requests (m : Machine) (native : NativeId) (store : ObjId) (c : CallRequest) : Prop where
  handle : ∃ h f, m.world.shapes.IsHandle c.func h ∧ h.native = native ∧ h.store = store ∧
    m.world.shapes.native? native = some (.func f) ∧ f.type = c.type.toNative
  args : ∀ r ∈ Val.refs c.args, m.world.shapes.IsReferent r
  sig : ∀ sig, c.sig = some sig → sig.funcType = c.type

/-- How a step begins: it ends at once, or a call of it waits for the engine, or a block inside it
begins. -/
inductive Begun (m₀ m : Machine) : Prop where
  | ended (ends : Ends m₀ m)
  | called {c : HostCall} {h : Handle} (coherent : m.Coherent)
      (stack : m.stack = .hostCall c :: m₀.stack) (context : ∃ s, m.context = m₀.context.withLocals s)
      (control : m.control = .enter h.native c.raw ⟨c.request.type.results.length, false⟩)
      (grows : m₀.world.shapes.Grows m.world.shapes)
  | enclosed {outer : Bool} {f : Frame} {body : Block} (coherent : m.Coherent)
      (stack : m.stack = .block outer 0 body :: f :: m₀.stack)
      (context : Frame.context m.context [f] = m₀.context) (control : m.control = .run)
      (grows : m₀.world.shapes.Grows m.world.shapes)

theorem Poised.begun (poised : m₀.Poised) (begun : Begun m₀ m) : m.Coherent := by
  cases begun with
  | ended ends => exact poised.ends ends
  | called coherent => exact coherent
  | enclosed coherent => exact coherent

/-- A step that begins takes back nothing that was known. -/
theorem Begun.grows (begun : Begun m₀ m) : m₀.world.shapes.Grows m.world.shapes := by
  cases begun with
  | ended ends => exact ends.busy.evolves.shapes
  | called _ _ _ _ grows => exact grows
  | enclosed _ _ _ _ grows => exact grows

/-- A call that waits for the engine has an open slot, and owns its function, its arguments and its
raw arguments. -/
theorem Poised.push (poised : m₀.Poised) {c : HostCall} {h : Handle}
    (busy : Busy m₀ (Slot.refs c.raw ++ c.request.refs) m) (fits : c.Fits m.world.shapes)
    (known : m.world.shapes.IsHandle c.request.func h) :
    Begun m₀ { m with
      world := m.world.pushFrame
      stack := .hostCall c :: m.stack
      control := .enter h.native c.raw ⟨c.request.type.results.length, false⟩ } := by
  obtain ⟨stacked, waits⟩ := poised.stack busy
  have opened : m.world.pushFrame.Sound (Slot.refs c.raw ++ c.request.refs ++ m.owns) :=
    busy.world.modifyThread rfl rfl
  refine .called ⟨opened.regroup fun id => ?_, busy.globals, busy.distinct, ?_, fun n => ?_, ?_,
    not_cleared rfl⟩ (congrArg _ busy.stack) busy.context rfl busy.evolves.shapes
  · simp only [held, Control.refs, owns, List.flatMap_cons, Frame.refs, List.count_append,
      List.count_nil]
    omega
  · exact .enter (.hostCall stacked waits fits) known
  · have depth := poised.depth n
    rw [← busy.entered] at depth
    exact (congrFun busy.evolves.depth n).trans depth
  · exact ledger_going poised.ledger poised.going rfl busy.answers busy.evolves.ledger

/-- A call whose function and arguments are counted for it begins, or panics over its arguments. -/
theorem Poised.startCall (poised : m₀.Poised) {native : NativeId} {store : ObjId} {c : CallRequest}
    (busy : Busy m₀ c.refs m) (requests : m.Requests native store c) :
    Begun m₀ (m.startCall native store c) := by
  obtain ⟨h, f, known, rfl, rfl, func, type⟩ := requests.handle
  obtain ⟨k, entry⟩ := World.isHandle_iff.mp known
  have handle : h.Fits m.world.shapes := busy.world.objects entry
  obtain ⟨s, isStore, -⟩ := handle.state
  have flushed : Busy m₀ c.refs (m.withWorld (m.world.flush h.store)) :=
    busy.withWorld (busy.world.flush isStore) (World.drains_flush _ h.store).evolves
  have grows : m.world.shapes.Grows (m.world.flush h.store).shapes :=
    (World.drains_flush m.world h.store).evolves.shapes
  unfold Machine.startCall
  dsimp only
  split
  · next fault _ =>
      have released : Busy m₀ [] (m.withWorld ((m.world.flush h.store).releaseAll c.refs)) :=
        flushed.withWorld flushed.world.releaseAll (World.drains_releaseAll c.refs _).evolves
      exact .ended (released.raise rfl)
  · next checked =>
      have kinds := argumentFault?_eq_none.mp checked
      have alive : ∀ r ∈ Val.refs c.args, (m.world.flush h.store).strong r ≠ 0 := fun r mem =>
        flushed.world.alive (List.mem_append_left _ (List.mem_append_left _ mem))
      let raw := c.args.map Slot.ofVal
      let w := (m.world.flush h.store).retainAll (Slot.refs raw)
      have refs : Slot.refs raw = Val.refs c.args := Slot.refs_ofVals c.args
      have counted : Busy m₀ (Slot.refs raw ++ c.refs) (m.withWorld w) :=
        flushed.retainAll (by rw [refs]; exact alive)
      have grown : m.world.shapes.Grows w.shapes :=
        grows.trans (World.evolves_retainAll _ (by rw [refs]; exact alive)).shapes
      have fits : HostCall.Fits w.shapes ⟨c, raw⟩ :=
        ⟨⟨h, f, grown.object known, grown.native func, type⟩,
          fun r mem => (requests.args r mem).mono grown, kinds, requests.sig, rfl⟩
      exact poised.push (m := m.withWorld w) (c := ⟨c, raw⟩) counted fits (grown.object known)

/-- A call counts its function and its arguments before it begins. -/
theorem Poised.request (poised : m₀.Poised) (busy : Busy m₀ [] m) {id : ObjId} {h : Handle}
    {f : NativeFunc} {type : FuncType} (found : m.world.handle? id = some h)
    (func : m.world.shapes.native? h.native = some (.func f)) (typed : f.type = type.toNative)
    {ss : List (Scalar ObjId)} (usable : ∀ s ∈ ss, m.Usable (.value s)) (names : List VarName)
    (sig : Option TypedSignature) (sigs : ∀ s, sig = some s → s.funcType = type) :
    Begun m₀ ((m.withWorld ((m.world.retain id).retainAll (Val.refs (TypeList.encode ss)))).startCall
      h.native h.store ⟨id, type, TypeList.encode ss, names, sig⟩) := by
  obtain ⟨known, alive⟩ := World.handle?_eq_some.mp found
  let vals := TypeList.encode ss
  have refs : Val.refs vals = Scalar.refs ss := Scalar.refs_encode ss
  have held := busy.refs_usable usable
  have self : ∀ x ∈ [id], m.world.strong x ≠ 0 := fun x mem => by
    cases List.mem_singleton.mp mem
    exact alive
  have once : Busy m₀ [id] (m.withWorld (m.world.retain id)) := busy.retainAll self
  have args : ∀ r ∈ Val.refs vals, (m.world.retain id).strong r ≠ 0 := fun r mem =>
    World.strong_retain_ne_zero (busy.args_alive usable r mem)
  have counted : Busy m₀ (Val.refs vals ++ [id])
      (m.withWorld ((m.world.retain id).retainAll (Val.refs vals))) := once.retainAll args
  have grows : m.world.shapes.Grows ((m.world.retain id).retainAll (Val.refs vals)).shapes :=
    (World.evolves_retain alive).shapes.trans (World.evolves_retainAll _ args).shapes
  have requests : Requests (m.withWorld ((m.world.retain id).retainAll (Val.refs vals))) h.native
      h.store ⟨id, type, vals, names, sig⟩ :=
    ⟨⟨h, f, grows.object known, rfl, rfl, grows.native func, typed⟩,
      fun r mem => (held r (by rwa [refs] at mem)).2.mono grows, sigs⟩
  exact poised.startCall counted requests

theorem Coherent.call (coherent : m.Coherent) (running : m.control = .run)
    (waits : Frame.Waits m.stack) (v : VarName) (args : List Operand) (names : List VarName) :
    Begun m (m.call v args names) := by
  have poised := coherent.poised running waits
  have busy := coherent.busy (by rw [running]; rfl)
  refine busy.withHandle (fun _ ends => .ended ends) fun item id h _ usable mem found => ?_
  split
  · next _ type _ =>
      cases List.mem_singleton.mp mem
      obtain ⟨h', env, f, known, -, func, typed⟩ := usable.fits
      cases Option.some.inj (known.symm.trans (World.handle?_eq_some.mp found).1)
      exact busy.withOperands (fun _ ends => .ended ends) fun ss _ usable =>
        poised.request busy found func typed usable names none fun s none => nomatch none
  · exact .ended (busy.unusable v)

theorem Coherent.typedCall (coherent : m.Coherent) (running : m.control = .run)
    (waits : Frame.Waits m.stack) (v : VarName) (args : List Operand) (names : List VarName) :
    Begun m (m.typedCall v args names) := by
  have poised := coherent.poised running waits
  have busy := coherent.busy (by rw [running]; rfl)
  refine busy.withHandle (fun _ ends => .ended ends) fun item id h _ usable mem found => ?_
  split
  · next _ type sig _ =>
      cases List.mem_singleton.mp mem
      obtain ⟨sigType, h', env, f, known, -, func, typed⟩ := usable.fits
      cases Option.some.inj (known.symm.trans (World.handle?_eq_some.mp found).1)
      refine busy.withOperands (fun _ ends => .ended ends) fun ss _ usable =>
        poised.request busy found func typed usable names (some sig) fun s same => ?_
      cases same
      exact sigType
  · exact .ended (busy.unusable v)

/-! ## The engine is entered -/

/-- A call about to enter the engine, with all that its function reaches. -/
structure Entering (m : Machine) (c : HostCall) (h : Handle) (callee : Callee) (s : NativeStore) :
    Prop where
  control : m.control =
    .enter h.native (c.request.args.map Slot.ofVal) ⟨callee.type.results.length, false⟩
  stack : ∃ below, m.stack = .hostCall c :: below
  stacked : Stacked m.world.shapes m.context m.stack m.world.thread.frames
  fits : c.Fits m.world.shapes
  known : m.world.shapes.IsHandle c.request.func h
  callable : m.world.Callable h callee
  type : callee.type = c.request.type
  store : m.world.nativeStore? callee.native = some s

/-- Whatever is about to enter the engine is a call, and its function can be called. -/
theorem Coherent.entering (coherent : m.Coherent) {n : NativeId} {args : List (Slot ObjId)}
    {slots : SlotArray} (control : m.control = .enter n args slots) :
    ∃ c h callee s, m.Entering c h callee s := by
  have placed := coherent.placed
  rw [control] at placed
  generalize same : m.stack = stack at placed
  generalize frames : m.world.thread.frames = slots' at placed
  cases placed with
  | @enter c h below _ stacked known =>
      obtain ⟨fits, -⟩ := stacked.call
      have owned : c.request.func ∈ m.held := by
        unfold held owns
        rw [same]
        simp [Frame.refs, CallRequest.refs]
      have found := World.handle?_eq_some.mpr ⟨known, coherent.world.alive owned⟩
      obtain ⟨h', f, known', native, type⟩ := fits.func
      cases Option.some.inj (known.symm.trans known')
      obtain ⟨callee, callable, rfl⟩ := coherent.world.callable found native
      obtain ⟨s, store⟩ := callable.store
      have types : callee.type = c.request.type := by
        have read := congrArg FuncType.ofNative type
        rwa [FuncType.ofNative_toNative, FuncType.ofNative_toNative] at read
      refine ⟨c, h, callee, s, ?_, ⟨below, same⟩, ?_, fits, known, callable, types, store⟩
      · rw [control, fits.raw, types]
      · rw [same, frames]
        exact stacked

def startBody (m : Machine) (c : HostCall) (h : Handle) (callee : Callee) (depth : UInt32) : Machine :=
  { m with
    world := (m.world.modifyNativeStore callee.native fun s => { s with depth := s.depth + 1 }).started
      h.store callee.closure callee.code c.request.args
    context := .body ⟨callee.code, callee.type, callee.closure, h.store, callee.native,
      c.request.args, Activation.initialLocals (callee.code.shape.scalars c.request.args), depth,
      callee.type.results.length⟩
    stack := .block true 0 callee.code.body :: .activation m.context :: m.stack
    control := .run }

def refused (m : Machine) (t : NativeTrap) : Machine := { m with control := .engine (.error t) }

namespace Entering

variable {c : HostCall} {h : Handle} {callee : Callee} {s : NativeStore}

/-- The kinds of the arguments are those that the code takes. -/
theorem kinds (entering : m.Entering c h callee s) :
    c.request.args.map Val.kind = callee.code.shape.funcType.params := by
  rw [entering.callable.shape, entering.type]
  exact entering.fits.kinds

/-- A call is refused for a pending interrupt or for exhausted depth, or else its body starts. -/
theorem step_eq (entering : m.Entering c h callee s) (aborted : m.world.aborted = none) :
    m.step =
      if s.interrupt then
        (m.withWorld (m.world.modifyNativeStore callee.native fun s =>
          { s with interrupt := false })).refused (.ofCode .interrupt)
      else if s.config.maxCallDepth ≤ s.depth then m.refused (.ofCode .stackOverflow)
      else m.startBody c h callee (s.depth + 1) := by
  have kinds : c.request.args.map Val.kind = callee.type.params := by
    rw [entering.type]
    exact entering.fits.kinds
  have decoded := Shape.decode_scalars entering.kinds
  have gate := entering.callable.tryEnter entering.store kinds
  unfold Machine.step
  rw [aborted, entering.control]
  dsimp only [Option.isSome_none]
  simp only [Bool.false_eq_true, if_false]
  unfold Machine.enter
  rw [gate]
  split_ifs
  · rfl
  · rfl
  · obtain ⟨k, env⟩ := entering.callable.env
    have started := World.enterHost_attached
      (w := m.world.modifyNativeStore callee.native fun s => { s with depth := s.depth + 1 })
      env entering.callable.storeAlive entering.callable.closure kinds decoded callee.native (s.depth + 1)
      callee.type.results.length
    dsimp only [SlotArray.available, Bool.false_eq_true, if_false]
    simp only [Bool.false_eq_true, if_false]
    rw [started]
    dsimp only [startOf]
    rw [Activation.steps_eq decoded, decoded]
    rfl

/-- A refused call goes back with a trap. -/
theorem refuse (entering : m.Entering c h callee s) (coherent : m.Coherent) {w : World}
    (sound : w.Sound m.held) (evolves : Evolves m.world w) (t : NativeTrap) :
    ((m.withWorld w).refused t).Coherent := by
  have going : m.isHalted = false := by simp [isHalted, entering.control]
  have idle : m.control.refs = [] := by rw [entering.control]; rfl
  obtain ⟨below, stack⟩ := entering.stack
  have stacked := entering.stacked
  rw [stack] at stacked
  obtain ⟨-, -, slots, opened, -⟩ := stacked.call
  refine ⟨?_, coherent.globals.mono evolves.shapes, coherent.distinct, ?_, fun n => ?_,
    ledger_going coherent.ledger going rfl rfl evolves.ledger, not_cleared rfl⟩
  · unfold held at sound
    rw [idle] at sound
    exact sound
  · show Placed w.shapes m.context m.stack w.thread.frames (.engine (.error t))
    rw [opened] at stacked
    rw [stack, evolves.frames, opened]
    exact .engine (stacked.mono evolves.shapes) (.trap t)
  · exact (congrFun evolves.depth n).trans (coherent.depth n)

/-- A body that starts is counted in its store and owns what it was given. -/
theorem start (entering : m.Entering c h callee s) (coherent : m.Coherent)
    (admitted : s.depth < s.config.maxCallDepth) :
    (m.startBody c h callee (s.depth + 1)).Coherent := by
  have going : m.isHalted = false := by simp [isHalted, entering.control]
  have idle : m.control.refs = [] := by rw [entering.control]; rfl
  obtain ⟨isClosure, closureAlive⟩ := World.closure?_eq_some.mp entering.callable.closure
  have refs := Shape.refs_scalars entering.kinds
  let change (s : NativeStore) : NativeStore := { s with depth := s.depth + 1 }
  let counted := m.world.modifyNativeStore callee.native change
  have shapes : counted.shapes = m.world.shapes :=
    World.shapes_modifyNativeStore (f := change) (fun _ => rfl) callee.native
  have alive : ∀ r ∈ Val.refs c.request.args, counted.strong r ≠ 0 := by
    intro r mem
    refine coherent.world.alive (List.mem_append_right _ ?_)
    obtain ⟨below, stack⟩ := entering.stack
    unfold owns
    rw [stack]
    simp [Frame.refs, CallRequest.refs, mem]
  obtain ⟨sound, evolves⟩ := (coherent.world.modifyNativeStore (f := change) (fun _ => rfl)
    callee.native).started entering.callable.storeAlive closureAlive refs alive
  have grows : m.world.shapes.Grows (counted.started h.store callee.closure callee.code
      c.request.args).shapes := by
    rw [← shapes]
    exact evolves.shapes
  refine ⟨?_, coherent.globals.mono grows, coherent.distinct, ?_, fun n => ?_, ?_, not_cleared rfl⟩
  · refine sound.regroup fun id => ?_
    unfold held
    rw [idle]
    simp only [startBody, Control.refs, owns, Context.refs, List.flatMap_cons, Frame.refs,
      List.count_append, List.count_nil, Activation.refs_initialLocals]
    omega
  · obtain ⟨below, stack⟩ := entering.stack
    have frames : (counted.started h.store callee.closure callee.code c.request.args).thread.frames =
        m.world.thread.frames := evolves.frames
    have stacked := entering.stacked.mono grows
    show Placed _ _ (.block true 0 callee.code.body :: .activation m.context :: m.stack)
      (counted.started h.store callee.closure callee.code c.request.args).thread.frames .run
    rw [stack] at stacked
    rw [frames, stack]
    have running : Activation.Fits m.world.shapes ⟨callee.code, callee.type, callee.closure, h.store,
        callee.native, c.request.args,
        Activation.initialLocals (callee.code.shape.scalars c.request.args), s.depth + 1,
        callee.type.results.length⟩ :=
      ⟨⟨callee.captures, isClosure⟩, entering.callable.shape, entering.callable.isStore,
        Activation.fits_initialLocals fun r mem => entering.fits.args r (by rwa [refs] at mem),
        Activation.distinct_initialLocals _, entering.fits.args⟩
    have func := World.shapes_of_native? (World.nativeFunc?_eq_some.mp entering.callable.func)
    refine .run (.block (.activation stacked (running.mono grows) ⟨entering.type, rfl, ?_, ?_⟩)
      trivial ?_)
    · rw [← entering.type]
    · exact ⟨h, _, grows.object entering.known, grows.native func, rfl, rfl,
        congrArg Callback.host (coherent.world.env_of_attached entering.callable.attached)⟩
    · obtain ⟨k, entry⟩ := World.isClosure_iff.mp isClosure
      have closure : Object.Fits m.world.shapes callee.closure
        (.closure callee.code callee.captures) := coherent.world.objects entry
      exact closure.1
  · have store := World.nativeObject?_of_nativeStore? entering.store
    have before := coherent.depth n
    have after : counted.depthOf n = _ := World.depthOf_modifyNativeStore store change n
    have same : World.depthOf _ n = counted.depthOf n := congrFun evolves.depth n
    have next : (s.depth + 1).toNat = s.depth.toNat + 1 := by
      have less := UInt32.lt_iff_toNat_lt.mp admitted
      have bound := s.config.maxCallDepth.toNat_lt
      have one : (1 : UInt32).toNat = 1 := rfl
      rw [UInt32.toNat_add, one, Nat.mod_eq_of_lt (by omega)]
    refine same.trans (after.trans ?_)
    simp only [Machine.entered, startBody, Context.entered, List.flatMap_cons, Frame.entered,
      List.count_append, List.count_cons, List.count_nil] at before ⊢
    by_cases here : n = callee.native
    · subst here
      rw [World.depthOf_of_nativeObject? store] at before
      simp only [if_true, change, next, beq_self_eq_true]
      omega
    · have apart : (callee.native == n) = false := by simpa using Ne.symm here
      simp only [if_neg here, apart, Bool.false_eq_true, if_false]
      omega
  · exact ledger_going coherent.ledger going rfl rfl evolves.ledger

/-- Entering the engine keeps the machine coherent, whatever the gate says. -/
theorem step (entering : m.Entering c h callee s) (coherent : m.Coherent) : m.step.Coherent := by
  rw [entering.step_eq coherent.world.aborted]
  split_ifs with interrupted exhausted
  · let answered (s : NativeStore) : NativeStore := { s with interrupt := false }
    exact entering.refuse coherent
      (coherent.world.modifyNativeStore (f := answered) (fun _ => rfl) callee.native)
      (World.evolves_modifyNativeStore (f := answered) (fun _ => rfl) (fun _ => rfl) callee.native) _
  · exact entering.refuse coherent coherent.world (.refl _) _
  · exact entering.start coherent (UInt32.not_le.mp exhausted)

end Entering

end Machine

end HostEmbedding
