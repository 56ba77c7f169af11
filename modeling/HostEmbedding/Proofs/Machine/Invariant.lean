import HostEmbedding.Proofs.Machine.Holdings

/-!
# The invariant of a machine

What stands on the stack has a fixed order: a block of steps waits below the branch, the loop, the
call or the thread that its first step started, and a running body stands on the call that started
it. Every call that waits has one open slot on its thread, and only between the end of a body and the
end of its call can a panic be parked, in the slot of that call.
-/

namespace HostEmbedding

/-! ## What fits -/

/-- A running body fits: it is the code of its closure, in the store of its function. -/
structure Activation.Fits (Γ : Shapes) (a : Activation) : Prop where
  closure : ∃ captures, Γ.IsClosure a.closure a.code captures
  type : a.code.shape.funcType = a.type
  store : Γ.IsStore a.store a.native
  locals : a.locals.Fits Γ
  distinct : a.locals.Distinct
  params : ∀ r ∈ Val.refs a.params, Γ.IsReferent r

/-- A call fits: what is called is a function of the type it is called with, its arguments are of the
declared kinds, and the engine borrows them as they are. -/
structure HostCall.Fits (Γ : Shapes) (c : HostCall) : Prop where
  func : ∃ h f, Γ.IsHandle c.request.func h ∧ Γ.native? h.native = some (.func f) ∧
    f.type = c.request.type.toNative
  args : ∀ r ∈ Val.refs c.request.args, Γ.IsReferent r
  kinds : c.request.args.map Val.kind = c.request.type.params
  sig : ∀ sig, c.request.sig = some sig → sig.funcType = c.request.type
  raw : c.raw = c.request.args.map Slot.ofVal

/-- A body runs for a call: it is the closure of the called function, in the store of the function, on
the arguments of the call, with a slot for each declared result. -/
structure Activation.RunsFor (Γ : Shapes) (a : Activation) (c : HostCall) : Prop where
  type : a.type = c.request.type
  params : a.params = c.request.args
  slots : a.slots = c.request.type.results.length
  func : ∃ h f, Γ.IsHandle c.request.func h ∧ Γ.native? h.native = some (.func f) ∧
    f.store = a.native ∧ h.store = a.store ∧ f.callback = .host a.closure.env

def Completion.Fits (Γ : Shapes) (c : Completion) : Prop := ∀ r ∈ c.refs, Γ.IsReferent r

/-! ## The stack -/

/-- A block whose first step is still running. -/
def Frame.Waits : List Frame → Prop
  | .block _ _ (_ :: _) :: _ => True
  | _ => False

/-- What a block of steps can stand on. -/
def Frame.Seats : List Frame → Prop
  | [] => True
  | .branch _ :: _ => True
  | .loop .. :: _ => True
  | .activation _ :: _ => True
  | .thread .. :: _ => True
  | _ => False

/-- A stack below a context, with the slots that its calls have open on the running thread. -/
inductive Stacked (Γ : Shapes) : Context → List Frame → List (Option Fault) → Prop where
  | top : Stacked Γ .top [] []
  | block {ctx : Context} {stack : List Frame} {slots : List (Option Fault)} {outer : Bool}
      {index : Nat} {steps : Block} (below : Stacked Γ ctx stack slots) (seats : Frame.Seats stack)
      (isPublic : Block.isPublic steps = true) :
      Stacked Γ ctx (.block outer index steps :: stack) slots
  | branch {ctx : Context} {stack : List Frame} {slots : List (Option Fault)} {taken : Bool}
      (below : Stacked Γ ctx stack slots) (waits : Frame.Waits stack) :
      Stacked Γ ctx (.branch taken :: stack) slots
  | loop {ctx : Context} {stack : List Frame} {slots : List (Option Fault)} {left : Nat}
      {body : Block} (below : Stacked Γ ctx stack slots) (waits : Frame.Waits stack)
      (isPublic : Block.isPublic body = true) : Stacked Γ ctx (.loop left body :: stack) slots
  | hostCall {ctx : Context} {stack : List Frame} {slots : List (Option Fault)} {c : HostCall}
      (below : Stacked Γ ctx stack slots) (waits : Frame.Waits stack) (fits : c.Fits Γ) :
      Stacked Γ ctx (.hostCall c :: stack) (none :: slots)
  | activation {saved : Context} {stack : List Frame} {slots : List (Option Fault)} {c : HostCall}
      {a : Activation} (below : Stacked Γ saved (.hostCall c :: stack) slots) (fits : a.Fits Γ)
      (runs : a.RunsFor Γ c) : Stacked Γ (.body a) (.activation saved :: .hostCall c :: stack) slots
  | thread {saved : Context} {stack : List Frame} {state : ThreadState}
      (below : Stacked Γ saved stack state.frames) (waits : Frame.Waits stack)
      (retired : state.retired = []) (finalizing : state.finalizing = 0) :
      Stacked Γ .thread (.thread saved state :: stack) []

/-- How the engine has left a call: with values of the declared kinds, with a trap, or with a parked
panic and the sentinel. -/
inductive Returned (Γ : Shapes) (c : HostCall) : Option Fault → EngineResult → Prop where
  | values (vals : List (Val ObjId)) (kinds : vals.map Val.kind = c.request.type.results)
      (refs : ∀ r ∈ Val.refs vals, Γ.IsReferent r) :
      Returned Γ c none (.ok (vals.map Slot.ofVal))
  | trap (t : NativeTrap) : Returned Γ c none (.error t)
  | panic (f : Fault) : Returned Γ c (some f) (.error .sentinel)

/-- A control that suits the stack below it and the slots of the thread. -/
inductive Placed (Γ : Shapes) (ctx : Context) :
    List Frame → List (Option Fault) → Control → Prop where
  | run {outer : Bool} {index : Nat} {steps : Block} {stack : List Frame}
      {slots : List (Option Fault)} (stacked : Stacked Γ ctx (.block outer index steps :: stack) slots) :
      Placed Γ ctx (.block outer index steps :: stack) slots .run
  | complete {stack : List Frame} {slots : List (Option Fault)} {c : Completion}
      (stacked : Stacked Γ ctx stack slots) (fits : c.Fits Γ)
      (seat : Frame.Waits stack ∨ Frame.Seats stack ∧ (c.isDone = true ∨ ∃ a, ctx = .body a)) :
      Placed Γ ctx stack slots (.complete c)
  | enter {c : HostCall} {h : Handle} {stack : List Frame} {slots : List (Option Fault)}
      (stacked : Stacked Γ ctx (.hostCall c :: stack) slots)
      (known : Γ.IsHandle c.request.func h) :
      Placed Γ ctx (.hostCall c :: stack) slots
        (.enter h.native c.raw ⟨c.request.type.results.length, false⟩)
  | engine {c : HostCall} {stack : List Frame} {slots : List (Option Fault)} {slot : Option Fault}
      {r : EngineResult} (stacked : Stacked Γ ctx (.hostCall c :: stack) (none :: slots))
      (returned : Returned Γ c slot r) : Placed Γ ctx (.hostCall c :: stack) (slot :: slots) (.engine r)
  | halted {ending : List Event} (stacked : Stacked Γ ctx [] []) : Placed Γ ctx [] [] (.halted ending)

/-- The invariant of a machine. -/
structure Machine.Coherent (m : Machine) : Prop where
  world : m.world.Sound m.held
  globals : m.globals.Fits m.world.shapes
  distinct : m.globals.Distinct
  placed : Placed m.world.shapes m.context m.stack m.world.thread.frames m.control
  depth : ∀ n, m.world.depthOf n = m.entered.count n
  ledger : ∀ d, m.world.fallen.count d = m.reported.count d
  cleared : ∀ ending, m.control = .halted ending → m.globals = []

/-! ## Growth -/

section Growth

variable {Γ Δ : Shapes} (grows : Γ.Grows Δ)
include grows

theorem Activation.Fits.mono {a : Activation} (fits : a.Fits Γ) : a.Fits Δ where
  closure := by
    obtain ⟨captures, known⟩ := fits.closure
    exact ⟨captures, grows.object known⟩
  type := fits.type
  store := fits.store.mono grows
  locals := fits.locals.mono grows
  distinct := fits.distinct
  params r mem := (fits.params r mem).mono grows

theorem HostCall.Fits.mono {c : HostCall} (fits : c.Fits Γ) : c.Fits Δ where
  func := by
    obtain ⟨h, f, known, native, type⟩ := fits.func
    exact ⟨h, f, grows.object known, grows.native native, type⟩
  args r mem := (fits.args r mem).mono grows
  kinds := fits.kinds
  sig := fits.sig
  raw := fits.raw

theorem Activation.RunsFor.mono {a : Activation} {c : HostCall} (runs : a.RunsFor Γ c) :
    a.RunsFor Δ c where
  type := runs.type
  params := runs.params
  slots := runs.slots
  func := by
    obtain ⟨h, f, known, native, rest⟩ := runs.func
    exact ⟨h, f, grows.object known, grows.native native, rest⟩

theorem Completion.Fits.mono {c : Completion} (fits : c.Fits Γ) : c.Fits Δ :=
  fun r mem => (fits r mem).mono grows

theorem Stacked.mono {ctx : Context} {stack : List Frame} {slots : List (Option Fault)}
    (stacked : Stacked Γ ctx stack slots) : Stacked Δ ctx stack slots := by
  induction stacked with
  | top => exact .top
  | block _ seats isPublic ih => exact .block ih seats isPublic
  | branch _ waits ih => exact .branch ih waits
  | loop _ waits isPublic ih => exact .loop ih waits isPublic
  | hostCall _ waits fits ih => exact .hostCall ih waits (fits.mono grows)
  | activation _ fits runs ih => exact .activation ih (fits.mono grows) (runs.mono grows)
  | thread _ waits retired finalizing ih => exact .thread ih waits retired finalizing

end Growth

namespace Stacked

variable {Γ : Shapes} {ctx : Context} {stack : List Frame} {slots : List (Option Fault)}

/-- Setting locals changes nothing about the stack. -/
theorem withLocals (stacked : Stacked Γ ctx stack slots) {s : Scope} (fits : s.Fits Γ)
    (distinct : s.Distinct) : Stacked Γ (ctx.withLocals s) stack slots := by
  induction stacked with
  | top => exact .top
  | block _ seats isPublic ih => exact .block ih seats isPublic
  | branch _ waits ih => exact .branch ih waits
  | loop _ waits isPublic ih => exact .loop ih waits isPublic
  | hostCall _ waits fits ih => exact .hostCall ih waits fits
  | activation below afits runs ih =>
      exact .activation below
        ⟨afits.closure, afits.type, afits.store, fits, distinct, afits.params⟩
        ⟨runs.type, runs.params, runs.slots, runs.func⟩
  | thread below waits retired finalizing ih => exact .thread below waits retired finalizing

/-- The running body fits. -/
theorem running {a : Activation} (stacked : Stacked Γ (.body a) stack slots) : a.Fits Γ := by
  generalize running : Context.body a = ctx at stacked
  induction stacked with
  | top => cases running
  | block _ _ _ ih => exact ih running
  | branch _ _ ih => exact ih running
  | loop _ _ _ ih => exact ih running
  | hostCall _ _ _ ih => exact ih running
  | activation _ fits _ _ =>
      cases running
      exact fits
  | thread => cases running

/-- A call that waits fits, and has an open slot of its own. -/
theorem call {c : HostCall} (stacked : Stacked Γ ctx (.hostCall c :: stack) slots) :
    c.Fits Γ ∧ Frame.Waits stack ∧ ∃ below, slots = none :: below ∧ Stacked Γ ctx stack below := by
  cases stacked with
  | hostCall below waits fits => exact ⟨fits, waits, _, rfl, below⟩

/-- A running body stands on the call that started it. -/
theorem body {saved : Context} (stacked : Stacked Γ ctx (.activation saved :: stack) slots) :
    ∃ a c below, ctx = .body a ∧ stack = .hostCall c :: below ∧ Stacked Γ saved stack slots ∧
      a.Fits Γ ∧ a.RunsFor Γ c := by
  cases stacked with
  | activation below fits runs => exact ⟨_, _, _, rfl, rfl, below, fits, runs⟩

end Stacked

theorem Placed.stacked {Γ : Shapes} {ctx : Context} {stack : List Frame}
    {slots : List (Option Fault)} {control : Control} (placed : Placed Γ ctx stack slots control) :
    ∃ empty, Stacked Γ ctx stack empty := by
  cases placed with
  | run stacked => exact ⟨_, stacked⟩
  | complete stacked => exact ⟨_, stacked⟩
  | enter stacked => exact ⟨_, stacked⟩
  | engine stacked => exact ⟨_, stacked⟩
  | halted stacked => exact ⟨_, stacked⟩

/-! ## The start -/

theorem World.sound_empty (level : Option LogLevel) : (World.empty level).Sound [] where
  objects found := by simp [ World.entry?, World.empty] at found
  claimsUnique found := by simp [World.shapes, World.entry?, World.empty] at found
  envsUnique found := by simp [Shapes.IsHandle, World.shapes, World.entry?, World.empty] at found
  counted id := by
    simp [World.strong, World.entry?, World.empty, World.owned, World.gather, World.lent,
      World.bodies, ThreadState.fresh]
  placed n := by
    simp [World.claimed, World.queued, World.gather, World.empty, World.deletions, World.bodies]
  finalizing := rfl
  aborted := rfl
  claimsTotal found := by simp [World.shapes, World.nativeObject?, World.bodies, World.empty] at found
  attached found := by simp [Shapes.IsHandle, World.shapes, World.entry?, World.empty] at found
  attachedOwned found := by simp [World.attached?, World.entry?, World.empty] at found
  rested s _ := by simp [World.pending, World.entry?, World.empty]
  retired := rfl
  finalized n f found := by simp [World.nativeObject?, World.bodies, World.empty] at found

/-- A public script starts in a coherent state. -/
theorem Machine.coherent_start (level : Option LogLevel) {script : Block}
    (isPublic : Block.isPublic script = true) : (Machine.start level script).Coherent where
  world := World.sound_empty level
  globals p mem := by cases mem
  distinct := List.nodup_nil
  placed := .run (.block .top trivial isPublic)
  depth n := by
    simp [Machine.start, World.depthOf, World.nativeObject?, World.bodies, World.empty,
      Machine.entered, Context.entered, Frame.entered]
  ledger d := by
    simp [Machine.start, World.fallen, World.gather, World.empty, Machine.reported, Machine.events]
  cleared ending impossible := by cases impossible

end HostEmbedding
