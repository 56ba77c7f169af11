import HostEmbedding.Script.NativeInterface
import HostEmbedding.Script.Perform

/-!
# Running a script

`Machine.step` is the machine's transition; a state is reachable when steps lead to it from the start
of a script. Every step of a body is recorded as an event, every top-level step as an answer. When the
steps are done the variables are dropped in order.
-/

namespace HostEmbedding

namespace Completion

/-- What is recorded of a completion. -/
def answer (w : World) : Completion → Answer
  | .done a => a
  | .gaveBack ss => .returned (ss.map w.shown)
  | .trapped t => .trap t
  | .panicked f => .panic f

def refs : Completion → List ObjId
  | .gaveBack ss => Scalar.refs ss
  | _ => []

/-- Whether a completion ended a step without raising anything. -/
def isDone : Completion → Bool
  | .done _ => true
  | _ => false

/-- Whether a guard can catch a completion. -/
def isRaised : Completion → Bool
  | .trapped _ | .panicked _ => true
  | _ => false

end Completion

namespace Machine

def start (level : Option LogLevel) (script : Block) : Machine where
  world := World.empty level
  globals := []
  context := .top
  stack := [.block true 0 script]
  control := .run
  answers := []

/-! ## Control steps -/

def compare (op : Comparison) (a b : Int) : Bool :=
  match op with
  | .less => decide (a < b)
  | .equal => decide (a = b)

def branch (m : Machine) (a : Operand) (op : Comparison) (b : Operand) (yes no : Block) : Machine :=
  m.withOperand a fun x => m.withOperand b fun y =>
    match x.toInt?, y.toInt? with
    | some i, some j =>
        let taken := compare op i j
        (m.push (.branch taken)).runBlock false (if taken then yes else no)
    | _, _ => m.finish (.unusable "integer")

def loop (m : Machine) (n : Nat) (body : Block) : Machine :=
  match n with
  | 0 => m.finish .ok
  | n + 1 => (m.push (.loop n body)).runBlock false body

/-- Run a block on a new thread and join it. -/
def thread (m : Machine) (body : Block) : Machine :=
  { m with
    world := { m.world with thread := .fresh }
    context := .thread
    stack := .block true 0 body :: .thread m.context m.world.thread :: m.stack
    control := .run }

def begin (m : Machine) (g : Guard) (s : Step) : Machine :=
  match s with
  | .plain a => m.perform g a
  | .func name store shape label quiet captures body =>
      m.newFunc name store ⟨label, quiet, shape, body⟩ captures
  | .call f args bind => m.call f args bind
  | .typedCall f args bind => m.typedCall f args bind
  | .branch a op b yes no => m.branch a op b yes no
  | .loop n body => m.loop n body
  | .thread body => m.thread body
  | .native name s => m.native name s
  | .nativeFunc name store type label reply trap nested finalizes finalizer =>
      m.nativeFunc name store type ⟨label, reply, trap, nested, finalizes, finalizer⟩
  | .nativeCall name f args slots => m.nativeCall name f args slots

/-! ## Ends of steps -/

/-- Go on with the next step of a block. -/
def next (m : Machine) (outer : Bool) (index : Nat) (rest : Block) (below : List Frame) : Machine :=
  { m with stack := .block outer (index + 1) rest :: below, control := .run }

/-- Go on after what a step owned is dropped. -/
def nextDropping (m : Machine) (c : Completion) (outer : Bool) (index : Nat) (rest : Block)
    (below : List Frame) : Machine :=
  (m.withWorld (m.world.releaseAll c.refs)).next outer index rest below

/-- Record a step as an event and go on, whatever it raised. -/
def noteAndGoOn (m : Machine) (e : Event) (c : Completion) (outer : Bool) (index : Nat)
    (rest : Block) (below : List Frame) : Machine :=
  (m.withWorld (m.world.emit e)).nextDropping c outer index rest below

/-- The running step of a block has ended: it is recorded, and the block goes on or ends with it. Only
a body ends with what its step raised; a block inside a top-level step is recorded like one that runs
on a thread. -/
def settle (m : Machine) (c : Completion) (outer : Bool) (index : Nat) (g : Guard) (s : Step)
    (rest : Block) (below : List Frame) : Machine :=
  let a := c.answer m.world
  match m.context with
  | .top =>
      if outer then
        let m := m.withWorld (m.world.releaseAll c.refs)
        { m with
          answers := ⟨s, a, m.world.events.reverse⟩ :: m.answers
          world := { m.world with events := [] } }.next outer index rest below
      else m.noteAndGoOn (.stepDone "thread" index a) c outer index rest below
  | .thread => m.noteAndGoOn (.stepDone "thread" index a) c outer index rest below
  | .finalizer label => m.noteAndGoOn (.finalizerStep label a) c outer index rest below
  | .body act =>
      let m := if act.code.quiet then m
        else m.withWorld (m.world.emit (.stepDone act.code.label index a))
      if c.isDone || (g.catches && c.isRaised) then m.next outer index rest below
      else { m with stack := below, control := .complete c }

/-- Drop all variables; the script is over. -/
def halt (m : Machine) : Machine :=
  let w := m.world.releaseAll m.globals.refs
  { m with
    globals := []
    world := { w with events := [] }
    control := .halted w.events.reverse }

/-- Tell the frame on top how what it waited for ended. -/
def deliver (m : Machine) (c : Completion) : Machine :=
  match m.stack with
  | [] => m.halt
  | .block outer index ((g, s) :: rest) :: below => m.settle c outer index g s rest below
  | .block _ _ [] :: below => { m with stack := below }
  | .branch taken :: below =>
      { m with
        stack := below
        control := .complete (if c.isDone then .done (.bool taken) else c) }
  | .loop left body :: below =>
      if c.isDone then { m with stack := below }.loop left body
      else { m with stack := below }
  | .activation saved :: below =>
      match m.context with
      | .body a => { m with stack := below }.leaveBody saved a c
      | _ => { m with stack := below }
  | .thread saved state :: below =>
      { m with
        world := { m.world with thread := state }
        context := saved
        stack := below }.finish .ok
  | .finalizer saved :: below =>
      { m with
        world := m.world.leaveFinalizer
        context := saved
        stack := below }.finish .ok
  | .hostCall _ :: below => { m with stack := below }
  | .nativeCall _ :: below => { m with stack := below }
  | .callback _ :: below => { m with stack := below }

/-- Tell the frame on top how its call into the engine ended. -/
def deliverEngine (m : Machine) (r : EngineResult) : Machine :=
  match m.stack with
  | .hostCall c :: below => { m with stack := below }.endCall c r
  | .nativeCall name :: below => { m with stack := below }.endNativeCall name r
  | .callback c :: below => { m with stack := below }.resumeCallback c r
  | _ => m.finish .ok

def step (m : Machine) : Machine :=
  if m.world.aborted.isSome then { m with control := .halted [] }
  else match m.control with
    | .run =>
        match m.stack with
        | .block _ _ ((g, s) :: _) :: _ => m.begin g s
        | .block _ _ [] :: below => { m with stack := below }.finish .ok
        | _ => m.finish .ok
    | .complete c => m.deliver c
    | .enter n args slots => m.enter n args slots
    | .engine r => m.deliverEngine r
    | .halted _ => m

def isHalted (m : Machine) : Bool :=
  match m.control with
  | .halted _ => true
  | _ => false

def run : Nat → Machine → Machine
  | 0, m => m
  | fuel + 1, m => if m.isHalted then m else run fuel m.step

end Machine

/-- What a script shows in the end. -/
inductive Report where
  | finished (steps : List (Answer × List Event)) (ending : List Event)
  | aborted (op : GuardedOp)

def Machine.report? (m : Machine) : Option Report :=
  match m.control with
  | .halted ending =>
      match m.world.aborted with
      | some op => some (.aborted op)
      | none => some (.finished (m.answers.reverse.map fun r => (r.answer, r.events)) ending)
  | _ => none

end HostEmbedding
