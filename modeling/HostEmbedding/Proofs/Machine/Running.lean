import HostEmbedding.Proofs.Machine.Leaving

/-!
# Every reachable state is coherent

One transition keeps a machine coherent, whatever the control and whatever waits on the stack, and so
every state that a public script leads to is coherent.
-/

namespace HostEmbedding

open World (Evolves)

/-- A world that keeps the heap and the natives, on a thread with nothing pending. -/
theorem World.Sound.rethread {w v : World} {held : List ObjId} (sound : w.Sound held)
    (heap : v.heap = w.heap) (natives : v.natives = w.natives) (aborted : v.aborted = w.aborted)
    (retired : v.thread.retired = []) (finalizing : v.thread.finalizing = 0) : v.Sound held := by
  have bodies : v.bodies = w.bodies := by
    unfold World.bodies
    rw [natives]
  have acc : v.Accounted held [] := sound.toAccounted.rethread heap bodies aborted finalizing
    fun id => by rw [retired, sound.retired]
  refine ⟨acc, fun s dead => ?_, retired, sound.finalized.of_natives natives⟩
  rw [World.strong_of_heap heap] at dead
  rw [World.pending_of_heap heap]
  exact sound.rested s dead

theorem Block.isPublic_cons {g : Guard} {s : Step} {rest : Block}
    (isPublic : Block.isPublic ((g, s) :: rest) = true) :
    s.isPublic = true ∧ Block.isPublic rest = true := by
  simpa only [Block.isPublic, Bool.and_eq_true] using isPublic

namespace Stacked

variable {Γ : Shapes} {ctx : Context} {stack : List Frame} {slots : List (Option Fault)}

/-- A block of public steps stands where a block can stand. -/
theorem steps {outer : Bool} {index : Nat} {steps : Block}
    (stacked : Stacked Γ ctx (.block outer index steps :: stack) slots) :
    Stacked Γ ctx stack slots ∧ Frame.Seats stack ∧ Block.isPublic steps = true := by
  cases stacked with
  | block below seats isPublic => exact ⟨below, seats, isPublic⟩

/-- The block above what waits goes on with its remaining steps. -/
theorem rest {outer : Bool} {index : Nat} {g : Guard} {s : Step} {rest : Block}
    (stacked : Stacked Γ ctx (.block outer index ((g, s) :: rest) :: stack) slots) (next : Nat) :
    Stacked Γ ctx (.block outer next rest :: stack) slots := by
  obtain ⟨below, seats, isPublic⟩ := stacked.steps
  exact .block below seats (Block.isPublic_cons isPublic).2

theorem branching {taken : Bool} (stacked : Stacked Γ ctx (.branch taken :: stack) slots) :
    Stacked Γ ctx stack slots ∧ Frame.Waits stack := by
  cases stacked with
  | branch below waits => exact ⟨below, waits⟩

theorem looping {left : Nat} {body : Block} (stacked : Stacked Γ ctx (.loop left body :: stack) slots) :
    Stacked Γ ctx stack slots ∧ Frame.Waits stack ∧ Block.isPublic body = true := by
  cases stacked with
  | loop below waits isPublic => exact ⟨below, waits, isPublic⟩

theorem threading {saved : Context} {state : ThreadState}
    (stacked : Stacked Γ ctx (.thread saved state :: stack) slots) :
    ctx = .thread ∧ Stacked Γ saved stack state.frames ∧ Frame.Waits stack ∧ state.retired = [] ∧
      state.finalizing = 0 := by
  cases stacked with
  | thread below waits retired finalizing => exact ⟨rfl, below, waits, retired, finalizing⟩

theorem bottom (stacked : Stacked Γ ctx [] slots) : ctx = .top := by
  cases stacked with
  | top => rfl

end Stacked

theorem Frame.waits_iff {stack : List Frame} : Frame.Waits stack ↔
    ∃ outer index g s rest below, stack = .block outer index ((g, s) :: rest) :: below := by
  constructor
  · intro waits
    cases stack with
    | nil => cases waits
    | cons f below =>
        cases f with
        | block outer index steps =>
            cases steps with
            | nil => cases waits
            | cons first rest => exact ⟨_, _, _, _, _, _, rfl⟩
        | _ => cases waits
  · rintro ⟨outer, index, g, s, rest, below, rfl⟩
    trivial

namespace Machine

variable {m m' : Machine}

/-! ## The world stays -/

/-- A transition that leaves the world, the variables and the answers alone. -/
theorem Coherent.shift (coherent : m.Coherent) (world : m'.world = m.world)
    (globals : m'.globals = m.globals) (answers : m'.answers = m.answers)
    (held : ∀ id, m'.held.count id = m.held.count id) (entered : m'.entered = m.entered)
    (going : m.isHalted = false) (going' : m'.isHalted = false)
    (placed : Placed m.world.shapes m'.context m'.stack m.world.thread.frames m'.control) :
    m'.Coherent where
  world := by rw [world]; exact coherent.world.regroup held
  globals := by rw [world, globals]; exact coherent.globals
  distinct := by rw [globals]; exact coherent.distinct
  placed := by rw [world]; exact placed
  depth n := by rw [world, entered]; exact coherent.depth n
  ledger := ledger_going coherent.ledger going going' answers fun d => by rw [world]
  cleared := not_cleared going'

/-- The frame on top goes away, and with it nothing that is owned. -/
theorem Coherent.unstack (coherent : m.Coherent) {f : Frame} {below : List Frame} {next : Control}
    (stack : m.stack = f :: below) (plain : f.refs = []) (outside : f.entered = [])
    (refs : next.refs = m.control.refs) (going : m.isHalted = false)
    (going' : Machine.isHalted { m with control := next } = false)
    (placed : Placed m.world.shapes m.context below m.world.thread.frames next) :
    Coherent { m with
      stack := below
      control := next } := by
  refine coherent.shift rfl rfl rfl (fun id => ?_) ?_ going going' placed
  · unfold held owns
    rw [stack, List.flatMap_cons, plain, List.nil_append, refs]
  · unfold Machine.entered
    rw [stack, List.flatMap_cons, outside]
    rfl

theorem Coherent.step_eq (coherent : m.Coherent) :
    m.step = match m.control with
      | .run =>
          match m.stack with
          | .block _ _ ((g, s) :: _) :: _ => m.begin g s
          | .block _ _ [] :: below => { m with stack := below }.finish .ok
          | _ => m.finish .ok
      | .complete c => m.deliver c
      | .enter n args slots => m.enter n args slots
      | .engine r => m.deliverEngine r
      | .halted _ => m := by
  unfold Machine.step
  rw [coherent.world.aborted]
  rfl

/-! ## Steps begin -/

/-- A block inside the running step begins. -/
theorem Coherent.enclose (coherent : m.Coherent) (running : m.control = .run) {f : Frame}
    (plain : f.refs = []) (outside : f.entered = [])
    (stacked : Stacked m.world.shapes m.context (f :: m.stack) m.world.thread.frames)
    (seats : Frame.Seats (f :: m.stack)) (context : Frame.context m.context [f] = m.context)
    {body : Block} (isPublic : Block.isPublic body = true) :
    Begun m ((m.push f).runBlock false body) := by
  have going : m.isHalted = false := by simp [isHalted, running]
  have block : Frame.refs (.block false 0 body) = [] := rfl
  have refs : (.block false 0 body :: f :: m.stack).flatMap Frame.refs =
      m.stack.flatMap Frame.refs := by
    rw [List.flatMap_cons, List.flatMap_cons, plain, block]
    rfl
  have idle : Frame.entered (.block false 0 body) = [] := rfl
  have entered : (.block false 0 body :: f :: m.stack).flatMap Frame.entered =
      m.stack.flatMap Frame.entered := by
    rw [List.flatMap_cons, List.flatMap_cons, outside, idle]
    rfl
  refine .enclosed (coherent.shift rfl rfl rfl (fun id => ?_) ?_ going rfl
    (.run (.block stacked seats isPublic))) rfl context rfl (.refl _)
  · unfold held owns
    rw [running]
    show List.count id (_ ++ (_ ++ (_ ++ (.block false 0 body :: f :: m.stack).flatMap Frame.refs))) = _
    rw [refs]
    rfl
  · show _ ++ (.block false 0 body :: f :: m.stack).flatMap Frame.entered = _
    rw [entered]
    rfl

/-- A thread begins with slots of its own. -/
theorem Coherent.thread (coherent : m.Coherent) (running : m.control = .run)
    (waits : Frame.Waits m.stack) {body : Block} (isPublic : Block.isPublic body = true) :
    Begun m (m.thread body) := by
  have going : m.isHalted = false := by simp [isHalted, running]
  have stacked := (coherent.poised running waits).stacked
  have sound : World.Sound { m.world with thread := .fresh } m.held :=
    coherent.world.rethread rfl rfl rfl rfl rfl
  refine .enclosed ⟨sound.regroup fun id => ?_, coherent.globals, coherent.distinct, ?_, fun n => ?_,
    ledger_going coherent.ledger going rfl rfl fun d => rfl, not_cleared rfl⟩ rfl rfl rfl (.refl _)
  · unfold held owns
    rw [running]
    simp only [Machine.thread, List.flatMap_cons, Frame.refs, Context.refs, Control.refs,
      List.nil_append, List.count_append]
  · exact .run (.block (.thread stacked waits coherent.world.retired coherent.world.finalizing)
      trivial isPublic)
  · refine (coherent.depth n).trans ?_
    simp only [Machine.entered, Machine.thread, List.flatMap_cons, Frame.entered, Context.entered,
      List.nil_append]

/-- How a public step begins. -/
theorem Coherent.begun (coherent : m.Coherent) (running : m.control = .run)
    (waits : Frame.Waits m.stack) (g : Guard) {s : Step} (isPublic : s.isPublic = true) :
    Begun m (m.begin g s) := by
  have poised := coherent.poised running waits
  have busy := coherent.busy (by rw [running]; rfl)
  cases s with
  | plain a => exact .ended (busy.perform g isPublic)
  | func name store shape label quiet captures body =>
      let code : HostCode := ⟨label, quiet, shape, body⟩
      have inner : Block.isPublic code.body = true := isPublic
      exact .ended (busy.newFunc name store inner captures)
  | call f args names => exact coherent.call running waits f args names
  | typedCall f args names => exact coherent.typedCall running waits f args names
  | branch a op b yes no =>
      obtain ⟨yesPublic, noPublic⟩ : Block.isPublic yes = true ∧ Block.isPublic no = true := by
        simpa only [Step.isPublic, Bool.and_eq_true] using isPublic
      refine busy.withOperand (fun _ ends => .ended ends) fun x _ => ?_
      refine busy.withOperand (fun _ ends => .ended ends) fun y _ => ?_
      split
      · next i j _ _ =>
          refine coherent.enclose running rfl rfl (.branch poised.stacked waits) trivial rfl ?_
          split
          · exact yesPublic
          · exact noPublic
      · exact .ended (busy.finish _)
  | loop n body =>
      cases n with
      | zero => exact .ended (busy.finish _)
      | succ n =>
          exact coherent.enclose running rfl rfl (.loop poised.stacked waits isPublic) trivial rfl
            isPublic
  | thread body => exact coherent.thread running waits isPublic
  | native name s => cases isPublic
  | nativeFunc => cases isPublic
  | nativeCall => cases isPublic

/-- Every public step begins well. -/
theorem Coherent.begin (coherent : m.Coherent) (running : m.control = .run)
    (waits : Frame.Waits m.stack) (g : Guard) {s : Step} (isPublic : s.isPublic = true) :
    (m.begin g s).Coherent :=
  (coherent.poised running waits).begun (coherent.begun running waits g isPublic)

/-! ## Steps end -/

/-- The last step of a script, a body, a branch or a thread has ended. -/
theorem Coherent.finishBlock (coherent : m.Coherent) (running : m.control = .run) {outer : Bool}
    {index : Nat} {below : List Frame} (stack : m.stack = .block outer index [] :: below) :
    ({ m with stack := below }.finish .ok).Coherent := by
  have going : m.isHalted = false := by simp [isHalted, running]
  have placed := coherent.placed
  rw [running, stack] at placed
  refine coherent.unstack stack rfl rfl (by rw [running]; rfl) going rfl ?_
  generalize m.world.thread.frames = slots at placed ⊢
  cases placed with
  | run stacked =>
      obtain ⟨below', seats, -⟩ := stacked.steps
      exact .complete below' (fun r mem => absurd mem List.not_mem_nil) (.inr ⟨seats, .inl rfl⟩)

structure Settling (m : Machine) (c : Completion) (outer : Bool) (index : Nat) (g : Guard) (s : Step)
    (rest : Block) (below : List Frame) : Prop where
  control : m.control = .complete c
  stack : m.stack = .block outer index ((g, s) :: rest) :: below
  stacked : Stacked m.world.shapes m.context (.block outer index ((g, s) :: rest) :: below)
    m.world.thread.frames
  fits : c.Fits m.world.shapes

namespace Settling

variable {c : Completion} {outer : Bool} {index : Nat} {g : Guard} {s : Step} {rest : Block}
variable {below : List Frame}

theorem going (settling : m.Settling c outer index g s rest below) : m.isHalted = false := by
  simp [isHalted, settling.control]

theorem sound (settling : m.Settling c outer index g s rest below) (coherent : m.Coherent) :
    m.world.Sound (c.refs ++ (m.globals.refs ++ (m.context.refs ++ below.flatMap Frame.refs))) := by
  have sound := coherent.world
  unfold held owns at sound
  rw [settling.control, settling.stack] at sound
  exact sound

/-- The block goes on once what the step owned is dropped. -/
theorem next (settling : m.Settling c outer index g s rest below) (coherent : m.Coherent) {w : World}
    (sound : w.Sound (m.globals.refs ++ (m.context.refs ++ below.flatMap Frame.refs)))
    (evolves : Evolves m.world w) : ((m.withWorld w).next outer index rest below).Coherent := by
  refine ⟨sound, coherent.globals.mono evolves.shapes, coherent.distinct, ?_, fun n => ?_,
    ledger_going coherent.ledger settling.going rfl rfl evolves.ledger, not_cleared rfl⟩
  · show Placed w.shapes m.context (.block outer (index + 1) rest :: below) w.thread.frames .run
    rw [evolves.frames]
    exact .run ((settling.stacked.mono evolves.shapes).rest (index + 1))
  · have before := coherent.depth n
    unfold Machine.entered at before
    rw [settling.stack] at before
    exact (congrFun evolves.depth n).trans before

/-- The step is noted, what it owned is dropped, and the block goes on. -/
theorem noteAndGoOn (settling : m.Settling c outer index g s rest below) (coherent : m.Coherent)
    {e : Event} (silent : e.drop? = none) :
    (m.noteAndGoOn e c outer index rest below).Coherent := by
  have shown := World.same_emit m.world silent
  exact settling.next coherent (((settling.sound coherent).same shown).releaseAll c.refs)
    (shown.evolves.trans (World.drains_releaseAll c.refs _).evolves)

end Settling

def recorded (m : Machine) (s : Step) (a : Answer) : Machine :=
  { m with
    answers := ⟨s, a, m.world.events.reverse⟩ :: m.answers
    world := { m.world with events := [] } }

/-- Recording a step moves its drops to the answers. -/
theorem Coherent.recorded (coherent : m.Coherent) (going : m.isHalted = false) (s : Step) (a : Answer) :
    (m.recorded s a).Coherent where
  world := coherent.world.rethread rfl rfl rfl coherent.world.retired coherent.world.finalizing
  globals := coherent.globals
  distinct := coherent.distinct
  placed := coherent.placed
  depth := coherent.depth
  ledger d := by
    have before := coherent.ledger d
    have after : (m.recorded s a).reported = _ := reported_going (m := m.recorded s a) going
    have fallen : (m.recorded s a).world.fallen = m.world.fallen := rfl
    have events : ((m.recorded s a).answers.flatMap Record.events) =
        m.world.events.reverse ++ m.answers.flatMap Record.events := rfl
    have drops : (m.recorded s a).world.drops = [] := rfl
    rw [reported_going going, World.drops] at before
    rw [fallen, after, events, drops, before]
    simp only [List.filterMap_append, List.filterMap_reverse, List.count_append, List.count_reverse,
      List.count_nil]
    omega
  cleared := not_cleared going

/-- What is shown changes nothing. -/
theorem Coherent.same (coherent : m.Coherent) {w : World} (same : World.Same m.world w)
    (going : m.isHalted = false) : (m.withWorld w).Coherent where
  world := coherent.world.same same
  globals := coherent.globals.mono same.evolves.shapes
  distinct := coherent.distinct
  placed := by
    show Placed w.shapes m.context m.stack w.thread.frames m.control
    rw [same.shapes, same.thread]
    exact coherent.placed
  depth n := (congrFun same.evolves.depth n).trans (coherent.depth n)
  ledger := ledger_going coherent.ledger going going rfl same.evolves.ledger
  cleared := not_cleared going

theorem Settling.same {c : Completion} {outer : Bool} {index : Nat} {g : Guard} {s : Step}
    {rest : Block} {below : List Frame} (settling : m.Settling c outer index g s rest below)
    {w : World} (same : World.Same m.world w) :
    (m.withWorld w).Settling c outer index g s rest below where
  control := settling.control
  stack := settling.stack
  stacked := by
    show Stacked w.shapes m.context _ w.thread.frames
    rw [same.shapes, same.thread]
    exact settling.stacked
  fits := settling.fits.mono same.evolves.shapes

/-- A step that the block goes on after carries nothing. -/
theorem refs_of_goes_on {c : Completion} {g : Guard}
    (on : (c.isDone || (g.catches && c.isRaised)) = true) : c.refs = [] := by
  cases c with
  | gaveBack ss => simp [Completion.isDone, Completion.isRaised] at on
  | _ => rfl

/-- In a body the block goes on, or the body ends as the step did. -/
theorem Settling.inBody {c : Completion} {outer : Bool} {index : Nat} {g : Guard} {s : Step}
    {rest : Block} {below : List Frame} (settling : m.Settling c outer index g s rest below)
    (coherent : m.Coherent) {act : Activation} (context : m.context = .body act) :
    (if c.isDone || (g.catches && c.isRaised) then m.next outer index rest below
      else { m with stack := below, control := .complete c }).Coherent := by
  split
  · next on =>
      have sound := settling.sound coherent
      rw [refs_of_goes_on on] at sound
      exact settling.next coherent sound (.refl _)
  · obtain ⟨stacked, seats, -⟩ := settling.stacked.steps
    exact coherent.unstack settling.stack rfl rfl (by rw [settling.control]) settling.going rfl
      (.complete stacked settling.fits (.inr ⟨seats, .inr ⟨act, context⟩⟩))

/-- A step that settles leaves a coherent machine. -/
theorem Settling.settle {c : Completion} {outer : Bool} {index : Nat} {g : Guard} {s : Step}
    {rest : Block} {below : List Frame} (settling : m.Settling c outer index g s rest below)
    (coherent : m.Coherent) : (m.settle c outer index g s rest below).Coherent := by
  unfold Machine.settle
  dsimp only
  cases context : m.context with
  | top =>
      dsimp only
      split
      · have gone := settling.next coherent ((settling.sound coherent).releaseAll c.refs)
          (World.drains_releaseAll c.refs _).evolves
        exact gone.recorded rfl s _
      · exact settling.noteAndGoOn coherent rfl
  | thread => exact settling.noteAndGoOn coherent rfl
  | finalizer label => exact settling.noteAndGoOn coherent rfl
  | body act =>
      dsimp only
      cases act.code.quiet with
      | true => exact settling.inBody coherent context
      | false =>
          have same := World.same_emit m.world (e := .stepDone act.code.label index (c.answer m.world)) rfl
          exact (settling.same same).inBody (coherent.same same settling.going) context

/-- When the script is over only the variables are held. -/
theorem Coherent.halting (coherent : m.Coherent) {c : Completion} (control : m.control = .complete c)
    (plain : c.refs = []) (stack : m.stack = []) (context : m.context = .top) :
    m.world.Sound (m.globals.refs ++ []) := by
  have sound := coherent.world
  unfold held owns at sound
  rw [control, stack, context] at sound
  refine sound.regroup fun id => ?_
  have none : Control.refs (.complete c) = [] := plain
  rw [none]
  rfl

/-- All variables are dropped when the script is over. -/
theorem Coherent.halt (coherent : m.Coherent) {c : Completion} (control : m.control = .complete c)
    (plain : c.refs = []) (stack : m.stack = []) (context : m.context = .top) : m.halt.Coherent := by
  have going : m.isHalted = false := by simp [isHalted, control]
  have released : (m.world.releaseAll m.globals.refs).Sound [] :=
    World.Sound.releaseAll m.globals.refs (coherent.halting control plain stack context)
  have evolves := (World.drains_releaseAll m.globals.refs m.world).evolves
  have ended : World.Sound { m.world.releaseAll m.globals.refs with events := [] } [] :=
    released.rethread rfl rfl rfl released.retired released.finalizing
  refine ⟨ended.regroup fun id => ?_, fun p mem => absurd mem List.not_mem_nil,
    List.nodup_nil, ?_, fun n => ?_, fun d => ?_, fun _ _ => rfl⟩
  · unfold held owns
    show List.count id ([] ++ ([] ++ (m.context.refs ++ m.stack.flatMap Frame.refs))) = _
    rw [stack, context]
    rfl
  · have placed := coherent.placed
    rw [control, stack, context] at placed
    show Placed _ m.context m.stack (m.world.releaseAll m.globals.refs).thread.frames (.halted _)
    rw [stack, context, evolves.frames]
    generalize m.world.thread.frames = frames at placed
    cases placed with
    | complete stacked =>
        cases stacked with
        | top => exact .halted .top
  · exact (congrFun evolves.depth n).trans (coherent.depth n)
  · have before := coherent.ledger d
    have change := evolves.ledger d
    have shown : m.halt.reported = (m.answers.flatMap Record.events ++ ([] ++
        (m.world.releaseAll m.globals.refs).events.reverse)).filterMap Event.drop? := rfl
    have fallen : m.halt.world.fallen = (m.world.releaseAll m.globals.refs).fallen := rfl
    rw [reported_going going, List.count_append] at before
    rw [shown, fallen]
    simp only [List.nil_append, List.filterMap_append, List.filterMap_reverse, List.count_append,
      List.count_reverse]
    unfold World.drops at before change
    omega

/-- Where a completion goes. -/
theorem Coherent.completing (coherent : m.Coherent) {c : Completion}
    (control : m.control = .complete c) :
    Stacked m.world.shapes m.context m.stack m.world.thread.frames ∧ c.Fits m.world.shapes ∧
      (Frame.Waits m.stack ∨
        Frame.Seats m.stack ∧ (c.isDone = true ∨ ∃ a, m.context = .body a)) := by
  have placed := coherent.placed
  rw [control] at placed
  generalize m.stack = stack at placed ⊢
  generalize m.world.thread.frames = frames at placed ⊢
  cases placed with
  | complete stacked fits seat => exact ⟨stacked, fits, seat⟩

theorem refs_of_isDone {c : Completion} (done : c.isDone = true) : c.refs = [] := by
  cases c with
  | done a => rfl
  | _ => cases done

/-- When nothing waits any more the script itself has ended, and its last step carries nothing. -/
theorem Coherent.over (coherent : m.Coherent) {c : Completion} (control : m.control = .complete c)
    (stack : m.stack = []) : c.refs = [] ∧ m.context = .top := by
  obtain ⟨stacked, -, seat⟩ := coherent.completing control
  rw [stack] at stacked seat
  have context := stacked.bottom
  refine ⟨?_, context⟩
  rcases seat with impossible | ⟨-, done | ⟨a, body⟩⟩
  · cases impossible
  · exact refs_of_isDone done
  · rw [context] at body
    cases body

/-- A loop goes on with its next round. -/
theorem Coherent.again (coherent : m.Coherent) {c : Completion} (control : m.control = .complete c)
    (done : c.isDone = true) {left : Nat} {body : Block} {below : List Frame}
    (stack : m.stack = .loop left body :: below) : ({ m with stack := below }.loop left body).Coherent := by
  obtain ⟨stacked, -, -⟩ := coherent.completing control
  rw [stack] at stacked
  obtain ⟨stacked, waits, isPublic⟩ := stacked.looping
  obtain ⟨outer, index, g, s, rest, below', rfl⟩ := Frame.waits_iff.mp waits
  have running : Coherent { m with
      stack := .block outer index ((g, s) :: rest) :: below'
      control := .run } := by
    refine coherent.unstack stack rfl rfl ?_ (by simp [isHalted, control]) rfl (.run stacked)
    rw [control]
    exact (refs_of_isDone done).symm
  have begun := running.begin rfl waits g (s := .loop left body) isPublic
  cases left with
  | zero => exact begun
  | succ left => exact begun

/-- A thread ends and gives its place back to the one that waits for it. -/
theorem Coherent.join (coherent : m.Coherent) {c : Completion} (control : m.control = .complete c)
    {saved : Context} {state : ThreadState} {below : List Frame}
    (stack : m.stack = .thread saved state :: below) :
    ({ m with
      world := { m.world with thread := state }
      context := saved
      stack := below }.finish .ok).Coherent := by
  obtain ⟨stacked, -, seat⟩ := coherent.completing control
  rw [stack] at stacked seat
  obtain ⟨context, saved', waits, retired, finalizing⟩ := stacked.threading
  have done : c.refs = [] := by
    rcases seat with impossible | ⟨-, done | ⟨a, body⟩⟩
    · cases impossible
    · exact refs_of_isDone done
    · rw [context] at body
      cases body
  have going : m.isHalted = false := by simp [isHalted, control]
  have sound : World.Sound { m.world with thread := state } m.held :=
    coherent.world.rethread rfl rfl rfl retired finalizing
  refine ⟨sound.regroup fun id => ?_, coherent.globals, coherent.distinct,
    .complete saved' (fun r mem => absurd mem List.not_mem_nil) (.inl waits), fun n => ?_,
    ledger_going coherent.ledger going rfl rfl fun d => rfl, not_cleared rfl⟩
  · have none : Control.refs (.complete c) = [] := done
    unfold held owns
    rw [control, stack, context, none]
    rfl
  · refine (coherent.depth n).trans ?_
    unfold Machine.entered
    rw [stack, context]
    rfl

/-- What a completion is delivered to keeps the machine coherent. -/
theorem Coherent.deliver (coherent : m.Coherent) {c : Completion} (control : m.control = .complete c) :
    (m.deliver c).Coherent := by
  have going : m.isHalted = false := by simp [isHalted, control]
  obtain ⟨stacked, fits, seat⟩ := coherent.completing control
  have step : m.step = m.deliver c := by
    rw [coherent.step_eq, control]
  cases stack : m.stack with
  | nil =>
      obtain ⟨plain, context⟩ := coherent.over control stack
      unfold Machine.deliver
      rw [stack]
      exact coherent.halt control plain stack context
  | cons f below =>
      cases f with
      | block outer index steps =>
          cases steps with
          | nil =>
              rw [stack] at seat
              rcases seat with impossible | ⟨impossible, -⟩ <;> cases impossible
          | cons step rest =>
              obtain ⟨g, s⟩ := step
              rw [stack] at stacked
              have settling : m.Settling c outer index g s rest below :=
                ⟨control, stack, stacked, fits⟩
              unfold Machine.deliver
              rw [stack]
              exact settling.settle coherent
      | branch taken =>
          rw [stack] at stacked
          obtain ⟨stacked, waits⟩ := stacked.branching
          unfold Machine.deliver
          rw [stack]
          refine coherent.unstack stack rfl rfl ?_ going rfl (.complete stacked ?_ (.inl waits))
          · rw [control]
            split
            · next done => exact (refs_of_isDone done).symm
            · rfl
          · split
            · exact fun r mem => absurd mem List.not_mem_nil
            · exact fits
      | loop left body =>
          unfold Machine.deliver
          rw [stack]
          dsimp only
          split
          · next done => exact coherent.again control done stack
          · rw [stack] at stacked
            obtain ⟨stacked, waits, -⟩ := stacked.looping
            have placed : Placed m.world.shapes m.context below m.world.thread.frames (.complete c) :=
              .complete stacked fits (.inl waits)
            have passed := coherent.unstack stack rfl rfl (by rw [control]) going rfl placed
            rw [← control] at passed
            exact passed
      | activation saved =>
          obtain ⟨a, call, rest, slots, ended⟩ := coherent.ended control stack
          obtain ⟨left, leaves⟩ := ended.leave coherent
          rw [← step, left]
          exact leaves
      | thread saved state =>
          unfold Machine.deliver
          rw [stack]
          exact coherent.join control stack
      | _ =>
          rw [stack] at stacked seat
          rcases seat with impossible | ⟨impossible, -⟩ <;> cases impossible

/-! ## Runs -/

/-- A machine that runs has a block of public steps on top. -/
theorem Coherent.block (coherent : m.Coherent) (running : m.control = .run) :
    ∃ outer index steps below, m.stack = .block outer index steps :: below ∧
      Block.isPublic steps = true := by
  have placed := coherent.placed
  rw [running] at placed
  generalize m.stack = stack at placed ⊢
  generalize m.world.thread.frames = frames at placed
  cases placed with
  | run stacked => exact ⟨_, _, _, _, rfl, stacked.steps.2.2⟩

/-- One transition keeps a machine coherent. -/
theorem Coherent.step (coherent : m.Coherent) : m.step.Coherent := by
  cases control : m.control with
  | run =>
      obtain ⟨outer, index, steps, below, stack, isPublic⟩ := coherent.block control
      rw [coherent.step_eq, control, stack]
      cases steps with
      | nil => exact coherent.finishBlock control stack
      | cons first rest =>
          obtain ⟨g, s⟩ := first
          exact coherent.begin control (by rw [stack]; trivial) g (Block.isPublic_cons isPublic).1
  | complete c =>
      rw [coherent.step_eq, control]
      exact coherent.deliver control
  | enter n args slots =>
      obtain ⟨c, h, callee, s, entering⟩ := coherent.entering control
      exact entering.step coherent
  | engine r =>
      obtain ⟨c, below, slots, slot, returning⟩ := coherent.returning control
      exact returning.step coherent
  | halted ending =>
      rw [coherent.step_eq, control]
      exact coherent

/-! ## What is known stays known -/

theorem shapes_settle (m : Machine) (c : Completion) (outer : Bool) (index : Nat) (g : Guard)
    (s : Step) (rest : Block) (below : List Frame) :
    (m.settle c outer index g s rest below).world.shapes = m.world.shapes := by
  have dropped (w : World) : (w.releaseAll c.refs).shapes = w.shapes :=
    (World.drains_releaseAll c.refs w).shapes
  unfold Machine.settle
  dsimp only
  cases m.context with
  | top =>
      cases outer with
      | true => exact dropped m.world
      | false => exact dropped _
  | thread => exact dropped _
  | finalizer label => exact dropped _
  | body act =>
      dsimp only
      cases act.code.quiet <;> split <;> rfl

/-- A completion that is delivered takes back nothing that was known. -/
theorem Coherent.grows_deliver (coherent : m.Coherent) {c : Completion}
    (control : m.control = .complete c) : m.world.shapes.Grows (m.deliver c).world.shapes := by
  have step : m.step = m.deliver c := by rw [coherent.step_eq, control]
  cases stack : m.stack with
  | nil =>
      unfold Machine.deliver
      rw [stack]
      have dropped := (World.drains_releaseAll m.globals.refs m.world).shapes
      show m.world.shapes.Grows (m.world.releaseAll m.globals.refs).shapes
      rw [dropped]
      exact .refl _
  | cons f below =>
      cases f with
      | block outer index steps =>
          unfold Machine.deliver
          rw [stack]
          cases steps with
          | nil => exact .refl _
          | cons first rest =>
              dsimp only
              rw [shapes_settle]
              exact .refl _
      | activation saved =>
          obtain ⟨a, call, rest, slots, ended⟩ := coherent.ended control stack
          rw [← step, (ended.leave coherent).1]
          obtain ⟨-, -, -, grows, -⟩ := ended.delivered coherent
          exact grows
      | loop left body =>
          unfold Machine.deliver
          rw [stack]
          dsimp only
          split
          · cases left <;> exact .refl _
          · exact .refl _
      | _ =>
          unfold Machine.deliver
          rw [stack]
          exact .refl _

/-- One transition takes back nothing that was known: an address keeps its shape. -/
theorem Coherent.grows (coherent : m.Coherent) : m.world.shapes.Grows m.step.world.shapes := by
  cases control : m.control with
  | run =>
      obtain ⟨outer, index, steps, below, stack, isPublic⟩ := coherent.block control
      rw [coherent.step_eq, control, stack]
      cases steps with
      | nil => exact .refl _
      | cons first rest =>
          exact (coherent.begun control (by rw [stack]; trivial) first.1
            (Block.isPublic_cons isPublic).1).grows
  | complete c =>
      rw [coherent.step_eq, control]
      exact coherent.grows_deliver control
  | enter n args slots =>
      obtain ⟨c, h, callee, s, entering⟩ := coherent.entering control
      rw [entering.step_eq coherent.world.aborted]
      have counted (change : NativeStore → NativeStore) (keeps : ∀ s, (change s).config = s.config) :
          m.world.shapes.Grows (m.world.modifyNativeStore callee.native change).shapes := by
        rw [World.shapes_modifyNativeStore keeps]
        exact .refl _
      split_ifs
      · exact counted _ fun _ => rfl
      · exact .refl _
      · refine (counted (fun s => { s with depth := s.depth + 1 }) fun _ => rfl).trans ?_
        show Shapes.Grows _ (World.started _ _ _ _ _).shapes
        rw [World.shapes_started]
        exact .refl _
  | engine r =>
      obtain ⟨c, below, slots, slot, returning⟩ := coherent.returning control
      exact returning.evolves.shapes.trans (returning.ends coherent).busy.evolves.shapes
  | halted ending =>
      rw [coherent.step_eq, control]
      exact .refl _

/-- Every state that a public script leads to is coherent. -/
theorem coherent_after (level : Option LogLevel) {script : Block}
    (isPublic : Block.isPublic script = true) (n : Nat) : (after level script n).Coherent := by
  induction n with
  | zero => exact coherent_start level isPublic
  | succ n ih =>
      rw [after_succ]
      exact ih.step

end Machine

end HostEmbedding
