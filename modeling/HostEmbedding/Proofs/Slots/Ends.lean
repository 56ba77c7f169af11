import HostEmbedding.Proofs.Machine.Stack
import HostEmbedding.Proofs.Slots.Moves

/-!
# Where a step ends

What the frame on top does once what it waited for has ended.
-/

namespace HostEmbedding.Machine

variable {m : Machine}

theorem noteAndGoOn_onto (m : Machine) (e : Event) (c : Completion) (outer : Bool) (index : Nat)
    (rest : Block) (t s : List Frame) (xs : List (Option Fault)) :
    (m.onto t xs).noteAndGoOn e c outer index rest s =
      (m.noteAndGoOn e c outer index rest []).onto (.block outer (index + 1) rest :: s) xs := by
  have released : ((m.onto t xs).world.emit e).releaseAll c.refs =
      ((m.world.emit e).releaseAll c.refs).withSlots xs :=
    World.releaseAll_withSlots xs c.refs (m.world.emit e)
  show Machine.next (Machine.withWorld _ (((m.onto t xs).world.emit e).releaseAll c.refs)) _ _ _ _ = _
  rw [released]
  rfl

/-- A step that has ended is recorded, and its block goes on or ends with it, in the same way whatever
stands below. -/
theorem settle_onto (m : Machine) (c : Completion) (outer : Bool) (index : Nat) (g : Guard)
    (st : Step) (rest : Block) (t s : List Frame) (xs : List (Option Fault)) :
    let core := m.settle c outer index g st rest []
    (m.onto t xs).settle c outer index g st rest s = core.onto (core.stack ++ s) xs := by
  have answer (w : World) (xs : List (Option Fault)) : c.answer (w.withSlots xs) = c.answer w := by
    cases c <;> rfl
  have context : (m.onto t xs).context = m.context := rfl
  intro core
  unfold core Machine.settle
  simp only [context, onto_world, answer, World.releaseAll_withSlots]
  split
  · split
    · rfl
    · exact noteAndGoOn_onto m _ c outer index rest t s xs
  · exact noteAndGoOn_onto m _ c outer index rest t s xs
  · exact noteAndGoOn_onto m _ c outer index rest t s xs
  · split
    · split <;> rfl
    · split <;> rfl

theorem panic?_of_stack (plain : ∀ saved below, m.stack ≠ .activation saved :: below) :
    m.panic? = none := by
  unfold Machine.panic?
  split
  · rfl
  · split
    · next stack _ => exact absurd stack (plain _ _)
    · rfl

section

variable {n : Machine} {c : Completion} {below : List Frame}

theorem deliver_block {outer : Bool} {index : Nat} {g : Guard} {step : Step} {rest : Block}
    (stack : n.stack = .block outer index ((g, step) :: rest) :: below) :
    n.deliver c = n.settle c outer index g step rest below := by
  unfold Machine.deliver
  rw [stack]

theorem deliver_branch {taken : Bool} (stack : n.stack = .branch taken :: below) :
    n.deliver c = { n with
      stack := below, control := .complete (if c.isDone then .done (.bool taken) else c) } := by
  unfold Machine.deliver
  rw [stack]

theorem deliver_loop {left : Nat} {body : Block} (stack : n.stack = .loop left body :: below) :
    n.deliver c = if c.isDone then { n with stack := below }.loop left body
      else { n with stack := below } := by
  unfold Machine.deliver
  rw [stack]

theorem deliver_activation {saved : Context} {a : Activation}
    (stack : n.stack = .activation saved :: below) (context : n.context = .body a) :
    n.deliver c = { n with stack := below }.leaveBody saved a c := by
  unfold Machine.deliver
  rw [stack, context]

theorem deliver_finalizer {saved : Context} (stack : n.stack = .finalizer saved :: below) :
    n.deliver c = { n with
      world := n.world.leaveFinalizer, context := saved, stack := below,
      control := .complete (.done .ok) } := by
  unfold Machine.deliver
  rw [stack]
  rfl

end

section

variable {c : Completion} (alive : m.world.aborted = none) (control : m.control = .complete c)

include alive control

/-- The frame on top is told how what it waited for ended, on any stack and over any slots. -/
theorem deliver_onto (s : List Frame) (xs : List (Option Fault)) :
    (m.onto s xs).step = (m.onto s xs).deliver c :=
  step_complete (m := m.onto s xs) alive control

theorem ends_block {outer : Bool} {index : Nat} {steps : Block} {below : List Frame}
    (stack : m.stack = .block outer index steps :: below)
    (nested : Nested m.context below m.world.thread.frames) (off : Frame.OffCall below) :
    m.Move ∧ m.step.InOrder := by
  have silent := panic?_of_stack (m := m) (by simp [stack])
  have plain (index : Nat) (steps : Block) :
      ∀ f ∈ [Frame.block outer index steps], f.hasSlot = false := by simp [Frame.hasSlot]
  cases steps with
  | nil =>
      refine stays_inOrder [.block outer index []] [] below m stack (plain _ _) (List.forall_mem_nil _)
        (fun s xs => deliver_onto alive control _ xs) silent nested ?_
      rw [control]
      exact off
  | cons first rest =>
      obtain ⟨g, st⟩ := first
      have same (s : List Frame) (xs : List (Option Fault)) :
          (m.onto (.block outer index ((g, st) :: rest) :: s) xs).step =
            (m.settle c outer index g st rest []).onto ((m.settle c outer index g st rest []).stack ++ s) xs :=
        (deliver_onto alive control _ xs).trans
          ((deliver_block rfl).trans (settle_onto m c outer index g st rest _ s xs))
      obtain ⟨context, settled⟩ := m.settle_spec c outer index g st rest []
      by_cases on : m.context.goesOn g c = true
      · rw [if_pos on] at settled
        obtain ⟨top, goes⟩ := settled
        rw [top] at same
        refine stays_inOrder [.block outer index ((g, st) :: rest)] [.block outer (index + 1) rest] below
          (m.settle c outer index g st rest []) stack (plain _ _) (plain _ _) same silent ?_ ?_
        · rw [context]
          exact .block nested off
        · rw [goes]
          exact ⟨_, _, _, _, rfl⟩
      · rw [if_neg on] at settled
        obtain ⟨top, goes⟩ := settled
        rw [top] at same
        refine stays_inOrder [.block outer index ((g, st) :: rest)] [] below
          (m.settle c outer index g st rest []) stack (plain _ _) (List.forall_mem_nil _) same silent ?_ ?_
        · rw [context]
          exact nested
        · rw [goes]
          exact off

theorem ends_loop {left : Nat} {body : Block} {below : List Frame}
    (stack : m.stack = .loop left body :: below)
    (nested : Nested m.context below m.world.thread.frames) (off : Frame.OffCall below) :
    m.Move ∧ m.step.InOrder := by
  have silent := panic?_of_stack (m := m) (by simp [stack])
  have delivers (s : List Frame) (xs : List (Option Fault)) :
      (m.onto (.loop left body :: s) xs).deliver c =
        if c.isDone then (m.onto s xs).loop left body else m.onto s xs := deliver_loop rfl
  have plain : ∀ f ∈ [Frame.loop left body], f.hasSlot = false := by simp [Frame.hasSlot]
  cases done : c.isDone with
  | false =>
      refine stays_inOrder [_] [] below m stack plain (List.forall_mem_nil _) (fun s xs => ?_) silent
        nested ?_
      · refine (deliver_onto alive control _ xs).trans ((delivers s xs).trans ?_)
        rw [done]
        rfl
      · rw [control]
        exact off
  | true =>
      cases left with
      | zero =>
          refine stays_inOrder [_] [] below (m.finish .ok) stack plain (List.forall_mem_nil _)
            (fun s xs => ?_) silent nested off
          refine (deliver_onto alive control _ xs).trans ((delivers s xs).trans ?_)
          rw [done]
          rfl
      | succ left =>
          refine stays_inOrder [_] [.block false 0 body, .loop left body] below
            { m with control := .run } stack plain (by simp [Frame.hasSlot]) (fun s xs => ?_) silent
            (.block (.loop nested off) rfl) ⟨_, _, _, _, rfl⟩
          refine (deliver_onto alive control _ xs).trans ((delivers s xs).trans ?_)
          rw [done]
          rfl

/-- A body ends: its panic goes to the innermost slot, and anything else goes to the engine. -/
theorem ends_activation {saved : Context} {below : List Frame}
    (stack : m.stack = .activation saved :: below) {a : Activation} (context : m.context = .body a)
    (nested : Nested saved below m.world.thread.frames) (on : Frame.OnCall below) :
    m.Move ∧ m.step.InOrder := by
  have elsewhere (s : List Frame) (xs : List (Option Fault)) :
      (m.onto (.activation saved :: s) xs).step = (m.onto s xs).leaveBody saved a c :=
    (deliver_onto alive control _ xs).trans (deliver_activation rfl context)
  have panics : m.panic? = a.fault? c := by
    unfold Machine.panic?
    rw [alive, control, stack, context]
    rfl
  cases fault : a.fault? c with
  | none =>
      refine stays_inOrder [_] [] below (m.leaveBody saved a c) stack (by simp [Frame.hasSlot])
        (List.forall_mem_nil _) (fun s xs => (elsewhere s xs).trans ?_) (panics.trans fault) nested on
      unfold Machine.leaveBody
      rw [onto_world, World.leaveHost_of_none fault]
      rfl
  | some f =>
      obtain ⟨core, leaves⟩ := World.leaveHost_of_some m.world fault
      let left (slot : Option (Option Fault)) : Machine :=
        { m with world := core slot, context := saved, control := .engine (.error (answerTo f slot)) }
      have same (s : List Frame) (xs : List (Option Fault)) :
          (m.onto (.activation saved :: s) xs).step = (left xs.head?).onto s (parkedIn f xs) := by
        refine (elsewhere s xs).trans ?_
        unfold Machine.leaveBody
        rw [onto_world, leaves]
        rfl
      refine ⟨.leaves saved below f left stack same (fun _ => rfl) (panics.trans fault), ?_⟩
      have here := step_here stack rfl (same below m.world.thread.frames)
      rw [here]
      exact ⟨nested.fill (length_parkedIn f _), on⟩

theorem ends_thread {saved : Context} {state : ThreadState} {below : List Frame}
    (stack : m.stack = .thread saved state :: below)
    (nested : Nested saved below state.frames) (off : Frame.OffCall below) :
    m.Move ∧ m.step.InOrder := by
  have silent := panic?_of_stack (m := m) (by simp [stack])
  let core : Machine := { m with
    world := { m.world with thread := state }, context := saved, control := .complete (.done .ok) }
  have same (s : List Frame) (xs ys : List (Option Fault)) :
      (m.onto (.thread saved { state with frames := xs } :: s) ys).step = core.onto s xs :=
    deliver_onto alive control _ ys
  refine ⟨.joins saved state below core stack same silent, ?_⟩
  have here := step_here stack rfl (same below state.frames m.world.thread.frames)
  rw [here]
  exact ⟨nested, off⟩

end

theorem InOrder.ends (inOrder : m.InOrder) (alive : m.world.aborted = none) {c : Completion}
    (control : m.control = .complete c) : m.Move ∧ m.step.InOrder := by
  obtain ⟨nested, suits⟩ := inOrder
  rw [control] at suits
  cases stack : m.stack with
  | nil =>
      have step : m.step = m.halt := by
        refine (step_complete alive control).trans ?_
        unfold Machine.deliver
        rw [stack]
      have frames : m.halt.world.thread.frames = m.world.thread.frames :=
        frames_of_blind (W := fun w => w.releaseAll m.globals.refs) fun xs =>
          World.releaseAll_withSlots xs m.globals.refs m.world
      constructor
      · exact .ends stack (step ▸ stack) (panic?_of_stack (by simp [stack]))
      · rw [step]
        refine ⟨?_, trivial⟩
        rw [frames]
        exact nested
  | cons f below =>
      have silent := panic?_of_stack (m := m)
      rw [stack] at nested suits silent
      cases f with
      | block outer index steps =>
          obtain ⟨nestedBelow, off⟩ := nested.of_block
          exact ends_block alive control stack nestedBelow off
      | branch taken =>
          obtain ⟨nestedBelow, off⟩ := nested.of_branch
          exact stays_inOrder [.branch taken] [] below
            (m.complete (if c.isDone then .done (.bool taken) else c)) stack (by simp [Frame.hasSlot])
            (List.forall_mem_nil _)
            (fun s xs => (deliver_onto alive control _ xs).trans (deliver_branch rfl))
            (silent (by simp)) nestedBelow off
      | loop left body =>
          obtain ⟨nestedBelow, off⟩ := nested.of_loop
          exact ends_loop alive control stack nestedBelow off
      | hostCall call => cases suits
      | nativeCall name => cases suits
      | callback run => cases suits
      | activation saved =>
          obtain ⟨⟨a, context⟩, nestedBelow, on⟩ := nested.of_activation
          exact ends_activation alive control stack context nestedBelow on
      | thread saved state =>
          obtain ⟨nestedBelow, off⟩ := nested.of_thread
          exact ends_thread alive control stack nestedBelow off
      | finalizer saved =>
          obtain ⟨nestedBelow, off⟩ := nested.of_finalizer
          exact stays_inOrder [.finalizer saved] [] below
            { m with
              world := m.world.leaveFinalizer, context := saved, control := .complete (.done .ok) }
            stack (by simp [Frame.hasSlot]) (List.forall_mem_nil _)
            (fun s xs => (deliver_onto alive control _ xs).trans (deliver_finalizer rfl))
            (silent (by simp)) nestedBelow off

end HostEmbedding.Machine
