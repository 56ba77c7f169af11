import HostEmbedding.Proofs.Slots.Ends

/-!
# Through the engine and through a script

What a call into the engine and a return from it do to the stack and the slots; with the steps that
begin and end, that is every transition, so the frames of every state of a script are in order.
-/

namespace HostEmbedding.Machine

/-! ## Into the engine -/

/-- What entering the engine can put on the stack, and what goes on from there. -/
inductive Engaging (ctx : Context) : Context → Control → List Frame → Prop
  | answered (r : EngineResult) : Engaging ctx ctx (.engine r) []
  | callback (c : CallbackRun) (n : NativeId) (args : List (Slot ObjId)) (slots : SlotArray) :
      Engaging ctx ctx (.enter n args slots) [.callback c]
  | body (a : Activation) :
      Engaging ctx (.body a) (startOf a) [.block true 0 a.steps, .activation ctx]

/-- What the engine enters is in order over the call that it was entered for. -/
theorem Engaging.inOrder {ctx ctx' : Context} {control : Control} {new stack : List Frame}
    {slots : List (Option Fault)} (engaging : Engaging ctx ctx' control new)
    (nested : Nested ctx stack slots) (on : Frame.OnCall stack) :
    Nested ctx' (new ++ stack) slots ∧ control.Suits (new ++ stack) := by
  cases engaging with
  | answered => exact ⟨nested, on⟩
  | callback => exact ⟨.callback nested on, rfl⟩
  | body a =>
      refine ⟨.block (.activation nested on) rfl, ?_⟩
      rcases startOf_cases a with start | ⟨f, start⟩
      · rw [start]
        exact ⟨_, _, _, _, rfl⟩
      · rw [start]
        rfl

theorem Engaging.plain {ctx ctx' : Context} {control : Control} {new : List Frame}
    (engaging : Engaging ctx ctx' control new) : ∀ f ∈ new, f.hasSlot = false := by
  cases engaging <;> simp [Frame.hasSlot]

def Engages (m : Machine) (F : Machine → Machine) : Prop :=
  ∃ new, Engaging m.context (F m).context (F m).control new ∧
    ∀ s xs, F (m.onto s xs) = (F m).onto (new ++ s) xs

variable {m : Machine}

/-- A native callback ends, or calls on with its frame on the stack. -/
theorem engages_startCallback (m : Machine) (c : CallbackRun) (depth : UInt32) :
    m.Engages fun n => n.startCallback c depth := by
  have logged (n : Machine) (e : Event) :
      (n.withWorld (n.world.emit e)).nestedFunc? c = n.nestedFunc? c := rfl
  have nested (s : List Frame) (xs : List (Option Fault)) :
      (m.onto s xs).nestedFunc? c = m.nestedFunc? c := rfl
  unfold Engages Machine.startCallback
  simp only [logged, nested]
  cases m.nestedFunc? c with
  | none => exact ⟨[], .answered _, fun s xs => rfl⟩
  | some f => exact ⟨[.callback c], .callback c _ _ _, fun s xs => rfl⟩

/-- A call is refused, or goes to a native callback or to host code. -/
theorem engages_enter (m : Machine) (n : NativeId) (args : List (Slot ObjId)) (slots : SlotArray) :
    m.Engages fun k => k.enter n args slots := by
  unfold Engages Machine.enter
  simp only [onto_world, World.tryEnter_withSlots]
  obtain ⟨admitted, w⟩ := m.world.tryEnter n args slots.count
  cases admitted with
  | error t => exact ⟨[], .answered _, fun s xs => rfl⟩
  | ok admitted =>
      dsimp only
      cases admitted.func.callback with
      | native code => exact engages_startCallback (m.withWorld w) _ _
      | host env =>
          dsimp only
          simp only [World.enterHost_withSlots]
          obtain ⟨entered, w⟩ := w.enterHost env admitted.func.store args admitted.depth slots.available
          cases entered with
          | error t => exact ⟨[], .answered _, fun s xs => rfl⟩
          | ok a => exact ⟨[.block true 0 a.steps, .activation m.context], .body a, fun s xs => rfl⟩

theorem InOrder.enters (inOrder : m.InOrder) (alive : m.world.aborted = none) {n : NativeId}
    {args : List (Slot ObjId)} {slots : SlotArray} (control : m.control = .enter n args slots) :
    m.Move ∧ m.step.InOrder := by
  obtain ⟨nested, suits⟩ := inOrder
  rw [control] at suits
  obtain ⟨new, engaging, same⟩ := engages_enter m n args slots
  obtain ⟨order, suits⟩ := engaging.inOrder nested suits
  exact stays_inOrder [] new m.stack (m.enter n args slots) rfl (List.forall_mem_nil _) engaging.plain
    (fun s xs => (step_enter (m := m.onto s xs) alive control).trans (same s xs))
    (panic?_of_control alive (by simp [control])) order suits

/-! ## Out of the engine -/

section

variable {n : Machine} {r : EngineResult} {below : List Frame}

theorem deliverEngine_hostCall {c : HostCall} (stack : n.stack = .hostCall c :: below) :
    n.deliverEngine r = { n with stack := below }.endCall c r := by
  unfold Machine.deliverEngine
  rw [stack]

theorem deliverEngine_nativeCall {name : Option VarName} (stack : n.stack = .nativeCall name :: below) :
    n.deliverEngine r = { n with stack := below }.endNativeCall name r := by
  unfold Machine.deliverEngine
  rw [stack]

theorem deliverEngine_callback {c : CallbackRun} (stack : n.stack = .callback c :: below) :
    n.deliverEngine r = { n with stack := below }.resumeCallback c r := by
  unfold Machine.deliverEngine
  rw [stack]

end

def returned (m : Machine) (c : HostCall) (r : EngineResult) (slot : Option Fault) : Machine :=
  (m.withWorld (m.world.releaseAll (Slot.refs c.raw))).resumeCall c.request
    (resumed c.request.type.results slot r)

theorem returned_onto (m : Machine) (c : HostCall) (r : EngineResult) (slot : Option Fault)
    (s : List Frame) (xs : List (Option Fault)) :
    (m.onto s xs).returned c r slot = (m.returned c r slot).onto s xs := by
  have closed := (blind_self m s xs).world (World.releaseAll_withSlots xs (Slot.refs c.raw) m.world)
  exact (closed.resumeCall c.request (resumed c.request.type.results slot r)).same

/-- A host call that ends closes its slot. -/
theorem endCall_onto (m : Machine) (c : HostCall) (r : EngineResult) (s : List Frame)
    (slot : Option Fault) (xs : List (Option Fault)) :
    (m.onto s (slot :: xs)).endCall c r = (m.returned c r slot).onto s xs := by
  rw [← returned_onto]
  unfold Machine.endCall Machine.returned
  rw [onto_world, onto_world, World.finishCall_withSlots, World.releaseAll_withSlots]
  generalize resumed c.request.type.results slot r = o
  cases o <;> rfl

/-- A callback that called on passes a trap on and ends otherwise. -/
theorem resumeCallback_onto (m : Machine) (c : CallbackRun) (r : EngineResult) :
    (∃ r', (m.resumeCallback c r).control = .engine r') ∧ (m.resumeCallback c r).context = m.context ∧
      ∀ s xs, (m.onto s xs).resumeCallback c r = (m.resumeCallback c r).onto s xs := by
  cases r <;> exact ⟨⟨_, rfl⟩, rfl, fun s xs => rfl⟩

section

variable {r : EngineResult} (alive : m.world.aborted = none) (control : m.control = .engine r)

include alive control

/-- The engine returns to a host call. -/
theorem step_hostCall {c : HostCall} {below : List Frame} (stack : m.stack = .hostCall c :: below)
    {slot : Option Fault} {lower : List (Option Fault)} (frames : m.world.thread.frames = slot :: lower) :
    m.step = (m.returned c r slot).onto below lower := by
  have closed : { m with stack := below } = m.onto below (slot :: lower) := by
    rw [← frames]
    rfl
  refine (step_engine alive control).trans ((deliverEngine_hostCall stack).trans ?_)
  rw [closed, endCall_onto]

theorem returns_hostCall {c : HostCall} {below : List Frame} (stack : m.stack = .hostCall c :: below)
    {slot : Option Fault} {lower : List (Option Fault)} (frames : m.world.thread.frames = slot :: lower)
    (nested : Nested m.context below lower) (off : Frame.OffCall below) : m.Move ∧ m.step.InOrder := by
  have ends : Finishes (m.withWorld _) below lower (m.returned c r slot) _ :=
    (blind_self _ below lower).resumeCall c.request _
  obtain ⟨t, context⟩ := ends.context
  obtain ⟨how, ended⟩ := ends.ended
  constructor
  · exact .returns c below r (m.returned c r) stack control
      (fun s slot xs => (step_hostCall (m := m.onto (.hostCall c :: s) (slot :: xs)) alive control rfl
        rfl).trans (by rw [returned_onto, onto_onto]))
      (fun _ => rfl) (panic?_of_control alive (by simp [control]))
  · rw [step_hostCall alive control stack frames]
    refine ⟨?_, ?_⟩
    · show Nested (m.returned c r slot).context below lower
      rw [context]
      exact nested.withLocals t
    · show (m.returned c r slot).control.Suits below
      rw [ended]
      exact off

theorem returns_nativeCall {name : Option VarName} {below : List Frame}
    (stack : m.stack = .nativeCall name :: below)
    (nested : Nested m.context below m.world.thread.frames) (off : Frame.OffCall below) :
    m.Move ∧ m.step.InOrder := by
  have ends (s : List Frame) (xs : List (Option Fault)) :
      Finishes m s xs (m.endNativeCall name r) ((m.onto s xs).endNativeCall name r) :=
    (blind_self m s xs).endNativeCall name r
  have same (s : List Frame) (xs : List (Option Fault)) :
      (m.onto (.nativeCall name :: s) xs).step = (m.endNativeCall name r).onto s xs := by
    refine (step_engine (m := m.onto (.nativeCall name :: s) xs) alive control).trans ?_
    exact (deliverEngine_nativeCall (n := m.onto (.nativeCall name :: s) xs) rfl).trans (ends s xs).same
  obtain ⟨t, context⟩ := (ends below m.world.thread.frames).context
  obtain ⟨how, ended⟩ := (ends below m.world.thread.frames).ended
  refine stays_inOrder [.nativeCall name] [] below (m.endNativeCall name r) stack
    (by simp [Frame.hasSlot]) (List.forall_mem_nil _) same (panic?_of_control alive (by simp [control]))
    ?_ ?_
  · rw [context]
    exact nested.withLocals t
  · rw [ended]
    exact off

theorem returns_callback {c : CallbackRun} {below : List Frame} (stack : m.stack = .callback c :: below)
    (nested : Nested m.context below m.world.thread.frames) (on : Frame.OnCall below) :
    m.Move ∧ m.step.InOrder := by
  obtain ⟨⟨r', goes⟩, context, resumes⟩ := resumeCallback_onto m c r
  have same (s : List Frame) (xs : List (Option Fault)) :
      (m.onto (.callback c :: s) xs).step = (m.resumeCallback c r).onto s xs := by
    refine (step_engine (m := m.onto (.callback c :: s) xs) alive control).trans ?_
    exact (deliverEngine_callback (n := m.onto (.callback c :: s) xs) rfl).trans (resumes s xs)
  refine stays_inOrder [.callback c] [] below (m.resumeCallback c r) stack (by simp [Frame.hasSlot])
    (List.forall_mem_nil _) same (panic?_of_control alive (by simp [control])) ?_ ?_
  · rw [context]
    exact nested
  · rw [goes]
    exact on

end

theorem InOrder.returns (inOrder : m.InOrder) (alive : m.world.aborted = none) {r : EngineResult}
    (control : m.control = .engine r) : m.Move ∧ m.step.InOrder := by
  obtain ⟨nested, suits⟩ := inOrder
  rw [control] at suits
  cases stack : m.stack with
  | nil =>
      rw [stack] at suits
      cases suits
  | cons f below =>
      rw [stack] at nested suits
      cases f with
      | hostCall c =>
          obtain ⟨off, slot, lower, frames, nestedBelow⟩ := nested.of_hostCall
          exact returns_hostCall alive control stack frames nestedBelow off
      | nativeCall name =>
          obtain ⟨nestedBelow, off⟩ := nested.of_nativeCall
          exact returns_nativeCall alive control stack nestedBelow off
      | callback c =>
          obtain ⟨nestedBelow, on⟩ := nested.of_callback
          exact returns_callback alive control stack nestedBelow on
      | block | branch | loop | activation | thread | finalizer => cases suits

/-! ## Every transition -/

/-- In every state whose frames are in order a transition is one of these, and leaves them in order. -/
theorem InOrder.moves (inOrder : m.InOrder) : m.Move ∧ m.step.InOrder := by
  cases aborted : m.world.aborted with
  | some op =>
      have silent : m.panic? = none := by
        unfold Machine.panic?
        rw [aborted]
        rfl
      exact stays_inOrder [] [] m.stack { m with control := .halted [] } rfl (List.forall_mem_nil _)
        (List.forall_mem_nil _) (fun s xs => step_aborted (m := m.onto s xs) aborted) silent
        inOrder.nested trivial
  | none =>
      cases control : m.control with
      | run => exact inOrder.begins aborted control
      | complete c => exact inOrder.ends aborted control
      | enter n args slots => exact inOrder.enters aborted control
      | engine r => exact inOrder.returns aborted control
      | halted ending =>
          have stops (n : Machine) (alive : n.world.aborted = none)
              (control : n.control = .halted ending) : n.step = n := by
            unfold Machine.step
            rw [alive, control]
            rfl
          refine stays_inOrder [] [] m.stack m rfl (List.forall_mem_nil _) (List.forall_mem_nil _)
            (fun s xs => stops (m.onto s xs) aborted control)
            (panic?_of_control aborted (by simp [control])) inOrder.nested ?_
          rw [control]
          trivial

theorem inOrder_start (level : Option LogLevel) (script : Block) : (start level script).InOrder :=
  ⟨.block .top trivial, _, _, _, _, rfl⟩

/-- The frames of every state that a script leads to are in order. -/
theorem inOrder_after (level : Option LogLevel) (script : Block) (k : Nat) :
    (after level script k).InOrder := by
  induction k with
  | zero => exact inOrder_start level script
  | succ k ih =>
      rw [after_succ]
      exact ih.moves.2

end HostEmbedding.Machine
