import HostEmbedding.Proofs.Machine.Traps
import HostEmbedding.Proofs.Machine.Unwinding

/-!
# Panics belong to calls

A panic that ends the closure of a call is parked in the slot of that call, and that call resumes it,
once and as it is. An enclosing closure ends in it only if none of its steps catches it, and after a
call, however it ends, the slots of the thread are those from before.
-/

namespace HostEmbedding

namespace Machine

def Raises (m : Machine) (c : HostCall) (below : List Frame) (f : Fault) : Prop :=
  ∃ a saved how, m.control = .complete how ∧ m.context = .body a ∧
    m.stack = .activation saved :: .hostCall c :: below ∧ a.outcome how = .panicked f

/-- The engine has left a call, in whose slot a panic is parked. -/
def Takes (m : Machine) (c : HostCall) (below : List Frame) (f : Fault) : Prop :=
  (∃ r, m.control = .engine r) ∧ m.stack = .hostCall c :: below ∧
    m.world.thread.frames = some f :: Frame.slots below

def Calls (m : Machine) : Prop :=
  m.control = .run ∧ ∃ outer index g s rest below,
    m.stack = .block outer index ((g, s) :: rest) :: below ∧
      ((∃ v args names, s = .call v args names) ∨ ∃ v args names, s = .typedCall v args names)

/-- A run on which a panic has passed through some frames: up to a step that catches it, after which
the block goes on, or else to the end of the body, which ends in it. -/
structure Unwound (run : Nat → Machine) (frames : List Frame) (f : Fault) (k : Nat) : Prop where
  passes : ∀ j < k, (run j).control = .complete (.panicked f)
  stack : (run k).stack = (Frame.unwind frames).2
  caught : (Frame.unwind frames).1 = true → (run k).control = .run
  raised : (Frame.unwind frames).1 = false → ∃ c below, (run k).Raises c below f

/-- A step that called has ended: the frames are those from before, and so are the slots. -/
structure Restored (before after : Machine) : Prop where
  stack : after.stack = before.stack
  slots : after.world.thread.frames = before.world.thread.frames
  control : ∃ how, after.control = .complete how
  context : ∃ s, after.context = before.context.withLocals s

/-- How panics pass through the calls of a run. -/
structure PanicTransfer (run : Nat → Machine) : Prop where
  /-- Unless a call has just been left, the open slots are those of the calls that wait, and empty. -/
  slots : ∀ n, (∀ r, (run n).control ≠ .engine r) →
    (run n).world.thread.frames = Frame.slots (run n).stack
  /-- The slot that is closed is there: it is that of the call that was left. -/
  closes : ∀ n r, (run n).control = .engine r → ∃ c below slot, (run n).stack = .hostCall c :: below ∧
    (run n).world.thread.frames = slot :: Frame.slots below ∧ (run (n + 1)).stack = below ∧
    (run (n + 1)).world.thread.frames = Frame.slots below
  /-- A call takes a panic exactly when the closure that it invoked has just ended in it. -/
  takes : ∀ n c below f, (run n).Takes c below f ↔ ∃ k, n = k + 1 ∧ (run k).Raises c below f
  /-- The call that takes a panic resumes it. -/
  resumes : ∀ n c below f, (run n).Takes c below f →
    (run (n + 1)).control = .complete (.panicked f) ∧ (run (n + 1)).stack = below
  /-- A call that was left ends in a panic only if it has taken it. -/
  only : ∀ n r f, (run n).control = .engine r → (run (n + 1)).control = .complete (.panicked f) →
    ∃ c below, (run n).Takes c below f
  /-- Inside a body a panic passes to the step that catches it, or else the body ends in it. -/
  unwinds : ∀ n f a, (run n).control = .complete (.panicked f) → (run n).context = .body a →
    ∃ k, Unwound (fun j => run (n + j)) (run n).stack f k
  /-- Outside of bodies the step that panicked is recorded and the script goes on. -/
  outside : ∀ n f, (run n).control = .complete (.panicked f) → (∀ a, (run n).context ≠ .body a) →
    (run (n + 1)).control = .run
  /-- A call never ends, or it ends with the stack and the slots from before. -/
  restored : ∀ n, (run n).Calls →
    (∀ k, (run (n + 1 + k)).Within (run n).stack (run n).context) ∨
      ∃ k, (∀ j < k, (run (n + 1 + j)).Within (run n).stack (run n).context) ∧
        Restored (run n) (run (n + 1 + k))
  /-- A trap with the text of the sentinel goes back to a step that asked for it. -/
  sentinel : ∀ n t, (run n).control = .complete (.trapped t) → t.message = sentinelMessage →
    ∃ k < n, (run k).AsksSentinel

variable {m : Machine}

/-! ## Slots -/

/-- When a call has been left, its own slot is the innermost one, and it is closed. -/
theorem Coherent.closes (coherent : m.Coherent) {r : EngineResult} (control : m.control = .engine r) :
    ∃ c below slot, m.stack = .hostCall c :: below ∧
      m.world.thread.frames = slot :: Frame.slots below ∧ m.step.stack = below ∧
      m.step.world.thread.frames = Frame.slots below := by
  obtain ⟨c, below, slots, slot, returning⟩ := coherent.returning control
  obtain ⟨stack, ⟨how, ends⟩, -⟩ := returning.restored coherent
  have closed := (returning.step coherent).slots fun r same => nomatch ends.symm.trans same
  rw [stack] at closed
  exact ⟨c, below, slot, returning.stack, returning.own_slot, stack, closed⟩

/-! ## Panics are parked and taken -/

/-- A closure that ends in a panic leaves it in the slot of its call. -/
theorem Coherent.takes_of_raises (coherent : m.Coherent) {c : HostCall} {below : List Frame} {f : Fault}
    (raises : m.Raises c below f) : m.step.Takes c below f := by
  obtain ⟨a, saved, how, control, context, stack, outcome⟩ := raises
  obtain ⟨b, call, below', slots, ended⟩ := coherent.ended control stack
  cases ended.context.symm.trans context
  cases ended.stack.symm.trans stack
  have returning := ended.returning coherent
  have opened := returning.own_slot
  rw [outcome] at opened
  exact ⟨⟨_, returning.control⟩, returning.stack, opened⟩

/-- A panic is taken only right after the closure of the call has ended in it. -/
theorem Coherent.raises_of_takes (coherent : m.Coherent) {c : HostCall} {below : List Frame} {f : Fault}
    (takes : m.step.Takes c below f) : m.Raises c below f := by
  obtain ⟨⟨r, engine⟩, stack, opened⟩ := takes
  rcases coherent.left engine with ⟨call, below', slots, code, returning⟩ |
    ⟨a, call, saved, below', slots, how, ended⟩
  · cases returning.own_slot.symm.trans opened
  · have returning := ended.returning coherent
    cases returning.stack.symm.trans stack
    have slot := (List.cons.inj (returning.own_slot.symm.trans opened)).1
    refine ⟨a, saved, how, ended.control, ended.context, ended.stack, ?_⟩
    cases outcome : a.outcome how with
    | panicked f' =>
        rw [outcome] at slot
        cases slot
        rfl
    | returned vals =>
        rw [outcome] at slot
        cases slot
    | trapped s =>
        rw [outcome] at slot
        cases slot

/-- The call that takes a panic resumes it. -/
theorem Coherent.resumes_of_takes (coherent : m.Coherent) {c : HostCall} {below : List Frame}
    {f : Fault} (takes : m.Takes c below f) :
    m.step.control = .complete (.panicked f) ∧ m.step.stack = below := by
  obtain ⟨⟨r, engine⟩, stack, opened⟩ := takes
  obtain ⟨call, below', slots, slot, returning⟩ := coherent.returning engine
  cases returning.stack.symm.trans stack
  obtain rfl := (List.cons.inj (returning.own_slot.symm.trans opened)).1
  refine ⟨?_, (returning.restored coherent).1⟩
  rw [returning.step_eq coherent]
  rfl

theorem returnCall_panicked (m : Machine) {c : CallRequest} {vals : List (Val ObjId)}
    (kinds : vals.map Val.kind = c.type.results) (sigs : ∀ sig, c.sig = some sig → sig.funcType = c.type)
    (f : Fault) : (m.returnCall c vals).control ≠ .complete (.panicked f) := by
  unfold Machine.returnCall
  cases typed : c.sig with
  | none => exact fun same => nomatch same
  | some sig =>
      have results : vals.map Val.kind = sig.results.kinds := by
        rw [kinds, ← sigs sig typed]
        rfl
      obtain ⟨ss, decoded, -⟩ := sig.results.decode_ok results
      dsimp only
      rw [decoded]
      exact fun same => nomatch same

/-- A call that was left ends in a panic only if it has taken it. -/
theorem Coherent.takes_of_panicked (coherent : m.Coherent) {r : EngineResult} {f : Fault}
    (engine : m.control = .engine r) (panicked : m.step.control = .complete (.panicked f)) :
    ∃ c below, m.Takes c below f := by
  obtain ⟨c, below, slots, slot, returning⟩ := coherent.returning engine
  have opened := returning.own_slot
  rw [returning.step_eq coherent] at panicked
  cases returning.returned with
  | values vals kinds refs =>
      rw [resumed_values kinds] at panicked
      exact absurd panicked (returnCall_panicked _ kinds returning.fits.sig f)
  | trap t => cases panicked
  | panic f' =>
      cases panicked
      exact ⟨c, below, ⟨_, engine⟩, returning.stack, opened⟩

/-! ## Panics unwind a body -/

/-- Inside a body a panic passes to the step that catches it, or else the body ends in it. -/
theorem Coherent.unwinds (coherent : m.Coherent) {f : Fault} {a : Activation}
    (control : m.control = .complete (.panicked f)) (context : m.context = .body a) :
    ∃ k, Unwound (fun j => Machine.step^[j] m) m.stack f k := by
  obtain ⟨k, passed⟩ := coherent.passed control rfl context rfl
  refine ⟨k, passed.passes, passed.stack, passed.caught, fun missed => ?_⟩
  obtain ⟨ends, saved, c, below, stack⟩ := passed.raised missed
  exact ⟨c, below, a, saved, _, ends, passed.context, stack, rfl⟩

/-- Outside of bodies the step that panicked is recorded and the script goes on. -/
theorem Coherent.outside (coherent : m.Coherent) {f : Fault}
    (control : m.control = .complete (.panicked f)) (outside : ∀ a, m.context ≠ .body a) :
    m.step.control = .run := by
  obtain ⟨-, -, seat⟩ := coherent.completing control
  have waits : Frame.Waits m.stack := by
    rcases seat with waits | ⟨-, done | ⟨a, body⟩⟩
    · exact waits
    · cases done
    · exact absurd body (outside a)
  obtain ⟨outer, index, g, s, rest, below, stack⟩ := Frame.waits_iff.mp waits
  have step := coherent.step_eq
  rw [control] at step
  unfold Machine.deliver at step
  rw [stack] at step
  obtain ⟨-, settled⟩ := m.settle_spec (.panicked f) outer index g s rest below
  have on : m.context.goesOn g (.panicked f) = true := by
    unfold Context.goesOn
    split
    · next a body => exact absurd body (outside a)
    · rfl
  rw [on, if_pos rfl] at settled
  rw [step]
  exact settled.2

/-! ## Calls restore the slots -/

/-- A call never ends, or it ends with the stack and the slots from before. -/
theorem Coherent.restored (coherent : m.Coherent) (calls : m.Calls) :
    (∀ k, (Machine.step^[k] m.step).Within m.stack m.context) ∨
      ∃ k, (∀ j < k, (Machine.step^[j] m.step).Within m.stack m.context) ∧
        Restored m (Machine.step^[k] m.step) := by
  obtain ⟨control, outer, index, g, s, rest, below, stack, -⟩ := calls
  obtain ⟨_, _, _, _, top, isPublic⟩ := coherent.block control
  obtain ⟨same, rfl⟩ := List.cons.inj (stack.symm.trans top)
  cases same
  have step := coherent.step_eq
  rw [control, stack] at step
  have begins : m.step = m.begin g s := step
  have begun := coherent.begun control (by rw [stack]; trivial) g (Block.isPublic_cons isPublic).1
  rw [← begins] at begun
  obtain ⟨above, stands, leaves⟩ := begun.above
  -- The block that waits for the call is no call, so what has ended is the step that called.
  have ended {m' : Machine} (coherent' : m'.Coherent) (back : Above m.stack m.context [] m')
      (leaves : m'.Leaves) : Restored m m' := by
    rcases leaves with ⟨how, complete⟩ | ⟨r, engine⟩
    · refine ⟨back.stack, ?_, ⟨how, complete⟩, back.context⟩
      have before := coherent.slots fun r impossible => nomatch control.symm.trans impossible
      have after := coherent'.slots fun r impossible => nomatch complete.symm.trans impossible
      rw [before, after, back.stack]
      rfl
    · obtain ⟨c, below', slots, slot, returning⟩ := coherent'.returning engine
      cases stack.symm.trans (back.stack.symm.trans returning.stack)
  by_cases none : above = []
  · subst none
    exact .inr ⟨0, fun j less => absurd less (Nat.not_lt_zero j), ended coherent.step stands (leaves rfl)⟩
  · rcases coherent.step.leaves ⟨above, none, stands⟩ with always | ⟨k, within, back, leaves⟩
    · exact .inl always
    · exact .inr ⟨k + 1, fun j less => within j (by omega),
        ended (coherent.step.iterate (k + 1)) back leaves⟩

/-! ## Every run -/

/-- On every run of a public script panics pass through calls as they should. -/
theorem panicTransfer_after (level : Option LogLevel) {script : Block}
    (isPublic : Block.isPublic script = true) : PanicTransfer (after level script) := by
  have coherent := coherent_after level isPublic
  constructor
  case slots =>
      intro n away
      exact (coherent n).slots away
  case closes =>
      intro n r control
      rw [after_succ]
      exact (coherent n).closes control
  case takes =>
      intro n c below f
      constructor
      · intro takes
        cases n with
        | zero => cases takes.1.choose_spec
        | succ k =>
            rw [after_succ] at takes
            exact ⟨k, rfl, (coherent k).raises_of_takes takes⟩
      · rintro ⟨k, rfl, raises⟩
        rw [after_succ]
        exact (coherent k).takes_of_raises raises
  case resumes =>
      intro n c below f takes
      rw [after_succ]
      exact (coherent n).resumes_of_takes takes
  case only =>
      intro n r f control panicked
      rw [after_succ] at panicked
      exact (coherent n).takes_of_panicked control panicked
  case unwinds =>
      intro n f a control context
      simp only [after_add]
      exact (coherent n).unwinds control context
  case outside =>
      intro n f control outside
      rw [after_succ]
      exact (coherent n).outside control outside
  case restored =>
      intro n calls
      simp only [after_add level script (n + 1), after_succ]
      exact (coherent n).restored calls
  case sentinel =>
      intro n t trapped same
      exact asksSentinel_of_trapped level isPublic trapped same

/-- A function that panics, called by a function that catches its panic. -/
def caughtPanic : Block :=
  [(⟨false, false⟩, .plain (.store (.scoped "s") none)),
    (⟨false, false⟩, .func (.scoped "f") (.scoped "s") (.generic ⟨[], []⟩) "inner" false []
      [(⟨false, false⟩, .plain (.panic (.text "boom")))]),
    (⟨false, false⟩, .func (.scoped "g") (.scoped "s") (.generic ⟨[], []⟩) "outer" false
      [.scoped "f"] [(⟨true, false⟩, .call (.scoped "f") [] [])]),
    (⟨false, false⟩, .call (.scoped "g") [] [])]

theorem caughtPanic_left : ∃ r, (after none caughtPanic 13).control = .engine r := by
  -- Only whether the engine has left the call is evaluated, not what the call returned.
  have left : (after none caughtPanic 13).control.engine?.isSome = true := by decide +kernel
  obtain ⟨r, same⟩ := Option.isSome_iff_exists.mp left
  exact ⟨r, Control.engine?_eq_some.mp same⟩

theorem caughtPanic_resumed :
    (after none caughtPanic 14).control = .complete (.panicked (.text "boom")) := by
  have shape : (match (after none caughtPanic 14).control with
      | .complete (.panicked f) => decide (f = .text "boom")
      | _ => false) = true := by decide +kernel
  generalize (after none caughtPanic 14).control = control at shape ⊢
  cases control with
  | complete c =>
      cases c with
      | panicked f => rw [of_decide_eq_true shape]
      | _ => cases shape
  | _ => cases shape

/-- The panic that the inner call resumes is the one that the inner closure has just ended in. -/
theorem panicTransfer_after_caughtPanic : Block.isPublic caughtPanic = true ∧
    ∃ c below, (after none caughtPanic 12).Raises c below (.text "boom") := by
  have isPublic : Block.isPublic caughtPanic = true := by decide
  obtain ⟨r, left⟩ := caughtPanic_left
  obtain ⟨c, below, takes⟩ :=
    (panicTransfer_after none isPublic).only 13 r _ left caughtPanic_resumed
  obtain ⟨k, same, raises⟩ := ((panicTransfer_after none isPublic).takes 13 c below _).mp takes
  obtain rfl : k = 12 := by omega
  exact ⟨isPublic, c, below, raises⟩

end Machine

end HostEmbedding
