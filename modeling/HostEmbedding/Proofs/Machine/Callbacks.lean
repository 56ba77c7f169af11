import HostEmbedding.Proofs.CallDepth

/-!
# Ends of callbacks

A host body and a native callback that calls on keep a frame on the stack from the transition that enters
them to the one that ends them. What ends them is told by the frame: the completion of the body, or the
answer to the call that the callback made. The next transition answers the call they were entered for.
-/

namespace HostEmbedding

/-- What a native callback returns once the call that it made has been answered. -/
def CallbackRun.returns (c : CallbackRun) : EngineResult → EngineResult
  | .error t => .error t
  | .ok _ => Machine.replyOf c

namespace Machine

variable {m : Machine} {below : List Frame}

structure BodyEnds (m : Machine) (a : Activation) (saved : Context) (below : List Frame)
    (how : Completion) : Prop where
  alive : m.world.aborted = none
  control : m.control = .complete how
  context : m.context = .body a
  stack : m.stack = .activation saved :: below

/-- The call that a native callback made has been answered, and with the next transition the callback
leaves the engine. -/
structure CallbackEnds (m : Machine) (c : CallbackRun) (below : List Frame) (r : EngineResult) : Prop where
  alive : m.world.aborted = none
  control : m.control = .engine r
  stack : m.stack = .callback c :: below

/-! ## One transition -/

theorem BodyEnds.step_eq {a : Activation} {saved : Context} {how : Completion}
    (ends : m.BodyEnds a saved below how) : m.step = { m with
      world := (m.world.leaveHost a how).2
      context := saved
      stack := below
      control := .engine (m.world.leaveHost a how).1 } := by
  rw [step_complete ends.alive ends.control, deliver_activation ends.stack ends.context]
  rfl

theorem CallbackEnds.step {c : CallbackRun} {r : EngineResult} (ends : m.CallbackEnds c below r) :
    m.step.control = .engine (c.returns r) ∧ m.step.stack = below ∧ m.step.context = m.context := by
  rw [step_engine ends.alive ends.control, deliverEngine_callback ends.stack]
  cases r <;> exact ⟨rfl, rfl, rfl⟩

theorem alive_of_gone {base : List Frame} (stands : base <:+ m.stack) (gone : ¬ base <:+ m.step.stack) :
    m.world.aborted = none := by
  by_contra aborted
  obtain ⟨op, aborted⟩ := Option.ne_none_iff_exists'.mp aborted
  rw [step_aborted aborted] at gone
  exact gone stands

/-- The frame of a host body goes away only when the body ends. -/
theorem InOrder.bodyEnds (inOrder : m.InOrder) {saved : Context}
    (stands : .activation saved :: below <:+ m.stack)
    (gone : ¬ .activation saved :: below <:+ m.step.stack) :
    ∃ a how, m.BodyEnds a saved below how := by
  have alive := alive_of_gone stands gone
  have stack := inOrder.turn.uncovers stands gone
  obtain ⟨nested, suits⟩ := inOrder
  rw [stack] at nested suits
  obtain ⟨⟨a, context⟩, -, -⟩ := nested.of_activation
  cases control : m.control with
  | complete how => exact ⟨a, how, alive, control, context, stack⟩
  | run =>
      rw [control] at suits
      obtain ⟨outer, index, steps, rest, block⟩ := suits
      cases block
  | engine r =>
      rw [control] at suits
      cases suits
  | enter n args slots =>
      rw [step_enter alive control] at gone
      exact absurd (stands.trans (suffix_enter m n args slots)) gone
  | halted ending =>
      have step : m.step = m := by
        unfold Machine.step
        rw [alive, control]
        rfl
      rw [step] at gone
      exact absurd stands gone

/-- The frame of a native callback goes away only when its call has been answered. -/
theorem InOrder.callbackEnds (inOrder : m.InOrder) {c : CallbackRun}
    (stands : .callback c :: below <:+ m.stack) (gone : ¬ .callback c :: below <:+ m.step.stack) :
    ∃ r, m.CallbackEnds c below r := by
  have on : Frame.OnCall (.callback c :: below) := rfl
  obtain ⟨stack, r, control⟩ := inOrder.returns_to on stands gone
  exact ⟨r, alive_of_gone stands gone, control, stack⟩

/-! ## Along a run -/

/-- Some frames stay on the stack for ever, or until a state comes that takes them away. -/
def Until (run : Nat → Machine) (n : Nat) (base : List Frame) (ends : Nat → Prop) : Prop :=
  (∀ k, Stays run n k base) ∨ ∃ k, Stays run n k base ∧ ends (n + k)

theorem Until.mono {run : Nat → Machine} {n : Nat} {base : List Frame} {ends later : Nat → Prop}
    (lasts : Until run n base ends) (implies : ∀ i, ends i → later i) : Until run n base later :=
  lasts.imp id fun ⟨k, stays, ended⟩ => ⟨k, stays, implies _ ended⟩

/-- Frames that are on the stack stay there until a transition takes them away. -/
theorem stays_or_goes (run : Nat → Machine) {n : Nat} {base : List Frame} (stands : base <:+ (run n).stack) :
    Until run n base fun i => ¬ base <:+ (run (i + 1)).stack := by
  by_cases always : ∀ k, base <:+ (run (n + k)).stack
  · exact .inl fun k j _ => always j
  · push Not at always
    classical
    -- The first state without the frames; it is not the one they are seen in.
    have gone := Nat.find_spec always
    have before (j : Nat) (less : j < Nat.find always) : base <:+ (run (n + j)).stack :=
      not_not.mp (Nat.find_min always less)
    obtain ⟨k, first⟩ := Nat.exists_eq_succ_of_ne_zero (n := Nat.find always) fun zero => by
      rw [zero] at gone
      exact gone stands
    rw [first] at gone before
    exact .inr ⟨k, fun j le => before j (Nat.lt_succ_of_le le), gone⟩

section

variable {run : Nat → Machine} (steps : ∀ n, run (n + 1) = (run n).step)
variable (inOrder : ∀ n, (run n).InOrder)

include steps inOrder

/-- A host body that has started runs until it ends; by then only its locals have changed. -/
theorem body_until {n : Nat} {a : Activation} {saved : Context} {body : Block}
    (context : (run n).context = .body a)
    (stack : (run n).stack = .block true 0 body :: .activation saved :: below) :
    Until run n (.activation saved :: below) fun i =>
      ∃ locals how, (run i).BodyEnds { a with locals := locals } saved below how := by
  have stands : .activation saved :: below <:+ (run n).stack := stack ▸ List.suffix_cons _ _
  rcases stays_or_goes run stands with always | ⟨k, stays, gone⟩
  · exact .inl always
  rw [steps] at gone
  obtain ⟨b, how, ends⟩ := (inOrder (n + k)).bodyEnds (stays k (Nat.le_refl k)) gone
  have started : (run n).stack = [.block true 0 body] ++ .activation saved :: below := stack
  obtain ⟨above, placed, t, kept⟩ := stays.above steps inOrder started
  obtain rfl : above = [] := List.append_left_eq_self.mp (placed.symm.trans ends.stack)
  have same : Context.body b = (Context.body a).withLocals t := by
    rw [← ends.context, ← context]
    exact kept
  obtain rfl : b = { a with locals := t } := Context.body.inj same
  exact .inr ⟨k, stays, t, how, ends⟩

/-- A native callback that calls on runs until its call has been answered. -/
theorem callback_until {n : Nat} {c : CallbackRun} (stack : (run n).stack = .callback c :: below) :
    Until run n (.callback c :: below) fun i => ∃ r, (run i).CallbackEnds c below r := by
  have stands : .callback c :: below <:+ (run n).stack := stack ▸ List.suffix_rfl
  rcases stays_or_goes run stands with always | ⟨k, stays, gone⟩
  · exact .inl always
  rw [steps] at gone
  exact .inr ⟨k, stays, (inOrder (n + k)).callbackEnds (stays k (Nat.le_refl k)) gone⟩

end

end Machine

end HostEmbedding
