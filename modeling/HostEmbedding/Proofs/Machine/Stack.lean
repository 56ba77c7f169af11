import HostEmbedding.Proofs.Machine.Running

/-!
# The stack along a run

A transition works on the frame on top. What lies below stays, with the context that it belongs to,
until the frames above it are gone; so the frames of a stack are left in order, and each is left once.
-/

namespace HostEmbedding

/-! ## The slots of a stack -/

def Frame.slots : List Frame → List (Option Fault)
  | [] => []
  | .hostCall _ :: below => none :: slots below
  | .thread .. :: _ => []
  | _ :: below => slots below

theorem Stacked.slots_eq {Γ : Shapes} {ctx : Context} {stack : List Frame}
    {slots : List (Option Fault)} (stacked : Stacked Γ ctx stack slots) :
    slots = Frame.slots stack := by
  induction stacked with
  | top => rfl
  | block _ _ _ ih => exact ih
  | branch _ _ ih => exact ih
  | loop _ _ _ ih => exact ih
  | hostCall _ _ _ ih => exact congrArg (none :: ·) ih
  | activation _ _ _ ih => exact ih
  | thread => rfl

/-- Whether the block of a step goes on once the step has ended: only a block of a body ends with what
its step raised, unless the step catches it. -/
def Context.goesOn (ctx : Context) (g : Guard) (c : Completion) : Bool :=
  match ctx with
  | .body _ => c.isDone || (g.catches && c.isRaised)
  | _ => true

namespace Machine

variable {m : Machine}

/-- Unless the engine has just left a call, the slots of the thread are those of the stack. -/
theorem Coherent.slots (coherent : m.Coherent) (away : ∀ r, m.control ≠ .engine r) :
    m.world.thread.frames = Frame.slots m.stack := by
  have placed := coherent.placed
  generalize m.stack = stack at placed ⊢
  generalize m.world.thread.frames = slots at placed ⊢
  generalize control : m.control = next at placed
  cases placed with
  | run stacked => exact stacked.slots_eq
  | complete stacked => exact stacked.slots_eq
  | enter stacked => exact stacked.slots_eq
  | engine stacked => exact absurd control (away _)
  | halted stacked => rfl

namespace Returning

variable {c : HostCall} {below : List Frame} {slots : List (Option Fault)} {slot : Option Fault}
variable {r : EngineResult}

/-- When the engine has left a call, the innermost slot is that of the call. -/
theorem own_slot (returning : m.Returning c below slots slot r) :
    m.world.thread.frames = slot :: Frame.slots below := by
  rw [returning.frames, returning.stacked.slots_eq]

/-- Once a call has ended, the block that waits for it is on top again, and so are its slots. -/
theorem restored (returning : m.Returning c below slots slot r) (coherent : m.Coherent) :
    m.step.stack = below ∧ (∃ how, m.step.control = .complete how) ∧
      ∃ s, m.step.context = m.context.withLocals s := by
  obtain ⟨busy, how, control, -⟩ := returning.ends coherent
  exact ⟨busy.stack, ⟨how, control⟩, busy.context⟩

end Returning

/-! ## Above some frames -/

/-- A machine stands on some frames, with others above them: the context that the lower frames belong
to is there, though its locals may have changed. -/
structure Above (base : List Frame) (ctx : Context) (top : List Frame) (m : Machine) : Prop where
  stack : m.stack = top ++ base
  context : ∃ s, Frame.context m.context top = ctx.withLocals s

/-- The machine has just left what it stood on. -/
def Leaves (m : Machine) : Prop := (∃ c, m.control = .complete c) ∨ ∃ r, m.control = .engine r

theorem Begun.above {m' : Machine} (begun : Begun m m') :
    ∃ top, Above m.stack m.context top m' ∧ (top = [] → m'.Leaves) := by
  cases begun with
  | ended ends =>
      obtain ⟨busy, c, control, -⟩ := ends
      exact ⟨[], ⟨busy.stack, busy.context⟩, fun _ => .inl ⟨c, control⟩⟩
  | @called c h coherent stack context control grows =>
      exact ⟨[.hostCall c], ⟨stack, context⟩, fun none => nomatch none⟩
  | @enclosed outer f body coherent stack context control grows =>
      refine ⟨[.block outer 0 body, f], ⟨stack, ?_⟩, fun none => nomatch none⟩
      show ∃ s, Frame.context m'.context [f] = m.context.withLocals s
      rw [context]
      exact m.context.withLocals_kept

/-- A step that has ended leaves the context alone; its block goes on or ends with it. -/
theorem settle_spec (m : Machine) (c : Completion) (outer : Bool) (index : Nat) (g : Guard)
    (s : Step) (rest : Block) (below : List Frame) :
    let next := m.settle c outer index g s rest below
    next.context = m.context ∧
      if m.context.goesOn g c then
        next.stack = .block outer (index + 1) rest :: below ∧ next.control = .run
      else next.stack = below ∧ next.control = .complete c := by
  unfold Machine.settle Context.goesOn
  dsimp only
  cases context : m.context with
  | top =>
      cases outer with
      | true => exact ⟨context, rfl, rfl⟩
      | false => exact ⟨context, rfl, rfl⟩
  | thread => exact ⟨context, rfl, rfl⟩
  | finalizer label => exact ⟨context, rfl, rfl⟩
  | body act =>
      dsimp only
      cases act.code.quiet <;> split
      all_goals exact ⟨context, rfl, rfl⟩

/-- What a completion does to the frame on top: a block above the rest goes on, or the frame goes away
and what waits below is told, or the body of a call is left. -/
inductive Delivery (m : Machine) (c : Completion) (f : Frame) (rest : List Frame) : Prop where
  | goesOn {top : List Frame} (some : top ≠ [])
      (above : Above rest (Frame.context m.context [f]) top m.step) (control : m.step.control = .run)
  | passes {next : Completion} (above : Above rest (Frame.context m.context [f]) [] m.step)
      (control : m.step.control = .complete next) (same : next = c ∨ next.isDone = true)
  | leaves {a : Activation} {call : HostCall} {saved : Context} {below : List Frame}
      {slots : List (Option Fault)} (ended : m.Ended a call saved below slots c)
      (frame : f = .activation saved) (stack : rest = .hostCall call :: below)

theorem Coherent.delivery (coherent : m.Coherent) {c : Completion} (control : m.control = .complete c)
    {f : Frame} {rest : List Frame} (stack : m.stack = f :: rest) : m.Delivery c f rest := by
  have kept := Context.withLocals_kept
  obtain ⟨-, -, seat⟩ := coherent.completing control
  have step : m.step = m.deliver c := by rw [coherent.step_eq, control]
  unfold Machine.deliver at step
  rw [stack] at seat step
  cases f with
  | block outer index steps =>
      cases steps with
      | nil => rcases seat with impossible | ⟨impossible, -⟩ <;> cases impossible
      | cons first later =>
          obtain ⟨g, s⟩ := first
          obtain ⟨context, settled⟩ := m.settle_spec c outer index g s later rest
          have settle : m.step = m.settle c outer index g s later rest := step
          rw [← settle] at context settled
          have same : ∃ s, m.step.context = m.context.withLocals s := by
            rw [context]
            exact kept _
          split at settled
          · have above : Above rest m.context [.block outer (index + 1) later] m.step :=
              ⟨settled.1, same⟩
            exact .goesOn (List.cons_ne_nil _ _) above settled.2
          · exact .passes ⟨settled.1, same⟩ settled.2 (.inl rfl)
  | branch taken =>
      refine .passes ⟨by rw [step]; rfl, by rw [step]; exact kept _⟩ (by rw [step]) ?_
      split
      · exact .inr rfl
      · exact .inl rfl
  | loop left body =>
      dsimp only at step
      split at step
      · cases left with
        | zero =>
            exact .passes ⟨by rw [step]; rfl, by rw [step]; exact kept _⟩ (by rw [step]; rfl)
              (.inr rfl)
        | succ left =>
            refine .goesOn (List.cons_ne_nil (.block false 0 body) [.loop left body]) ⟨?_, ?_⟩ ?_
            · rw [step]
              rfl
            · rw [step]
              exact kept _
            · rw [step]
              rfl
      · exact .passes ⟨by rw [step]; rfl, by rw [step]; exact kept _⟩ (by rw [step]; exact control)
          (.inl rfl)
  | activation saved =>
      obtain ⟨a, call, below, slots, ended⟩ := coherent.ended control stack
      exact .leaves ended rfl (List.cons.inj (stack.symm.trans ended.stack)).2
  | thread saved state =>
      exact .passes ⟨by rw [step]; rfl, by rw [step]; exact kept _⟩ (by rw [step]; rfl) (.inr rfl)
  | _ => rcases seat with impossible | ⟨impossible, -⟩ <;> cases impossible

/-- A transition leaves the frames below the one on top alone; once that one is gone too, what it stood
for has ended. -/
theorem Coherent.step_above (coherent : m.Coherent) {f : Frame} {rest : List Frame}
    (stack : m.stack = f :: rest) :
    ∃ top, Above rest (Frame.context m.context [f]) top m.step ∧ (top = [] → m.step.Leaves) := by
  have kept := Context.withLocals_kept
  cases control : m.control with
  | run =>
      obtain ⟨outer, index, steps, below, same, isPublic⟩ := coherent.block control
      obtain ⟨rfl, rfl⟩ := List.cons.inj (stack.symm.trans same)
      rw [coherent.step_eq, control, stack]
      cases steps with
      | nil =>
          exact ⟨[], ⟨rfl, kept m.context⟩, fun _ => .inl ⟨_, rfl⟩⟩
      | cons first later =>
          obtain ⟨g, s⟩ := first
          obtain ⟨top, above, -⟩ := (coherent.begun control (by rw [stack]; trivial) g
            (Block.isPublic_cons isPublic).1).above
          rw [stack] at above
          refine ⟨top ++ [.block outer index ((g, s) :: later)], ⟨?_, ?_⟩, fun none => ?_⟩
          · rw [above.stack, List.append_assoc]
            rfl
          · rw [Frame.context_append]
            obtain ⟨s, context⟩ := above.context
            rw [context]
            exact Frame.context_withLocals m.context s _
          · cases top <;> cases none
  | complete c =>
      cases coherent.delivery control stack with
      | goesOn some above running => exact ⟨_, above, fun none => absurd none some⟩
      | passes above next same => exact ⟨[], above, fun _ => .inl ⟨_, next⟩⟩
      | leaves ended frame below =>
          rw [(ended.leave coherent).1, frame, below]
          exact ⟨[], ⟨rfl, kept _⟩, fun _ => .inr ⟨_, rfl⟩⟩
  | enter n args slots =>
      obtain ⟨c, h, callee, s, entering⟩ := coherent.entering control
      obtain ⟨below, same⟩ := entering.stack
      obtain ⟨rfl, rfl⟩ := List.cons.inj (stack.symm.trans same)
      rw [entering.step_eq coherent.world.aborted]
      split_ifs
      · exact ⟨[.hostCall c], ⟨stack, kept _⟩, fun none => nomatch none⟩
      · exact ⟨[.hostCall c], ⟨stack, kept _⟩, fun none => nomatch none⟩
      · refine ⟨[.block true 0 callee.code.body, .activation m.context, .hostCall c],
          ⟨congrArg (fun below => _ :: _ :: below) stack, kept m.context⟩, fun none => nomatch none⟩
  | engine r =>
      obtain ⟨c, below, slots, slot, returning⟩ := coherent.returning control
      obtain ⟨rfl, rfl⟩ := List.cons.inj (stack.symm.trans returning.stack)
      obtain ⟨restored, ends, context⟩ := returning.restored coherent
      exact ⟨[], ⟨restored, context⟩, fun _ => .inl ends⟩
  | halted ending =>
      have placed := coherent.placed
      rw [control, stack] at placed
      generalize m.world.thread.frames = frames at placed
      cases placed

/-! ## The engine leaves a call -/

theorem Begun.away {m' : Machine} (begun : Begun m m') (r : EngineResult) : m'.control ≠ .engine r := by
  intro engine
  cases begun with
  | ended ends =>
      obtain ⟨-, c, completes, -⟩ := ends
      cases completes.symm.trans engine
  | called coherent stack context enters => cases enters.symm.trans engine
  | enclosed coherent stack context runs => cases runs.symm.trans engine

/-- The engine leaves a call when its store has a reason to refuse it, or when its body has ended. -/
theorem Coherent.leaving (coherent : m.Coherent) {r : EngineResult} (engine : m.step.control = .engine r) :
    (∃ c h callee s code, m.Entering c h callee s ∧ s.reason? = some code) ∨
      ∃ a c saved below slots how, m.Ended a c saved below slots how := by
  cases control : m.control with
  | run =>
      obtain ⟨outer, index, steps, below, stack, isPublic⟩ := coherent.block control
      have step := coherent.step_eq
      rw [control, stack] at step
      rw [step] at engine
      cases steps with
      | nil => cases engine
      | cons first later =>
          have begun := coherent.begun control (by rw [stack]; trivial) first.1
            (Block.isPublic_cons isPublic).1
          exact absurd engine (begun.away r)
  | complete c =>
      cases stack : m.stack with
      | nil =>
          have step := coherent.step_eq
          rw [control] at step
          unfold Machine.deliver at step
          rw [stack] at step
          rw [step] at engine
          cases engine
      | cons f rest =>
          cases coherent.delivery control stack with
          | goesOn some above runs => cases runs.symm.trans engine
          | passes above next same => cases next.symm.trans engine
          | leaves ended frame below => exact .inr ⟨_, _, _, _, _, _, ended⟩
  | enter n args slots =>
      obtain ⟨c, h, callee, s, entering⟩ := coherent.entering control
      have step := entering.step_eq coherent.world.aborted
      cases reason : s.reason? with
      | some code => exact .inl ⟨c, h, callee, s, code, entering, reason⟩
      | none =>
          unfold NativeStore.reason? at reason
          rw [step] at engine
          split_ifs at reason engine
          cases engine
  | engine r' =>
      obtain ⟨c, below, slots, slot, returning⟩ := coherent.returning control
      obtain ⟨-, ⟨how, ends⟩, -⟩ := returning.restored coherent
      cases ends.symm.trans engine
  | halted ending =>
      rw [coherent.step_eq, control] at engine
      cases control.symm.trans engine

/-- A call that its store has refused has an empty slot. -/
theorem Coherent.left (coherent : m.Coherent) {r : EngineResult} (engine : m.step.control = .engine r) :
    (∃ c below slots code, m.step.Returning c below slots none (.error (.ofCode code))) ∨
      ∃ a c saved below slots how, m.Ended a c saved below slots how := by
  refine (coherent.leaving engine).imp_left fun ⟨c, h, callee, s, code, entering, reason⟩ => ?_
  obtain ⟨below, slots, -, returning, -⟩ := entering.refusedFor coherent reason
  exact ⟨c, below, slots, code, returning⟩

/-! ## Runs -/

def Within (base : List Frame) (ctx : Context) (m : Machine) : Prop :=
  ∃ top, top ≠ [] ∧ Above base ctx top m

variable {base : List Frame} {ctx : Context}

/-- A transition above some frames stays above them or takes the last frame above them away. -/
theorem Coherent.step_within (coherent : m.Coherent) (within : m.Within base ctx) :
    m.step.Within base ctx ∨ Above base ctx [] m.step ∧ m.step.Leaves := by
  obtain ⟨top, some, above⟩ := within
  obtain ⟨f, others, rfl⟩ := List.exists_cons_of_ne_nil some
  obtain ⟨new, moved, leaves⟩ := coherent.step_above above.stack
  have next : Above base ctx (new ++ others) m.step := by
    obtain ⟨s, context⟩ := above.context
    obtain ⟨t, changed⟩ := moved.context
    refine ⟨moved.stack.trans (List.append_assoc new others base).symm, ?_⟩
    obtain ⟨u, lower⟩ := Frame.context_withLocals (Frame.context m.context [f]) t others
    have whole : Frame.context m.context (f :: others) =
        Frame.context (Frame.context m.context [f]) others :=
      Frame.context_append m.context [f] others
    rw [Frame.context_append, changed, lower, ← whole, context]
    exact ⟨u, Context.withLocals_withLocals ctx s u⟩
  by_cases none : new ++ others = []
  · obtain ⟨rfl, rfl⟩ := List.append_eq_nil_iff.mp none
    exact .inr ⟨next, leaves rfl⟩
  · exact .inl ⟨_, none, next⟩

theorem Coherent.iterate (coherent : m.Coherent) (n : Nat) : (Machine.step^[n] m).Coherent := by
  induction n with
  | zero => exact coherent
  | succ n ih =>
      rw [Function.iterate_succ_apply']
      exact ih.step

theorem Coherent.grows_iterate (coherent : m.Coherent) (k : Nat) :
    m.world.shapes.Grows (Machine.step^[k] m).world.shapes := by
  induction k with
  | zero => exact .refl _
  | succ k ih =>
      rw [Function.iterate_succ_apply']
      exact ih.trans (coherent.iterate k).grows

/-- A machine that stands above some frames does so for ever, or until it leaves the last frame above
them for the first time. -/
theorem Coherent.leaves (coherent : m.Coherent) (within : m.Within base ctx) :
    (∀ n, (Machine.step^[n] m).Within base ctx) ∨
      ∃ n, (∀ k ≤ n, (Machine.step^[k] m).Within base ctx) ∧ Above base ctx [] (Machine.step^[n + 1] m) ∧
        (Machine.step^[n + 1] m).Leaves := by
  classical
  by_cases always : ∀ n, (Machine.step^[n] m).Within base ctx
  · exact .inl always
  · have outside : ∃ n, ¬ (Machine.step^[n] m).Within base ctx := not_forall.mp always
    obtain ⟨n, last⟩ : ∃ n, Nat.find outside = n + 1 := by
      refine Nat.exists_eq_succ_of_ne_zero fun zero => Nat.find_spec outside ?_
      rw [zero]
      exact within
    have before : ∀ k ≤ n, (Machine.step^[k] m).Within base ctx := fun k le =>
      not_not.mp (Nat.find_min outside (by omega))
    have gone := Nat.find_spec outside
    rw [last, Function.iterate_succ_apply'] at gone
    refine .inr ⟨n, before, ?_⟩
    rw [Function.iterate_succ_apply']
    exact ((coherent.iterate n).step_within (before n (Nat.le_refl n))).resolve_left gone

/-- A call that enters the engine waits for ever, or the engine leaves it for the first time. -/
theorem Coherent.returns (coherent : m.Coherent) {n : NativeId} {args : List (Slot ObjId)}
    {slots : SlotArray} (control : m.control = .enter n args slots) {c : HostCall} {below : List Frame}
    (stack : m.stack = .hostCall c :: below) :
    (∀ k, ∃ above, (Machine.step^[k] m).stack = above ++ .hostCall c :: below) ∨
      ∃ k r, (∀ j ≤ k, ∃ above, (Machine.step^[j] m).stack = above ++ .hostCall c :: below) ∧
        (Machine.step^[k] m).control = .engine r ∧
        (Machine.step^[k] m).stack = .hostCall c :: below ∧
        ∃ s, (Machine.step^[k] m).context = m.context.withLocals s := by
  have here : ∃ above, m.stack = above ++ .hostCall c :: below := ⟨[], stack⟩
  obtain ⟨call, h, callee, s, entering⟩ := coherent.entering control
  have step := entering.step_eq coherent.world.aborted
  -- A call that is refused has not moved.
  have refused {r : EngineResult} (left : m.step.control = .engine r)
      (same : m.step.stack = .hostCall c :: below) (context : m.step.context = m.context) :
      ∃ k r, (∀ j ≤ k, ∃ above, (Machine.step^[j] m).stack = above ++ .hostCall c :: below) ∧
        (Machine.step^[k] m).control = .engine r ∧
        (Machine.step^[k] m).stack = .hostCall c :: below ∧
        ∃ s, (Machine.step^[k] m).context = m.context.withLocals s := by
    refine ⟨1, r, fun j le => ?_, left, same, m.context.locals, ?_⟩
    · match j, le with
      | 0, _ => exact here
      | 1, _ => exact ⟨[], same⟩
    · exact context.trans m.context.withLocals_locals.symm
  split_ifs at step
  · exact .inr (refused (by rw [step]; rfl) (by rw [step]; exact stack) (by rw [step]; rfl))
  · exact .inr (refused (by rw [step]; rfl) (by rw [step]; exact stack) (by rw [step]; rfl))
  · have within : m.step.Within (.hostCall c :: below) m.context := by
      refine ⟨[.block true 0 callee.code.body, .activation m.context], List.cons_ne_nil _ _, ?_, ?_⟩
      · rw [step]
        exact congrArg (fun rest => _ :: _ :: rest) stack
      · exact m.context.withLocals_kept
    rcases coherent.step.leaves within with always | ⟨k, before, above, leaves⟩
    · refine .inl fun k => ?_
      cases k with
      | zero => exact here
      | succ k =>
          obtain ⟨top, -, stands⟩ := always k
          exact ⟨top, stands.stack⟩
    · rcases leaves with ⟨how, complete⟩ | ⟨r, engine⟩
      · -- A completion is never delivered to a call.
        obtain ⟨-, -, seat⟩ := (coherent.step.iterate (k + 1)).completing complete
        rw [above.stack] at seat
        rcases seat with impossible | ⟨impossible, -⟩ <;> cases impossible
      · refine .inr ⟨k + 2, r, fun j le => ?_, engine, above.stack, above.context⟩
        cases j with
        | zero => exact here
        | succ j =>
            by_cases last : j = k + 1
            · subst last
              exact ⟨[], above.stack⟩
            · obtain ⟨top, -, stands⟩ := before j (by omega)
              exact ⟨top, stands.stack⟩

end Machine

end HostEmbedding
