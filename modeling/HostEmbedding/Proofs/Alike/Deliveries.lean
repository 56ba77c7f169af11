import HostEmbedding.Proofs.Alike.Transitions

/-!
# Ends in two runs

What a step, a block, a body or a call ends with is delivered to the same frame in both machines.
-/

namespace HostEmbedding

variable {δ : Variation}

namespace Step.Ends

variable {s : Step} {c c' : Completion}

theorem refs (ends : s.Ends δ c c') : c'.refs = c.refs := by
  cases ends <;> rfl

theorem isDone (ends : s.Ends δ c c') : c'.isDone = c.isDone := by
  cases ends <;> rfl

theorem isRaised (ends : s.Ends δ c c') : c'.isRaised = c.isRaised := by
  cases ends <;> rfl

/-- What is recorded of a step. -/
theorem answers (ends : s.Ends δ c c') {w v : World} (alike : w.Alike δ v) :
    s.Answers δ (c.answer w) (c'.answer v) := by
  cases ends with
  | reports among reports => exact .inr ⟨among, reports⟩
  | same c =>
      refine .inl ?_
      cases c with
      | gaveBack ss => exact congrArg (fun f => Answer.returned (ss.map f)) (funext alike.shown)
      | _ => rfl

end Step.Ends

namespace Machine

variable {m n : Machine} {s s' : Step}

/-! ## Bodies and calls -/

/-- A body that ends leaves the engine with the same result. -/
theorem Near.leave (near : Near δ m n) (left : m.Coherent) (right : n.Coherent) {how : Completion}
    {saved : Context} {rest : List Frame} (control : m.control = .complete how)
    (control' : n.control = .complete how) (stack : m.stack = .activation saved :: rest)
    (together : ¬ Apart m n) : Stage δ m.step n.step := by
  obtain ⟨a, c, below, slots, ended⟩ := left.ended control stack
  have frames := near.stack
  have contexts := near.context
  rw [ended.stack] at frames
  rw [ended.context] at contexts
  generalize stack' : n.stack = top at frames
  generalize context' : n.context = ctx at contexts
  cases contexts with
  | @body _ code like =>
      cases frames with
      | cons frame frames =>
          cases frame with
          | activation saves =>
              cases frames with
              | cons frame frames =>
                  cases frame with
                  | hostCall =>
                      obtain ⟨a', c', below', slots', ended'⟩ := right.ended control' stack'
                      cases context'.symm.trans ended'.context
                      cases stack'.symm.trans ended'.stack
                      have same : ∀ t, how = .trapped t → code.shape.fallible = a.code.shape.fallible := by
                        rintro t rfl
                        by_contra other
                        exact together (.trap control stack ended.context context' other)
                      obtain ⟨result, world⟩ := near.world.leaveHost (ended.sound left) (ended'.sound right)
                        ended.frames ended'.frames ended.count
                      have there := ended'.step_eq right
                      rw [World.leaveHost_code _ _ same, result] at there
                      rw [ended.step_eq left, there]
                      exact .returns ⟨world, near.globals, saves, .cons (.hostCall _) frames, near.answers⟩ _
                        rfl rfl

/-- A call that the engine has left ends in the same way. -/
theorem Near.return (near : Near δ m n) (left : m.Coherent) (right : n.Coherent) {r : EngineResult}
    (control : m.control = .engine r) (control' : n.control = .engine r) : Finished δ m.step n.step := by
  obtain ⟨c, below, slots, slot, returning⟩ := left.returning control
  obtain ⟨c', below', slots', slot', returning'⟩ := right.returning control'
  have frames := near.stack
  rw [returning.stack, returning'.stack] at frames
  cases frames with
  | cons frame frames =>
      cases frame with
      | hostCall =>
          have opened := near.world.frames
          rw [returning.frames, returning'.frames] at opened
          obtain ⟨rfl, rfl⟩ := List.cons.inj opened
          have idle : n.control.refs = m.control.refs := by rw [control, control']
          have busy := returning'.busy right
          rw [idle] at busy
          have closed := (near.world.modifyThread (f := fun t => { t with frames := slots' })
            fun _ _ _ => rfl).releaseAll (Slot.refs c.raw) (returning.sound left) (returning'.sound right)
          have abreast : Abreast δ (m.closed c below slots') (n.closed c below' slots')
              (m.control.refs ++ c.request.refs) (m.closed c below slots') (n.closed c below' slots') :=
            ⟨returning.busy left, busy, closed, near.globals, near.context, frames, near.answers⟩
          have grows := returning.evolves.shapes
          have sigs := returning.fits.sig
          rw [control] at abreast
          rw [returning.step_eq left, returning'.step_eq right]
          cases returning.returned with
          | values vals kinds refs =>
              have carried : Control.refs (.engine (.ok (vals.map Slot.ofVal))) = Val.refs vals :=
                Slot.refs_ofVals vals
              rw [carried] at abreast
              rw [resumed_values kinds]
              exact abreast.resumeCall (o := .returned vals) (fun x mem => (refs x mem).mono grows)
                (fun x mem => closed.isReferent ((refs x mem).mono grows))
                (fun xs same => by cases same; exact kinds) sigs
          | trap t =>
              exact abreast.resumeCall (o := .trapped (.ofNative t))
                (fun x mem => absurd mem List.not_mem_nil) (fun x mem => absurd mem List.not_mem_nil)
                (fun xs same => nomatch same) sigs
          | panic f =>
              exact abreast.resumeCall (o := .panicked f)
                (fun x mem => absurd mem List.not_mem_nil) (fun x mem => absurd mem List.not_mem_nil)
                (fun xs same => nomatch same) sigs

/-! ## Steps of a block -/

/-- A block goes on in both machines. -/
theorem Near.next {outer : Bool} {i j : Nat} {rest rest' : Block} {below below' : List Frame}
    (near : Near δ { m with stack := below } { n with stack := below' }) (steps : Block.Like δ rest rest')
    (silent : Silent δ outer m) :
    Behind δ (m.next outer i rest below) (n.next outer j rest' below') outer rest rest' below below' :=
  ⟨⟨i + 1, rfl⟩, ⟨j + 1, rfl⟩, steps,
    ⟨near.world, near.globals, near.context, near.stack, near.answers⟩, rfl, rfl, silent⟩

/-- The running step of a block has ended. -/
theorem Near.settle {outer : Bool} {i j : Nat} {g : Guard} {rest rest' : Block}
    {below below' : List Frame} {c c' : Completion}
    (near : Near δ { m with stack := below } { n with stack := below' }) (left : m.Coherent)
    (right : n.Coherent) (settling : m.Settling c outer i g s rest below)
    (settling' : n.Settling c' outer j g s' rest' below') (first : Step.Like δ s s')
    (steps : Block.Like δ rest rest') (ends : s.Ends δ c c') :
    Leads δ (m.settle c outer i g s rest below) (n.settle c' outer j g s' rest' below') := by
  have contexts : m.context.Alike δ n.context := near.context
  have answers := ends.answers near.world
  have sound := settling.sound left
  have sound' := settling'.sound right
  rw [ends.refs] at sound'
  -- Outside of a body a step is noted, what it owned is dropped, and the block goes on.
  have noted (silent : ∀ w, Silent δ outer (m.withWorld w)) : Leads δ
      (m.noteAndGoOn (.stepDone "thread" i (c.answer m.world)) c outer i rest below)
      (n.noteAndGoOn (.stepDone "thread" j (c'.answer n.world)) c' outer j rest' below') := by
    have world := (near.world.emit_hidden (δ.hides_stepDone "thread" i (c.answer m.world))
      (δ.hides_stepDone "thread" j (c'.answer n.world))).releaseAll c.refs
        (sound.same (World.same_emit _ rfl)) (sound'.same (World.same_emit _ rfl))
    unfold Machine.noteAndGoOn Machine.nextDropping
    rw [ends.refs]
    exact .behind (Near.next ⟨world, near.globals, near.context, near.stack, near.answers⟩ steps (silent _))
  have loud (m : Machine) (quiet : Bool) (e : Event) :
      (if quiet then m else m.withWorld (m.world.emit e)) =
        m.withWorld (if quiet then m.world else m.world.emit e) := by
    cases quiet <;> rfl
  unfold Machine.settle
  dsimp only
  generalize here : m.context = ctx at contexts
  generalize there : n.context = ctx' at contexts
  cases contexts with
  | top =>
      cases outer with
      | false => exact noted fun _ inner => nomatch inner
      | true =>
          have world := near.world.releaseAll c.refs sound sound'
          have shown : (World.releaseAll n.world c.refs).events.reverse.filter δ.shows =
              (World.releaseAll m.world c.refs).events.reverse.filter δ.shows := by
            rw [List.filter_reverse, List.filter_reverse, world.events]
          rw [ends.refs]
          exact .behind (Near.next ⟨{ world with events := rfl }, near.globals, near.context, near.stack,
            .cons first answers shown near.answers⟩ steps fun _ _ => rfl)
  | thread => exact noted fun _ _ top => nomatch here.symm.trans top
  | @body a code like =>
      dsimp only
      rw [loud, loud, ends.isDone, ends.isRaised]
      have world := near.world.unseen (δ.hides_stepDone a.code.label i (c.answer m.world))
        (δ.hides_stepDone code.label j (c'.answer n.world)) a.code.quiet code.quiet
      split
      · exact .behind (Near.next ⟨world, near.globals, near.context, near.stack, near.answers⟩ steps
          fun _ top => nomatch here.symm.trans top)
      · next stops =>
          cases ends with
          | reports => exact absurd rfl stops
          | same c =>
              exact .stage (.ended ⟨⟨world, near.globals, near.context, near.stack, near.answers⟩, c, rfl, rfl⟩)

/-- The variables of both scripts are dropped. -/
theorem Near.halt (near : Near δ m n) (left : m.Coherent) (right : n.Coherent) {c c' : Completion}
    (control : m.control = .complete c) (control' : n.control = .complete c') (stack : m.stack = [])
    (stack' : n.stack = []) : Stage δ m.halt n.halt := by
  obtain ⟨plain, top⟩ := left.over control stack
  obtain ⟨plain', top'⟩ := right.over control' stack'
  have sound := left.halting control plain stack top
  have sound' := right.halting control' plain' stack' top'
  unfold Machine.halt
  rw [near.globals] at sound' ⊢
  have world := near.world.releaseAll m.globals.refs sound sound'
  refine .halted ⟨{ world with events := rfl }, rfl, near.context, near.stack, near.answers⟩ rfl rfl ?_
  rw [List.filter_reverse, List.filter_reverse, world.events]

/-- What a step, a block, a branch, a round or a body ended with is delivered. -/
theorem Near.deliver (near : Near δ m n) (left : m.Coherent) (right : n.Coherent) {c : Completion}
    (control : m.control = .complete c) (control' : n.control = .complete c) (together : ¬ Apart m n) :
    Leads δ m.step n.step := by
  obtain ⟨stacked, fits, -⟩ := left.completing control
  obtain ⟨stacked', fits', -⟩ := right.completing control'
  have here : m.step = m.deliver c := by rw [left.step_eq, control]
  have there : n.step = n.deliver c := by rw [right.step_eq, control']
  have frames := near.stack
  have below {st st' : List Frame} (frames : List.Forall₂ (Frame.Alike δ) st st') :
      Near δ { m with stack := st } { n with stack := st' } :=
    ⟨near.world, near.globals, near.context, frames, near.answers⟩
  generalize stack : m.stack = st at frames stacked
  generalize stack' : n.stack = st' at frames stacked'
  cases frames with
  | nil =>
      rw [here, there]
      unfold Machine.deliver
      rw [stack, stack']
      exact .stage (near.halt left right control control' stack stack')
  | cons frame frames =>
      cases frame with
      | block first steps =>
          rw [here, there]
          unfold Machine.deliver
          rw [stack, stack']
          exact (below frames).settle left right ⟨control, stack, stacked, fits⟩
            ⟨control', stack', stacked', fits'⟩ first steps (.same c)
      | atEnd | hostCall =>
          rw [here, there]
          unfold Machine.deliver
          rw [stack, stack']
          exact .stage (.ended ⟨below frames, c, control, control'⟩)
      | branch taken =>
          rw [here, there]
          unfold Machine.deliver
          rw [stack, stack']
          exact .stage (.ended ((below frames).complete _))
      | loop rounds steps =>
          rw [here, there]
          unfold Machine.deliver
          rw [stack, stack']
          dsimp only
          split
          · exact (below frames).loop rounds steps
          · exact .stage (.ended ⟨below frames, c, control, control'⟩)
      | activation context => exact .stage (near.leave left right control control' stack together)
      | @thread saved saved' state state' context opened same =>
          have world : World.Alike δ { m.world with thread := state } { n.world with thread := state' } :=
            { near.world with frames := opened, thread := same }
          rw [here, there]
          unfold Machine.deliver
          rw [stack, stack']
          exact .stage (.ended ⟨⟨world, near.globals, context, frames, near.answers⟩, .done .ok, rfl, rfl⟩)

/-- What a step reports is delivered to the block that it stands in. -/
theorem Near.report (near : Near δ m n) (left : m.Coherent) (right : n.Coherent) {a a' : Answer}
    (running : m.OnTop s) (control : m.control = .complete (.done a))
    (control' : n.control = .complete (.done a')) (among : δ = .flushes) (reports : s.Reports a a') :
    Leads δ m.step n.step := by
  obtain ⟨outer, i, g, rest, below, stack⟩ := running
  obtain ⟨stacked, fits, -⟩ := left.completing control
  obtain ⟨stacked', fits', -⟩ := right.completing control'
  have frames := near.stack
  rw [stack] at frames stacked
  generalize stack' : n.stack = st' at frames stacked'
  cases frames with
  | cons frame frames =>
      cases frame with
      | block first steps =>
          have here : m.step = m.deliver (.done a) := by rw [left.step_eq, control]
          have there : n.step = n.deliver (.done a') := by rw [right.step_eq, control']
          rw [here, there]
          unfold Machine.deliver
          rw [stack, stack']
          exact Near.settle ⟨near.world, near.globals, near.context, frames, near.answers⟩ left right
            ⟨control, stack, stacked, fits⟩ ⟨control', stack', stacked', fits'⟩ first steps (.reports among reports)

/-! ## Every stage -/

/-- From every stage one transition of each machine leads on, but for generic code that has its parameters
to read. -/
theorem Stage.step (stage : Stage δ m n) (left : m.Coherent) (right : n.Coherent)
    (together : ¬ Apart m n) : ∃ k, (δ = .flushes → k = 0) ∧ Leads δ m.step (Machine.step^[k] n.step) := by
  cases stage with
  | @begins outer i j g s s' rest rest' below below' stack stack' first near control control' silent =>
      obtain ⟨_, _, _, _, top, isPublic⟩ := left.block control
      obtain ⟨_, _, _, _, top', isPublic'⟩ := right.block control'
      cases stack.symm.trans top
      cases stack'.symm.trans top'
      have here : m.step = m.begin g s := by rw [left.step_eq, control, stack]
      have there : n.step = n.begin g s' := by rw [right.step_eq, control', stack']
      refine ⟨0, fun _ => rfl, ?_⟩
      rw [Function.iterate_zero_apply, here, there]
      exact near.begin left right control control' g ⟨_, _, _, _, _, stack⟩ first
        (Block.isPublic_cons isPublic).1 (Block.isPublic_cons isPublic').1 together
  | @blockEnds outer i j below below' stack stack' near control control' =>
      have here : m.step = { m with stack := below }.finish .ok := by rw [left.step_eq, control, stack]
      have there : n.step = { n with stack := below' }.finish .ok := by rw [right.step_eq, control', stack']
      refine ⟨0, fun _ => rfl, ?_⟩
      have frames := near.stack
      rw [stack, stack'] at frames
      cases frames with
      | cons _ frames =>
          have popped : Near δ { m with stack := below } { n with stack := below' } :=
            ⟨near.world, near.globals, near.context, frames, near.answers⟩
          rw [Function.iterate_zero_apply, here, there]
          exact .stage (.ended (popped.finish .ok))
  | ended finished =>
      obtain ⟨near, c, control, control'⟩ := finished
      exact ⟨0, fun _ => rfl, near.deliver left right control control' together⟩
  | reported near running control control' among reports =>
      exact ⟨0, fun _ => rfl, near.report left right running control control' among reports⟩
  | enters near id args slots control control' =>
      rcases near.enter left right control (control'.trans control.symm) with stage | starts
      · exact ⟨0, fun _ => rfl, .stage stage⟩
      · obtain ⟨c, h, callee, code, depth, starts⟩ := starts
        exact near.start right starts
  | returns near r control control' =>
      exact ⟨0, fun _ => rfl, .stage (.ended (near.return left right control control'))⟩
  | halted near control control' shown =>
      have here : m.step = m := by rw [left.step_eq, control]
      have there : n.step = n := by rw [right.step_eq, control']
      refine ⟨0, fun _ => rfl, ?_⟩
      rw [Function.iterate_zero_apply, here, there]
      exact .stage (.halted near control control' shown)

end Machine

end HostEmbedding
