import HostEmbedding.Proofs.Views.Passing

/-!
# Ends beside a call

What a step, a block, a body or a further call ends with is delivered to the same frame in both machines, so
one transition of each keeps them together until the engine returns to the call.
-/

namespace HostEmbedding.Machine

variable {d : Detour} {m n m₀ n₀ : Machine} {extra : List ObjId}

/-- The engine has returned to the call that stands on some frames. -/
def Back (base : List Frame) (m : Machine) : Prop :=
  (∃ r, m.control = .engine r) ∧ ∃ c, m.stack = .hostCall c :: base

/-! ## A call ends -/

namespace Paired

/-- Keeping copies of results under names. -/
theorem bindAll {names : List VarName} {ss : List (Scalar ObjId)} (paired : Paired d m₀ n₀ extra m n)
    (fits : ∀ r ∈ Scalar.refs ss, m₀.world.shapes.IsReferent r) (held : ∀ r ∈ Scalar.refs ss, r ∈ extra) :
    Paired d m₀ n₀ extra (m.bindAll names ss) (n.bindAll names ss) := by
  refine bindAll_preserves (fun m n paired s mem name => ?_) paired
  have known : Item.Fits m.world.shapes (.value s) := fun r carried =>
    (fits r (refs_value_subset mem r (by simpa [Item.refs] using carried))).mono paired.left.evolves.shapes
  exact paired.assignCopy known
    (fun r carried => paired.left.world.alive (List.mem_append_left _ (held r (refs_value_subset mem r carried))))
    (fun r carried => paired.right.world.alive (List.mem_append_left _ (held r (refs_value_subset mem r carried))))
    name

/-- A call that returned keeps its results and drops what it owned. -/
theorem returnCall {c : CallRequest} {vals : List (Val ObjId)}
    (paired : Paired d m₀ n₀ (Val.refs vals ++ c.refs) m n)
    (fits : ∀ r ∈ Val.refs vals, m₀.world.shapes.IsReferent r)
    (kinds : vals.map Val.kind = c.type.results) (sigs : ∀ sig, c.sig = some sig → sig.funcType = c.type) :
    Together d (m.returnCall c vals) (n.returnCall c vals) := by
  obtain ⟨gone, beside⟩ := paired.together.world
  unfold Machine.returnCall
  rw [beside.shownVals_eq]
  cases typed : c.sig with
  | none =>
      have same : Scalar.refs (vals.map .ofVal) = Val.refs vals := Scalar.refs_ofVals vals
      have bound : Paired d m₀ n₀ (Val.refs vals ++ c.refs) (m.bindAll c.bind (vals.map .ofVal))
          (n.bindAll c.bind (vals.map .ofVal)) :=
        paired.bindAll (fun r mem => fits r (by rwa [same] at mem)) fun r mem =>
          List.mem_append_left _ (by rwa [same] at mem)
      have dropped := bound.releaseAll
      rw [← List.append_nil c.refs] at dropped
      exact dropped.releaseAll.finish _
  | some sig =>
      have results : vals.map Val.kind = sig.results.kinds := by
        rw [kinds, ← sigs sig typed]
        rfl
      obtain ⟨ss, decoded, encoded⟩ := sig.results.decode_ok results
      have same : Scalar.refs ss = Val.refs vals := by rw [← Scalar.refs_encode, encoded]
      have regroups (id : ObjId) : (Val.refs c.args ++ (Val.refs vals ++ [c.func])).count id =
          (Val.refs vals ++ c.refs).count id := by
        simp only [CallRequest.refs, List.count_append]
        omega
      have grouped : Paired d m₀ n₀ (Val.refs c.args ++ (Val.refs vals ++ [c.func])) m n :=
        ⟨paired.left.regroup regroups, paired.right.regroup regroups, paired.together, paired.keeps⟩
      have bare := grouped.releaseAll
      obtain ⟨gone', released⟩ := bare.together.world
      have shown : (n.world.releaseAll (Val.refs c.args)).shown =
        (m.world.releaseAll (Val.refs c.args)).shown := released.shown_eq
      have bound : Paired d m₀ n₀ (Val.refs vals ++ [c.func])
          ((m.withWorld (m.world.releaseAll (Val.refs c.args))).bindAll c.bind ss)
          ((n.withWorld (n.world.releaseAll (Val.refs c.args))).bindAll c.bind ss) := bare.bindAll
        (fun r mem => fits r (by rwa [same] at mem)) fun r mem => List.mem_append_left _ (by rwa [same] at mem)
      have dropped := bound.releaseAll
      rw [← List.append_nil [c.func]] at dropped
      have done := dropped.releaseAll
      dsimp only
      rw [decoded]
      dsimp only
      rw [shown]
      exact done.finish _

/-- Whatever the outcome of a call, the step that called ends in the same way. -/
theorem resumeCall {c : CallRequest} {o : CallOutcome} (paired : Paired d m₀ n₀ (o.refs ++ c.refs) m n)
    (fits : ∀ r ∈ o.refs, m₀.world.shapes.IsReferent r)
    (kinds : ∀ vals, o = .returned vals → vals.map Val.kind = c.type.results)
    (sigs : ∀ sig, c.sig = some sig → sig.funcType = c.type) :
    Together d (m.resumeCall c o) (n.resumeCall c o) := by
  have dropped (plain : o.refs = []) : Paired d m₀ n₀ [] (m.withWorld (m.world.releaseAll c.refs))
      (n.withWorld (n.world.releaseAll c.refs)) := by
    rw [plain, List.nil_append, ← List.append_nil c.refs] at paired
    exact paired.releaseAll
  cases o with
  | returned vals => exact paired.returnCall fits (kinds vals rfl) sigs
  | trapped t => exact (dropped rfl).together.complete _
  | panicked f => exact (dropped rfl).together.complete _

end Paired

namespace Together

variable {p : View} {c₀ : CallRequest} {base : List Frame}

/-- A machine has come down to its bottom when the other one has. -/
theorem bottom (together : Together d m n) (stack : m.stack = d.bottom) : n.stack = d.bottom' := by
  obtain ⟨above, here, there⟩ := together.stack
  obtain rfl : above = [] := by simpa using here.symm.trans stack
  exact there

/-- A further call that the engine has left ends in the same way. -/
theorem endCall (together : Together (p.calling c₀ base) m n) (left : m.Coherent) (right : n.Coherent)
    {r : EngineResult} (control : m.control = .engine r) (running : m.stack ≠ (p.calling c₀ base).bottom) :
    Together (p.calling c₀ base) m.step n.step := by
  obtain ⟨gone, beside⟩ := together.world
  have control' := together.control.trans control
  obtain ⟨c, below, slots, slot, returning⟩ := left.returning control
  obtain ⟨c', below', slots', slot', returning'⟩ := right.returning control'
  rw [returning.stack] at running
  obtain ⟨rest, stack', popped⟩ := together.pop returning.stack running
  cases stack'.symm.trans returning'.stack
  have opened := (congrArg ThreadState.frames beside.thread_eq).symm.trans returning'.frames
  rw [returning.frames] at opened
  obtain ⟨rfl, rfl⟩ := List.cons.inj opened
  obtain ⟨view, owner⟩ := popped.waiting (p.keeps_calling c₀ base)
  have kept {x : ObjId} {m : Machine} {c : HostCall} {below : List Frame} {slots : List (Option Fault)}
      (mem : x ∈ below.flatMap Frame.refs) :
      x ∈ m.control.refs ++ c.request.refs ++ (m.closed c below slots).owns := by
    unfold owns closed
    simp [mem]
  obtain ⟨gone', world⟩ := (beside.modifyThread fun t => { t with frames := slots }).releaseAll (Slot.refs c.raw)
    (returning.sound left) (returning'.sound right) (kept view) (kept owner)
  have closed : Together (p.calling c₀ base) (m.closed c below slots) (n.closed c below' slots) :=
    popped.withWorld world
  have busy := returning'.busy right
  rw [show n.control.refs = m.control.refs by rw [together.control]] at busy
  have paired : Paired (p.calling c₀ base) _ _ _ _ _ := ⟨returning.busy left, busy, closed, p.keeps_calling c₀ base⟩
  have grows := returning.evolves.shapes
  have sigs := returning.fits.sig
  rw [control] at paired
  rw [returning.step_eq left, returning'.step_eq right]
  cases returning.returned with
  | values vals kinds refs =>
      have carried : Control.refs (.engine (.ok (vals.map Slot.ofVal))) = Val.refs vals :=
        Slot.refs_ofVals vals
      rw [carried] at paired
      rw [resumed_values kinds]
      exact paired.resumeCall (o := .returned vals) (fun x mem => (refs x mem).mono grows)
        (fun xs same => by cases same; exact kinds) sigs
  | trap t =>
      exact paired.resumeCall (o := .trapped (.ofNative t)) (fun x mem => absurd mem List.not_mem_nil)
        (fun xs same => nomatch same) sigs
  | panic f =>
      exact paired.resumeCall (o := .panicked f) (fun x mem => absurd mem List.not_mem_nil)
        (fun xs same => nomatch same) sigs

/-! ## Deliveries -/

/-- What a step, a block, a branch, a round or a body ended with is delivered. -/
theorem deliver (together : Together (p.calling c₀ base) m n) (left : m.Coherent) (right : n.Coherent)
    {c : Completion} (control : m.control = .complete c) : Together (p.calling c₀ base) m.step n.step := by
  obtain ⟨gone, beside⟩ := together.world
  have control' := together.control.trans control
  obtain ⟨stacked, fits, seat⟩ := left.completing control
  obtain ⟨stacked', fits', -⟩ := right.completing control'
  have here : m.step = m.deliver c := by rw [left.step_eq, control]
  have there : n.step = n.deliver c := by rw [right.step_eq, control']
  have pop {f : Frame} {below : List Frame} (stack : m.stack = f :: below) (other : ∀ x, f ≠ .hostCall x) :=
    together.pop stack fun same => other _ (List.cons.inj same).1
  generalize stack : m.stack = st at stacked seat
  cases st with
  | nil =>
      obtain ⟨above, bottom, -⟩ := together.stack
      rw [stack] at bottom
      simp [View.calling] at bottom
  | cons f below =>
      cases f with
      | block outer index steps =>
          obtain ⟨below', stack', popped⟩ := pop stack fun x same => by cases same
          rw [stack'] at stacked'
          rw [here, there]
          unfold Machine.deliver
          rw [stack, stack']
          cases steps with
          | nil => exact popped
          | cons first rest =>
              exact together.settle left right popped ⟨control, stack, stacked, fits⟩
                ⟨control', stack', stacked', fits'⟩
      | branch taken =>
          obtain ⟨below', stack', popped⟩ := pop stack fun x same => by cases same
          rw [here, there]
          unfold Machine.deliver
          rw [stack, stack']
          exact popped.complete _
      | loop rounds body =>
          obtain ⟨below', stack', popped⟩ := pop stack fun x same => by cases same
          rw [here, there]
          unfold Machine.deliver
          rw [stack, stack']
          dsimp only
          split
          · exact popped.loop rounds body
          · exact popped
      | activation saved => exact together.leave left right control stack
      | thread saved state =>
          obtain ⟨below', stack', popped⟩ := pop stack fun x same => by cases same
          have world := beside.blind (F := fun w => { w with thread := state }) fun _ _ => rfl
          rw [here, there]
          unfold Machine.deliver
          rw [stack, stack']
          exact popped.push ⟨gone, world⟩ [] rfl _
      | hostCall x => simp [Frame.Waits, Frame.Seats] at seat
      | finalizer | nativeCall | callback =>
          generalize m.context = ctx at stacked
          cases stacked

/-! ## Every transition -/

/-- Until the engine returns to the call, one transition of each machine keeps them together. -/
theorem step (together : Together (p.calling c₀ base) m n) (left : m.Coherent) (right : n.Coherent)
    (running : ¬ n.Back base) : Together (p.calling c₀ base) m.step n.step := by
  cases control : m.control with
  | run =>
      have control' := together.control.trans control
      obtain ⟨outer, index, steps, below, stack, isPublic⟩ := left.block control
      obtain ⟨below', stack', popped⟩ := together.pop stack nofun
      cases steps with
      | nil =>
          have here : m.step = { m with stack := below }.finish .ok := by rw [left.step_eq, control, stack]
          have there : n.step = { n with stack := below' }.finish .ok := by rw [right.step_eq, control', stack']
          rw [here, there]
          exact popped.finish .ok
      | cons first rest =>
          obtain ⟨g, s⟩ := first
          have here : m.step = m.begin g s := by rw [left.step_eq, control, stack]
          have there : n.step = n.begin g s := by rw [right.step_eq, control', stack']
          have paired : Paired (p.calling c₀ base) m n [] m n :=
            ⟨left.busy (by rw [control]; rfl), right.busy (by rw [control']; rfl), together,
              p.keeps_calling c₀ base⟩
          rw [here, there]
          exact paired.begin g (Block.isPublic_cons isPublic).1
  | complete c => exact together.deliver left right control
  | enter id args slots => exact together.enter left right control
  | engine r =>
      exact together.endCall left right control fun stack =>
        running ⟨⟨r, together.control.trans control⟩, _, together.bottom stack⟩
  | halted ending =>
      have here : m.step = m := by rw [left.step_eq, control]
      have there : n.step = n := by rw [right.step_eq, together.control.trans control]
      rw [here, there]
      exact together

/-- Until the engine returns to the call, the machines stay together. -/
theorem iterate (together : Together (p.calling c₀ base) m n) (left : m.Coherent) (right : n.Coherent) {k : Nat}
    (running : ∀ j < k, ¬ (Machine.step^[j] n).Back base) :
    Together (p.calling c₀ base) (Machine.step^[k] m) (Machine.step^[k] n) := by
  induction k with
  | zero => exact together
  | succ k ih =>
      rw [Function.iterate_succ_apply', Function.iterate_succ_apply']
      exact (ih fun j less => running j (Nat.lt_succ_of_lt less)).step (left.iterate k) (right.iterate k)
        (running k (Nat.lt_succ_self k))

end Together

end HostEmbedding.Machine
