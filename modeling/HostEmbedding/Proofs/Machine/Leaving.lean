import HostEmbedding.Proofs.Call.Outcomes
import HostEmbedding.Proofs.Machine.Calling

/-!
# Calls end

A body that ends hands its outcome to the call below it, and the call hands it on to the block that
waits: values under the names they are bound to, a trap or a panic as the end of the step.
-/

namespace HostEmbedding

open World (Evolves)

/-- Why a store refuses a call: for an interrupt that is pending, or else for its depth, when that is
exhausted. -/
def NativeStore.reason? (s : NativeStore) : Option TrapCode :=
  if s.interrupt then some .interrupt
  else if s.config.maxCallDepth ≤ s.depth then some .stackOverflow
  else none

/-- What the engine has left a call with, if it has just left one. -/
def Control.engine? : Control → Option EngineResult
  | .engine r => some r
  | _ => none

theorem Control.engine?_eq_some {control : Control} {r : EngineResult} :
    control.engine? = some r ↔ control = .engine r := by
  cases control <;> simp [Control.engine?]

namespace Machine

variable {m₀ m m' : Machine} {extra : List ObjId}

/-! ## A body ends -/

theorem Returned.of_outcome {Γ : Shapes} {c : HostCall} {o : CallOutcome}
    (kinds : ∀ vals, o = .returned vals → vals.map Val.kind = c.request.type.results)
    (refs : ∀ r ∈ o.refs, Γ.IsReferent r) : Returned Γ c o.slot o.engine := by
  cases o with
  | returned vals => exact .values vals (kinds vals rfl) refs
  | trapped t => exact .trap t.toNative
  | panicked f => exact .panic f

structure Ended (m : Machine) (a : Activation) (c : HostCall) (saved : Context) (below : List Frame)
    (slots : List (Option Fault)) (how : Completion) : Prop where
  control : m.control = .complete how
  context : m.context = .body a
  stack : m.stack = .activation saved :: .hostCall c :: below
  frames : m.world.thread.frames = none :: slots
  stacked : Stacked m.world.shapes saved (.hostCall c :: below) (none :: slots)
  fits : a.Fits m.world.shapes
  runs : a.RunsFor m.world.shapes c
  how : how.Fits m.world.shapes

theorem Coherent.ended (coherent : m.Coherent) {saved : Context} {rest : List Frame}
    {how : Completion} (control : m.control = .complete how)
    (stack : m.stack = .activation saved :: rest) :
    ∃ a c below slots, m.Ended a c saved below slots how := by
  have placed := coherent.placed
  rw [control, stack] at placed
  generalize frames : m.world.thread.frames = opened at placed
  cases placed with
  | complete stacked fits seat =>
      obtain ⟨a, c, below, context, rfl, saved, bodyFits, runs⟩ := stacked.body
      obtain ⟨-, -, slots, rfl, -⟩ := saved.call
      exact ⟨a, c, below, slots, control, context, stack, frames, saved, bodyFits, runs, fits⟩

def leftBody (m : Machine) (a : Activation) (saved : Context) (rest : List Frame) (how : Completion) :
    Machine :=
  { m with
    world := (m.world.leaveHost a how).2
    context := saved
    stack := rest
    control := .engine (a.outcome how).engine }

theorem control_refs_engine (o : CallOutcome) : Control.refs (.engine o.engine) = o.refs := by
  cases o with
  | returned vals => exact Slot.refs_ofVals vals
  | trapped t => rfl
  | panicked f => rfl

namespace Ended

variable {a : Activation} {c : HostCall} {saved : Context} {below : List Frame}
variable {slots : List (Option Fault)} {how : Completion}

theorem count (ended : m.Ended a c saved below slots how) : a.slots = a.type.results.length := by
  rw [ended.runs.slots, ended.runs.type]

/-- The native store of a running body is there, and counts the body. -/
theorem active (ended : m.Ended a c saved below slots how) (coherent : m.Coherent) :
    (∃ config, m.world.shapes.native? a.native = some (.store ⟨config, false, 0⟩)) ∧
      m.world.depthOf a.native = (saved.entered ++ below.flatMap Frame.entered).count a.native + 1 := by
  constructor
  · obtain ⟨config, known⟩ := ended.fits.store
    obtain ⟨⟨k, o⟩, found, same⟩ := World.shapes_object?.mp known
    obtain ⟨-, p, rfl⟩ := Object.shape_eq_store.mp same
    obtain ⟨native, -⟩ : Object.Fits m.world.shapes a.store (.store a.native config p) :=
      coherent.world.objects found
    exact ⟨config, native⟩
  · rw [coherent.depth a.native]
    unfold Machine.entered
    rw [ended.context, ended.stack]
    simp [Context.entered, Frame.entered]

theorem step_eq (ended : m.Ended a c saved below slots how) (coherent : m.Coherent) :
    m.step = { m with
      world := (m.world.leaveHost a how).2
      context := saved
      stack := .hostCall c :: below
      control := .engine (m.world.leaveHost a how).1 } := by
  unfold Machine.step
  rw [coherent.world.aborted, ended.control]
  simp only [Option.isSome_none, Bool.false_eq_true, if_false]
  unfold Machine.deliver
  rw [ended.stack]
  dsimp only
  rw [ended.context]
  rfl

/-- What is held apart from the body and its completion. -/
theorem sound (ended : m.Ended a c saved below slots how) (coherent : m.Coherent) :
    m.world.Sound (how.refs ++ ((a.locals.refs ++ (Val.refs a.params ++ [a.closure, a.store])) ++
      (m.globals.refs ++ (saved.refs ++ (.hostCall c :: below : List Frame).flatMap Frame.refs)))) := by
  have sound := coherent.world
  unfold held owns at sound
  rw [ended.control, ended.context, ended.stack] at sound
  refine sound.regroup fun id => ?_
  have body : (Context.body a).refs = a.locals.refs ++ (Val.refs a.params ++ [a.closure, a.store]) :=
    rfl
  have completion : Control.refs (.complete how) = how.refs := rfl
  have stack : (.activation saved :: .hostCall c :: below : List Frame).flatMap Frame.refs =
      saved.refs ++ (.hostCall c :: below : List Frame).flatMap Frame.refs := rfl
  rw [body, completion, stack]
  simp only [List.count_append]
  omega

/-- The outcome of a body that has ended is given to the engine, and with it all that it owned. -/
theorem delivered (ended : m.Ended a c saved below slots how) (coherent : m.Coherent) :
    let left := m.world.leaveHost a how
    left.1 = (a.outcome how).engine ∧
      left.2.Sound ((a.outcome how).refs ++
        (m.globals.refs ++ (saved.refs ++ (.hostCall c :: below : List Frame).flatMap Frame.refs))) ∧
      left.2.thread.frames = (a.outcome how).slot :: slots ∧ m.world.shapes.Grows left.2.shapes ∧
      (∀ x, left.2.depthOf x =
        if x = a.native then m.world.depthOf a.native - 1 else m.world.depthOf x) ∧
      ∀ d, left.2.fallen.count d + m.world.drops.count d =
        m.world.fallen.count d + left.2.drops.count d := by
  obtain ⟨⟨config, known⟩, active⟩ := ended.active coherent
  exact (ended.sound coherent).leaveHost ended.frames ended.count known (by rw [active]; omega)

/-- What the engine returns to a call is the outcome of its body. -/
theorem returned (ended : m.Ended a c saved below slots how) {Δ : Shapes}
    (grows : m.world.shapes.Grows Δ) : Returned Δ c (a.outcome how).slot (a.outcome how).engine := by
  refine Returned.of_outcome (fun vals ends => ?_) fun r mem => ?_
  · rw [← ended.runs.type]
    exact a.kinds_of_outcome ends
  · exact (ended.how r (a.refs_outcome mem)).mono grows

/-- A body that ends leaves a coherent machine whose call has its outcome. -/
theorem leave (ended : m.Ended a c saved below slots how) (coherent : m.Coherent) :
    m.step = m.leftBody a saved (.hostCall c :: below) how ∧
      (m.leftBody a saved (.hostCall c :: below) how).Coherent := by
  obtain ⟨-, active⟩ := ended.active coherent
  have going : m.isHalted = false := by simp [isHalted, ended.control]
  obtain ⟨result, leftSound, frames, grows, depth, ledger⟩ := ended.delivered coherent
  refine ⟨by rw [ended.step_eq coherent, result]; rfl, ?_, coherent.globals.mono grows,
    coherent.distinct, ?_, fun n => ?_, ledger_going coherent.ledger going rfl rfl ledger,
    not_cleared rfl⟩
  · refine leftSound.regroup fun id => ?_
    show (Control.refs (.engine (a.outcome how).engine) ++ _).count id = _
    rw [control_refs_engine]
    rfl
  · have stacked := ended.stacked.mono grows
    have returned := ended.returned grows
    show Placed _ saved (.hostCall c :: below) (m.world.leaveHost a how).2.thread.frames _
    rw [frames]
    exact .engine stacked returned
  · have before := coherent.depth n
    unfold Machine.entered at before
    rw [ended.context, ended.stack] at before
    simp only [List.flatMap_cons, List.count_append] at before active
    have own : (Context.body a).entered = [a.native] := rfl
    have frame : Frame.entered (.activation saved) = saved.entered := rfl
    have call : Frame.entered (.hostCall c) = [] := rfl
    rw [own, frame, call] at before
    refine (depth n).trans ?_
    show _ = (saved.entered ++ (.hostCall c :: below : List Frame).flatMap Frame.entered).count n
    rw [List.flatMap_cons, call]
    simp only [List.count_append, List.count_cons, List.count_nil] at before active ⊢
    by_cases here : n = a.native
    · subst here
      rw [if_pos rfl, active]
      omega
    · have apart : (a.native == n) = false := by simpa using Ne.symm here
      rw [if_neg here, before]
      simp only [apart, Bool.false_eq_true, if_false]
      omega

end Ended

/-! ## A call ends -/

def resumeCall (m : Machine) (c : CallRequest) : CallOutcome → Machine
  | .returned vals => m.returnCall c vals
  | .trapped t => (m.withWorld (m.world.releaseAll c.refs)).complete (.trapped t)
  | .panicked f => (m.withWorld (m.world.releaseAll c.refs)).complete (.panicked f)

/-- What keeping one copy of a result preserves, keeping all of them preserves. -/
theorem bindAll_preserves {R : Machine → Machine → Prop} {names : List VarName} {ss : List (Scalar ObjId)}
    (keeps : ∀ m n, R m n → ∀ s ∈ ss, ∀ name, R (m.assignCopy name (.value s)) (n.assignCopy name (.value s)))
    {n : Machine} (start : R m n) : R (m.bindAll names ss) (n.bindAll names ss) := by
  induction names generalizing ss m n with
  | nil => exact start
  | cons name names ih =>
      cases ss with
      | nil => exact start
      | cons s ss =>
          exact ih (fun m n related x mem => keeps m n related x (List.mem_cons_of_mem s mem))
            (keeps m n start s List.mem_cons_self name)

/-- The reference that one of several scalars carries. -/
theorem refs_value_subset {ss : List (Scalar ObjId)} {s : Scalar ObjId} (mem : s ∈ ss) :
    ∀ r ∈ (Item.value s).refs, r ∈ Scalar.refs ss := fun r carried =>
  List.mem_filterMap.mpr ⟨s, mem, by simpa [Item.refs] using carried⟩

namespace Busy

/-- Keeping copies of results under names. -/
theorem bindAll {names : List VarName} {ss : List (Scalar ObjId)} (busy : Busy m₀ extra m)
    (fits : ∀ r ∈ Scalar.refs ss, m₀.world.shapes.IsReferent r) (held : ∀ r ∈ Scalar.refs ss, r ∈ extra) :
    Busy m₀ extra (m.bindAll names ss) := by
  refine bindAll_preserves (R := fun m _ => Busy m₀ extra m) (n := m) (fun m _ busy s mem name => ?_) busy
  have item : Item.Fits m.world.shapes (.value s) := fun r carried =>
    (fits r (refs_value_subset mem r (by simpa [Item.refs] using carried))).mono busy.evolves.shapes
  exact busy.assignCopy item
    (fun r carried => busy.world.alive (List.mem_append_left _ (held r (refs_value_subset mem r carried)))) name

/-- Dropping references that the step holds. -/
theorem releaseAll (ids : List ObjId) (busy : Busy m₀ (ids ++ extra) m) :
    Busy m₀ extra (m.withWorld (m.world.releaseAll ids)) := by
  have sound := busy.world
  rw [List.append_assoc] at sound
  exact busy.withWorld (sound.releaseAll ids) (World.drains_releaseAll ids m.world).evolves

/-- A call that returned keeps its results and drops what it owned. -/
theorem returnCall {c : CallRequest} {vals : List (Val ObjId)} (busy : Busy m₀ (Val.refs vals ++ c.refs) m)
    (fits : ∀ r ∈ Val.refs vals, m₀.world.shapes.IsReferent r)
    (kinds : vals.map Val.kind = c.type.results) (sigs : ∀ sig, c.sig = some sig → sig.funcType = c.type) :
    Ends m₀ (m.returnCall c vals) := by
  unfold Machine.returnCall
  cases typed : c.sig with
  | none =>
      have same : Scalar.refs (vals.map .ofVal) = Val.refs vals := Scalar.refs_ofVals vals
      have bound : Busy m₀ (Val.refs vals ++ c.refs) (m.bindAll c.bind (vals.map .ofVal)) :=
        busy.bindAll (fun r mem => fits r (by rwa [same] at mem)) fun r mem =>
          List.mem_append_left _ (by rwa [same] at mem)
      have dropped := bound.releaseAll (Val.refs vals)
      rw [← List.append_nil c.refs] at dropped
      exact (dropped.releaseAll c.refs).finish _
  | some sig =>
      have results : vals.map Val.kind = sig.results.kinds := by
        rw [kinds, ← sigs sig typed]
        rfl
      obtain ⟨ss, decoded, encoded⟩ := sig.results.decode_ok results
      have same : Scalar.refs ss = Val.refs vals := by rw [← Scalar.refs_encode, encoded]
      have grouped : Busy m₀ (Val.refs c.args ++ (Val.refs vals ++ [c.func])) m := by
        refine busy.regroup fun id => ?_
        simp only [CallRequest.refs, List.count_append]
        omega
      have bare := grouped.releaseAll (Val.refs c.args)
      have bound : Busy m₀ (Val.refs vals ++ [c.func])
          ((m.withWorld (m.world.releaseAll (Val.refs c.args))).bindAll c.bind ss) :=
        bare.bindAll (fun r mem => fits r (by rwa [same] at mem)) fun r mem =>
          List.mem_append_left _ (by rwa [same] at mem)
      have dropped := bound.releaseAll (Val.refs vals)
      rw [← List.append_nil [c.func]] at dropped
      have done := dropped.releaseAll [c.func]
      dsimp only
      rw [decoded]
      exact done.finish _

/-- Whatever the outcome of a call, the step that called ends with nothing of its own. -/
theorem resumeCall {c : CallRequest} {o : CallOutcome} (busy : Busy m₀ (o.refs ++ c.refs) m)
    (fits : ∀ r ∈ o.refs, m₀.world.shapes.IsReferent r)
    (kinds : ∀ vals, o = .returned vals → vals.map Val.kind = c.type.results)
    (sigs : ∀ sig, c.sig = some sig → sig.funcType = c.type) : Ends m₀ (m.resumeCall c o) := by
  have dropped (plain : o.refs = []) : Busy m₀ [] (m.withWorld (m.world.releaseAll c.refs)) := by
    rw [plain, List.nil_append, ← List.append_nil c.refs] at busy
    have done := busy.releaseAll c.refs
    exact done
  cases o with
  | returned vals => exact busy.returnCall fits (kinds vals rfl) sigs
  | trapped t => exact (dropped rfl).raise rfl
  | panicked f => exact (dropped rfl).raise rfl

end Busy

structure Returning (m : Machine) (c : HostCall) (below : List Frame) (slots : List (Option Fault))
    (slot : Option Fault) (r : EngineResult) : Prop where
  control : m.control = .engine r
  stack : m.stack = .hostCall c :: below
  frames : m.world.thread.frames = slot :: slots
  stacked : Stacked m.world.shapes m.context below slots
  waits : Frame.Waits below
  fits : c.Fits m.world.shapes
  returned : Returned m.world.shapes c slot r

theorem Coherent.returning (coherent : m.Coherent) {r : EngineResult} (control : m.control = .engine r) :
    ∃ c below slots slot, m.Returning c below slots slot r := by
  have placed := coherent.placed
  rw [control] at placed
  generalize stack : m.stack = rest at placed
  generalize frames : m.world.thread.frames = opened at placed
  cases placed with
  | @engine c below slots slot r stacked returned =>
      obtain ⟨fits, waits, slots', same, stacked'⟩ := stacked.call
      cases same
      exact ⟨c, below, _, slot, control, stack, frames, stacked', waits, fits, returned⟩

/-- The machine in which the slot of a call is closed and its raw arguments are dropped. -/
def closed (m : Machine) (c : HostCall) (below : List Frame) (slots : List (Option Fault)) : Machine :=
  { m with
    world := (m.world.modifyThread fun t => { t with frames := slots }).releaseAll (Slot.refs c.raw)
    stack := below }

namespace Returning

variable {c : HostCall} {below : List Frame} {slots : List (Option Fault)} {slot : Option Fault}
variable {r : EngineResult}

theorem evolves (_ : m.Returning c below slots slot r) :
    Evolves (m.world.modifyThread fun t => { t with frames := slots }) (m.closed c below slots).world :=
  (World.drains_releaseAll (Slot.refs c.raw) _).evolves

theorem going (returning : m.Returning c below slots slot r) : m.isHalted = false := by
  simp [isHalted, returning.control]

/-- The call has ended, and the step that called may end. -/
theorem poised (returning : m.Returning c below slots slot r) (coherent : m.Coherent) :
    (m.closed c below slots).Poised := by
  have evolves := returning.evolves
  have going := returning.going
  refine ⟨?_, returning.waits, fun n => ?_,
    ledger_going coherent.ledger going going rfl evolves.ledger, going⟩
  · have frames : (m.closed c below slots).world.thread.frames = slots := evolves.frames
    rw [frames]
    exact returning.stacked.mono evolves.shapes
  · have before := coherent.depth n
    unfold Machine.entered at before
    rw [returning.stack] at before
    exact (congrFun evolves.depth n).trans before

/-- What is held when the slot of a call has been closed and its raw arguments are still there. -/
theorem sound (returning : m.Returning c below slots slot r) (coherent : m.Coherent) :
    (m.world.modifyThread fun t => { t with frames := slots }).Sound (Slot.refs c.raw ++
      (m.control.refs ++ c.request.refs ++ (m.closed c below slots).owns)) := by
  have sound : (m.world.modifyThread fun t => { t with frames := slots }).Sound m.held :=
    coherent.world.modifyThread rfl rfl
  refine sound.regroup fun id => ?_
  have owns : m.owns = m.globals.refs ++ (m.context.refs ++
      ((c.request.refs ++ Slot.refs c.raw) ++ below.flatMap Frame.refs)) := by
    unfold Machine.owns
    rw [returning.stack]
    rfl
  have owns' : (m.closed c below slots).owns = m.globals.refs ++ (m.context.refs ++
      below.flatMap Frame.refs) := rfl
  unfold held
  rw [owns, owns']
  simp only [List.count_append]
  omega

theorem busy (returning : m.Returning c below slots slot r) (coherent : m.Coherent) :
    Busy (m.closed c below slots) (m.control.refs ++ c.request.refs) (m.closed c below slots) := by
  have grows := returning.evolves.shapes
  have released : (m.closed c below slots).world.Sound
      (m.control.refs ++ c.request.refs ++ (m.closed c below slots).owns) :=
    World.Sound.releaseAll (Slot.refs c.raw) (returning.sound coherent)
  refine ⟨released, .refl _, rfl, rfl, ⟨m.context.locals, (Context.withLocals_locals _).symm⟩,
    coherent.globals.mono grows, coherent.distinct, fun a context => ?_⟩
  have stacked := returning.stacked
  have running : m.context = .body a := context
  rw [running] at stacked
  exact stacked.running.mono grows

end Returning

/-- The end of a call as its slot and the engine tell it: a panic in the slot goes first, then a trap,
then values read at the declared kinds. -/
def resumed (declared : List Kind) : Option Fault → EngineResult → CallOutcome
  | some f, _ => .panicked f
  | none, .error t => .trapped (.ofNative t)
  | none, .ok slots => .returned ((declared.zip slots).map fun p => p.2.read p.1)

/-- Values of the declared kinds are read back from their slots. -/
theorem resumed_values {declared : List Kind} {vals : List (Val ObjId)}
    (kinds : vals.map Val.kind = declared) :
    resumed declared none (.ok (vals.map Slot.ofVal)) = .returned vals :=
  congrArg CallOutcome.returned (Slot.read_ofVals kinds)

namespace Returning

variable {c : HostCall} {below : List Frame} {slots : List (Option Fault)} {slot : Option Fault}
variable {r : EngineResult}

theorem step_eq (returning : m.Returning c below slots slot r) (coherent : m.Coherent) :
    m.step = (m.closed c below slots).resumeCall c.request
      (resumed c.request.type.results slot r) := by
  have popped : m.world.popFrame =
      (slot, m.world.modifyThread fun t => { t with frames := slots }) := by
    unfold World.popFrame
    rw [returning.frames]
  unfold Machine.step
  rw [coherent.world.aborted, returning.control]
  simp only [Option.isSome_none, Bool.false_eq_true, if_false]
  unfold Machine.deliverEngine
  rw [returning.stack]
  dsimp only
  unfold Machine.endCall World.finishCall
  dsimp only
  rw [popped]
  cases returning.returned with
  | values vals kinds refs => rfl
  | trap t => rfl
  | panic f => rfl

/-- Once the engine has left a call, the step that called ends. -/
theorem ends (returning : m.Returning c below slots slot r) (coherent : m.Coherent) :
    Ends (m.closed c below slots) m.step := by
  have grows : m.world.shapes.Grows (m.closed c below slots).world.shapes := returning.evolves.shapes
  have busy := returning.busy coherent
  have sigs := returning.fits.sig
  rw [returning.control] at busy
  rw [returning.step_eq coherent]
  cases returning.returned with
  | values vals kinds refs =>
      have carried : Control.refs (.engine (.ok (vals.map Slot.ofVal))) = Val.refs vals :=
        Slot.refs_ofVals vals
      rw [carried] at busy
      rw [resumed_values kinds]
      exact Busy.resumeCall (o := .returned vals) busy (fun x mem => (refs x mem).mono grows)
        (fun xs same => by cases same; exact kinds) sigs
  | trap t =>
      exact Busy.resumeCall (o := .trapped (.ofNative t)) busy
        (fun x mem => absurd mem List.not_mem_nil) (fun xs same => nomatch same) sigs
  | panic f =>
      exact Busy.resumeCall (o := .panicked f) busy
        (fun x mem => absurd mem List.not_mem_nil) (fun xs same => nomatch same) sigs

/-- A call that ends leaves a coherent machine. -/
theorem step (returning : m.Returning c below slots slot r) (coherent : m.Coherent) :
    m.step.Coherent :=
  (returning.poised coherent).ends (returning.ends coherent)

end Returning

/-! ## From the end of a body to the end of its call -/

/-- The outcome of a body goes through its slot and the engine unchanged. -/
theorem resumed_outcome (a : Activation) (how : Completion) :
    resumed a.type.results (a.outcome how).slot (a.outcome how).engine = a.outcome how := by
  cases ends : a.outcome how with
  | returned vals => exact resumed_values (a.kinds_of_outcome ends)
  | trapped t =>
      obtain ⟨s, -, rfl⟩ := a.trapped_of_outcome ends
      rfl
  | panicked f => rfl

namespace Ended

variable {a : Activation} {c : HostCall} {saved : Context} {below : List Frame}
variable {slots : List (Option Fault)} {how : Completion}

/-- When a body has been left its call returns, with the outcome of the body in its own slot. -/
theorem returning (ended : m.Ended a c saved below slots how) (coherent : m.Coherent) :
    m.step.Returning c below slots (a.outcome how).slot (a.outcome how).engine := by
  obtain ⟨-, -, frames, grows, -⟩ := ended.delivered coherent
  obtain ⟨fits, waits, slots', same, stacked⟩ := (ended.stacked.mono grows).call
  cases same
  rw [(ended.leave coherent).1]
  exact ⟨rfl, rfl, frames, stacked, waits, fits, ended.returned grows⟩

/-- Two transitions after the end of a body its call ends with its outcome. -/
theorem resumes (ended : m.Ended a c saved below slots how) (coherent : m.Coherent) :
    m.step.step = (m.step.closed c below slots).resumeCall c.request (a.outcome how) := by
  obtain ⟨left, leaves⟩ := ended.leave coherent
  rw [(ended.returning coherent).step_eq (by rw [left]; exact leaves), ← ended.runs.type,
    resumed_outcome]

end Ended

namespace Entering

variable {c : HostCall} {h : Handle} {callee : Callee} {s : NativeStore}

/-- A call that the engine has refused returns with the trap, and its slot is empty. -/
theorem returning (entering : m.Entering c h callee s) {w : World} (evolves : Evolves m.world w)
    (t : NativeTrap) : ∃ below slots, m.stack = .hostCall c :: below ∧
      ((m.withWorld w).refused t).Returning c below slots none (.error t) := by
  obtain ⟨below, stack⟩ := entering.stack
  have stacked := entering.stacked.mono evolves.shapes
  rw [stack] at stacked
  obtain ⟨fits, waits, slots, opened, stacked⟩ := stacked.call
  exact ⟨below, slots, stack, rfl, stack, evolves.frames.trans opened, stacked, waits, fits, .trap t⟩

/-- A call is refused with the trap of the reason that its store has. -/
theorem refusedFor (entering : m.Entering c h callee s) (coherent : m.Coherent) {code : TrapCode}
    (reason : s.reason? = some code) : ∃ below slots, m.stack = .hostCall c :: below ∧
      m.step.Returning c below slots none (.error (.ofCode code)) ∧ m.step.context = m.context := by
  have step := entering.step_eq coherent.world.aborted
  unfold NativeStore.reason? at reason
  split_ifs at reason step with interrupt depth
  · cases reason
    let answered (s : NativeStore) : NativeStore := { s with interrupt := false }
    obtain ⟨below, slots, stack, returning⟩ := entering.returning
      (World.evolves_modifyNativeStore (f := answered) (fun _ => rfl) (fun _ => rfl) callee.native)
      (.ofCode .interrupt)
    rw [step]
    exact ⟨below, slots, stack, returning, rfl⟩
  · cases reason
    obtain ⟨below, slots, stack, returning⟩ := entering.returning (.refl _) (.ofCode .stackOverflow)
    rw [step]
    exact ⟨below, slots, stack, returning, rfl⟩

end Entering

end Machine

end HostEmbedding
