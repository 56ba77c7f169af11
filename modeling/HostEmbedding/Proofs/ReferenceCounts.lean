import HostEmbedding.Proofs.PanicTransfer
import HostEmbedding.Proofs.Ownership.Graph

/-!
# Reference counts across calls

The references outside the heap are of two sorts. Those that the program keeps are in its variables,
in the argument lists of its calls and in what its steps hand on. Those of the machinery of a call are
its raw arguments and, while its closure runs, the parameters decoded from them. The machinery of a
call takes as much as it gives back, so a call changes a count only by what the program keeps.
-/

namespace HostEmbedding

/-! ## Two sorts of references -/

def Context.params : Context → List ObjId
  | .body a => Val.refs a.params
  | _ => []

/-- What the program keeps in a running context: its locals; and its closure and its store. -/
def Context.kept : Context → List ObjId
  | .body a => a.locals.refs ++ [a.closure, a.store]
  | _ => []

/-- What the program keeps in a waiting frame: the argument list of a call and its function, and what
it keeps in a saved context. -/
def Frame.kept : Frame → List ObjId
  | .hostCall c => c.request.refs
  | .activation saved => saved.kept
  | .thread saved _ => saved.kept
  | .finalizer saved => saved.kept
  | _ => []

/-- The calls on a stack, the innermost first, each with the references that its machinery holds: the
raw arguments and, if its closure runs, the decoded parameters. The context runs on top. -/
def Frame.machinery (ctx : Context) : List Frame → List (HostCall × List ObjId)
  | [] => []
  | .activation saved :: .hostCall c :: below =>
      (c, ctx.params ++ Slot.refs c.raw) :: machinery saved below
  | .hostCall c :: below => (c, Slot.refs c.raw) :: machinery ctx below
  | .activation saved :: below => machinery saved below
  | .thread saved _ :: below => machinery saved below
  | .finalizer saved :: below => machinery saved below
  | _ :: below => machinery ctx below

/-- Each call holds every reference twice for each time that its argument list has it. -/
def Doubled (calls : List (HostCall × List ObjId)) : Prop :=
  ∀ p ∈ calls, ∀ r, p.2.count r = 2 * (Val.refs p.1.request.args).count r

namespace Frame

theorem machinery_withLocals (ctx : Context) (s : Scope) (stack : List Frame) :
    machinery (ctx.withLocals s) stack = machinery ctx stack := by
  have params : (ctx.withLocals s).params = ctx.params := by cases ctx <;> rfl
  induction stack with
  | nil => rfl
  | cons f below ih =>
      cases f with
      | hostCall c => exact congrArg _ ih
      | activation saved =>
          cases below with
          | nil => rfl
          | cons g rest =>
              cases g with
              | hostCall c =>
                  simp only [machinery, params]
              | _ => rfl
      | thread saved state => rfl
      | finalizer saved => rfl
      | _ => exact ih

end Frame

section

variable {Γ : Shapes} {ctx : Context} {stack : List Frame} {slots : List (Option Fault)}

theorem Context.count_refs (ctx : Context) (r : ObjId) :
    ctx.refs.count r = ctx.kept.count r + ctx.params.count r := by
  cases ctx with
  | body a =>
      simp only [Context.refs, Context.kept, Context.params, List.count_append]
      omega
  | _ => rfl

/-- What a stack and the context on top of it hold is what the program keeps and what the machinery of
the calls holds. -/
theorem Stacked.count_refs (stacked : Stacked Γ ctx stack slots) (r : ObjId) :
    (ctx.refs ++ stack.flatMap Frame.refs).count r =
      (ctx.kept ++ stack.flatMap Frame.kept).count r +
        ((Frame.machinery ctx stack).flatMap Prod.snd).count r := by
  induction stacked with
  | top => rfl
  | block _ _ _ ih => exact ih
  | branch _ _ ih => exact ih
  | loop _ _ _ ih => exact ih
  | @hostCall ctx stack slots c _ _ _ ih =>
      simp only [List.flatMap_cons, Frame.refs, Frame.kept, Frame.machinery, List.count_append]
        at ih ⊢
      omega
  | @activation saved stack slots c a _ _ _ ih =>
      have own := (Context.body a).count_refs r
      simp only [List.flatMap_cons, Frame.refs, Frame.kept, Frame.machinery, List.count_append]
        at ih own ⊢
      omega
  | @thread saved stack state _ _ _ _ ih =>
      have own : Context.refs .thread = [] ∧ Context.kept .thread = [] := ⟨rfl, rfl⟩
      simp only [List.flatMap_cons, Frame.refs, Frame.kept, Frame.machinery, List.count_append, own,
        List.nil_append] at ih ⊢
      exact ih

theorem Frame.Waits.not_call (waits : Frame.Waits stack) (c : HostCall) (below : List Frame) :
    stack ≠ .hostCall c :: below := by
  rintro rfl
  exact waits

theorem Frame.Seats.not_call (seats : Frame.Seats stack) (c : HostCall) (below : List Frame) :
    stack ≠ .hostCall c :: below := by
  rintro rfl
  exact seats

/-- Below the call on top, or everywhere if none is, a closure runs for every call: its raw arguments
and its parameters are the argument list twice. -/
theorem Stacked.doubled (stacked : Stacked Γ ctx stack slots) :
    (∀ c below, stack = .hostCall c :: below → Doubled (Frame.machinery ctx below)) ∧
      ((∀ c below, stack ≠ .hostCall c :: below) → Doubled (Frame.machinery ctx stack)) := by
  induction stacked with
  | top => exact ⟨nofun, fun _ p mem => absurd mem List.not_mem_nil⟩
  | block _ seats _ ih => exact ⟨nofun, fun _ => ih.2 seats.not_call⟩
  | branch _ waits ih => exact ⟨nofun, fun _ => ih.2 waits.not_call⟩
  | loop _ waits _ ih => exact ⟨nofun, fun _ => ih.2 waits.not_call⟩
  | @hostCall ctx stack slots c _ waits _ ih =>
      refine ⟨fun c' below same => ?_, fun away => absurd rfl (away c stack)⟩
      cases same
      exact ih.2 waits.not_call
  | @activation saved stack slots c a below _ runs ih =>
      refine ⟨nofun, fun _ p mem r => ?_⟩
      rcases List.mem_cons.mp mem with rfl | mem
      · obtain ⟨fits, -⟩ := below.call
        have raw : Slot.refs c.raw = Val.refs c.request.args := by rw [fits.raw, Slot.refs_ofVals]
        have params : (Context.body a).params = Val.refs c.request.args := congrArg Val.refs runs.params
        show ((Context.body a).params ++ Slot.refs c.raw).count r = 2 * (Val.refs c.request.args).count r
        rw [raw, params, List.count_append]
        omega
      · exact ih.1 c stack rfl p mem r
  | @thread saved stack state _ waits _ _ ih => exact ⟨nofun, fun _ => ih.2 waits.not_call⟩

end

/-- Calls that each have a reference once in their argument lists hold it twice each. -/
theorem Doubled.count_flatMap {calls : List (HostCall × List ObjId)} (doubled : Doubled calls) {r : ObjId}
    (once : ∀ p ∈ calls, (Val.refs p.1.request.args).count r = 1) :
    (calls.flatMap Prod.snd).count r = 2 * calls.length := by
  induction calls with
  | nil => rfl
  | cons p rest ih =>
      have here := doubled p List.mem_cons_self r
      have later := ih (fun q mem => doubled q (List.mem_cons_of_mem p mem))
        fun q mem => once q (List.mem_cons_of_mem p mem)
      rw [once p List.mem_cons_self] at here
      rw [List.flatMap_cons, List.count_append, here, later, List.length_cons]
      omega

theorem Shapes.IsReferent.not_env {Γ : Shapes} {r : ObjId} (known : Γ.IsReferent r) (type : FuncType)
    (s : ObjId) : ¬ Γ.IsEnv r type s := by
  obtain ⟨label, payload, object⟩ := known
  intro env
  cases object.symm.trans env

/-- A reference that has a content is one to a host value. -/
theorem World.isReferent_of_payload? {w : World} {r : ObjId} {p : Payload}
    (found : w.payload? r = some p) : w.shapes.IsReferent r := by
  unfold World.payload? World.object? at found
  cases entry : w.entry? r with
  | none => simp [entry] at found
  | some e =>
      obtain ⟨k, o⟩ := e
      cases o with
      | referent label payload => exact ⟨label, payload, World.shapes_of_entry entry⟩
      | _ => cases k <;> simp [entry] at found

namespace Machine

/-- What the program keeps: in its globals, in the running context and the waiting frames, and in the
objects of the heap. -/
def kept (m : Machine) : List ObjId :=
  m.globals.refs ++ ((m.context.kept ++ m.stack.flatMap Frame.kept) ++ m.world.owned)

/-- The calls in progress with the references that their machinery holds. -/
def machinery (m : Machine) : List (HostCall × List ObjId) := Frame.machinery m.context m.stack

/-- A count has changed by what the program keeps, and by the references that are handed over. -/
def Settles (m m' : Machine) (given : List ObjId) : Prop :=
  ∀ r, m'.world.shapes.IsReferent r →
    m'.world.strong r + m.kept.count r =
      m.world.strong r + m'.kept.count r + given.count r

/-- How the counts stand when the step of `m` calls; `run` are the states that follow. -/
inductive CallCounts (m : Machine) (run : Nat → Machine) : Prop where
  /-- The step ends at once: the function or the arguments cannot be used. -/
  | ends {how : Completion} (control : (run 0).control = .complete how) (plain : how.refs = [])
      (stack : (run 0).stack = m.stack) (settles : Settles m (run 0) [])
  /-- The call never returns. -/
  | stays {c : HostCall} (stack : ∀ k, ∃ above, (run k).stack = above ++ .hostCall c :: m.stack)
  /-- The engine leaves the call, which ends with an outcome: the argument list of the caller is still
  there, and the references of the results are given to the caller. Then the step that called ends. -/
  | returns {c : HostCall} {k : Nat} {r : EngineResult} {o : CallOutcome} {w : World} {how : Completion}
      (within : ∀ j ≤ k, ∃ above, (run j).stack = above ++ .hostCall c :: m.stack)
      (left : (run k).control = .engine r) (stack : (run k).stack = .hostCall c :: m.stack)
      (finished : (run k).world.finishCall c.request.type c.raw r = (o, w))
      (gives : Settles m { run k with world := w, stack := m.stack } (Val.refs c.request.args ++ o.refs))
      (control : (run (k + 1)).control = .complete how) (plain : how.refs = [])
      (restored : (run (k + 1)).stack = m.stack) (settles : Settles m (run (k + 1)) [])

/-- How the counts of references go through the calls of a run. -/
structure CountsBalance (run : Nat → Machine) : Prop where
  /-- A count is what the program keeps and hands on, and what the machinery of the calls holds. -/
  balanced : ∀ n r, (run n).world.shapes.IsReferent r →
    (run n).world.strong r = (run n).kept.count r + (run n).control.refs.count r +
      ((run n).machinery.flatMap Prod.snd).count r
  /-- While steps run, the machinery of each call holds every argument exactly twice. -/
  doubled : ∀ n, ((run n).control = .run ∨ ∃ how, (run n).control = .complete how) →
    Doubled (run n).machinery
  /-- Nested calls that each pass a reference once hold it twice each. -/
  nested : ∀ n r, ((run n).control = .run ∨ ∃ how, (run n).control = .complete how) →
    (∀ p ∈ (run n).machinery, (Val.refs p.1.request.args).count r = 1) →
    ((run n).machinery.flatMap Prod.snd).count r = 2 * (run n).machinery.length
  /-- A call changes a count only by what the program keeps, however it ends. -/
  calls : ∀ n, (run n).Calls → CallCounts (run n) fun k => run (n + 1 + k)

variable {m m' : Machine}

/-! ## One state -/

/-- A reference that is no environment is counted by what is held and by the heap. -/
theorem Coherent.strong_eq (coherent : m.Coherent) {r : ObjId}
    (plain : ∀ type s, ¬ m.world.shapes.IsEnv r type s) :
    m.world.strong r = m.held.count r + m.world.owned.count r := by
  have counted := coherent.world.counted r
  have unlent : r ∉ m.world.lent := fun mem => by
    obtain ⟨type, s, isEnv⟩ := coherent.world.toAccounted.isEnv_of_lent mem
    exact plain type s isEnv
  rw [coherent.world.retired, List.count_eq_zero.mpr unlent] at counted
  exact counted

theorem held_eq (coherent : m.Coherent) (r : ObjId) :
    m.held.count r + m.world.owned.count r =
      m.kept.count r + m.control.refs.count r + (m.machinery.flatMap Prod.snd).count r := by
  obtain ⟨slots, stacked⟩ := coherent.placed.stacked
  have split := stacked.count_refs r
  unfold held owns kept machinery
  simp only [List.count_append] at split ⊢
  omega

theorem Coherent.balanced (coherent : m.Coherent) {r : ObjId}
    (plain : ∀ type s, ¬ m.world.shapes.IsEnv r type s) :
    m.world.strong r = m.kept.count r + m.control.refs.count r +
      (m.machinery.flatMap Prod.snd).count r :=
  (coherent.strong_eq plain).trans (held_eq coherent r)

theorem Coherent.doubled (coherent : m.Coherent)
    (runs : m.control = .run ∨ ∃ how, m.control = .complete how) : Doubled m.machinery := by
  have placed := coherent.placed
  unfold machinery
  generalize m.stack = stack at placed ⊢
  generalize m.world.thread.frames = slots at placed
  generalize m.control = control at placed runs
  cases placed with
  | run stacked => exact stacked.doubled.2 nofun
  | complete stacked fits seat =>
      refine stacked.doubled.2 ?_
      rcases seat with waits | ⟨seats, -⟩
      · exact waits.not_call
      · exact seats.not_call
  | _ => rcases runs with impossible | ⟨how, impossible⟩ <;> cases impossible

/-! ## Two states -/

theorem machinery_eq (stack : m'.stack = m.stack) (context : ∃ s, m'.context = m.context.withLocals s) :
    m'.machinery = m.machinery := by
  obtain ⟨s, context⟩ := context
  unfold machinery
  rw [stack, context, Frame.machinery_withLocals]

/-- Between two states with the same calls in progress the counts change by what the program keeps. -/
theorem Coherent.settles (coherent : m.Coherent) (coherent' : m'.Coherent)
    (grows : m.world.shapes.Grows m'.world.shapes) (idle : m.control.refs = [])
    (idle' : m'.control.refs = []) (same : m'.machinery = m.machinery) : Settles m m' [] := by
  intro r known
  have before := coherent.balanced fun type s env => known.not_env type s (grows.object env)
  have after := coherent'.balanced known.not_env
  rw [idle] at before
  rw [idle', same] at after
  simp only [List.count_nil] at before after ⊢
  omega

/-! ## A call ends -/

/-- A step that calls enters the engine, or ends with no reference of its own. -/
def EntersOrEnds (m : Machine) : Prop :=
  (∃ n args slots, m.control = .enter n args slots) ∨ ∃ how, m.control = .complete how ∧ how.refs = []

theorem entersOrEnds_finish (m : Machine) (a : Answer) : (m.finish a).EntersOrEnds :=
  .inr ⟨.done a, rfl, rfl⟩

theorem entersOrEnds_startCall (m : Machine) (native : NativeId) (store : ObjId) (c : CallRequest) :
    (m.startCall native store c).EntersOrEnds := by
  unfold Machine.startCall
  dsimp only
  split
  · exact .inr ⟨_, rfl, rfl⟩
  · exact .inl ⟨_, _, _, rfl⟩

theorem entersOrEnds_withHandle (m : Machine) (v : VarName) {k : Item → ObjId → Handle → Machine}
    (next : ∀ item id h, (k item id h).EntersOrEnds) : (m.withHandle v k).EntersOrEnds := by
  unfold Machine.withHandle
  split
  · dsimp only
    split
    · split
      · exact next _ _ _
      · exact entersOrEnds_finish m _
    · exact entersOrEnds_finish m _
  · exact entersOrEnds_finish m _

theorem entersOrEnds_withOperands (m : Machine) (os : List Operand)
    {k : List (Scalar ObjId) → Machine} (next : ∀ ss, (k ss).EntersOrEnds) :
    (m.withOperands os k).EntersOrEnds := by
  unfold Machine.withOperands
  split
  · exact next _
  · exact entersOrEnds_finish m _

theorem entersOrEnds_call (m : Machine) (v : VarName) (args : List Operand) (names : List VarName) :
    (m.call v args names).EntersOrEnds := by
  refine entersOrEnds_withHandle m v fun item id h => ?_
  cases item with
  | func _ type =>
      exact entersOrEnds_withOperands m args fun ss => entersOrEnds_startCall _ _ _ _
  | _ => exact entersOrEnds_finish m _

theorem entersOrEnds_typedCall (m : Machine) (v : VarName) (args : List Operand)
    (names : List VarName) : (m.typedCall v args names).EntersOrEnds := by
  refine entersOrEnds_withHandle m v fun item id h => ?_
  cases item with
  | typedFunc _ type sig =>
      exact entersOrEnds_withOperands m args fun ss => entersOrEnds_startCall _ _ _ _
  | _ => exact entersOrEnds_finish m _

theorem resumeCall_plain (m : Machine) (c : CallRequest) (o : CallOutcome) :
    ∃ how, (m.resumeCall c o).control = .complete how ∧ how.refs = [] := by
  cases o with
  | returned vals =>
      unfold Machine.resumeCall Machine.returnCall
      dsimp only
      split
      · exact ⟨_, rfl, rfl⟩
      · split
        · exact ⟨_, rfl, rfl⟩
        · exact ⟨_, rfl, rfl⟩
  | trapped t => exact ⟨_, rfl, rfl⟩
  | panicked f => exact ⟨_, rfl, rfl⟩

namespace Returning

variable {c : HostCall} {below : List Frame} {slots : List (Option Fault)} {slot : Option Fault}
variable {r : EngineResult}

/-- The end of a call closes its slot and drops its raw arguments. -/
theorem finished (returning : m.Returning c below slots slot r) :
    m.world.finishCall c.request.type c.raw r =
      (resumed c.request.type.results slot r, (m.closed c below slots).world) := by
  have popped : m.world.popFrame =
      (slot, m.world.modifyThread fun t => { t with frames := slots }) := by
    unfold World.popFrame
    rw [returning.frames]
  unfold World.finishCall
  rw [popped]
  cases slot with
  | some f => rfl
  | none => cases r <;> rfl

/-- What the engine returned is what the outcome of the call carries. -/
theorem control_refs (returning : m.Returning c below slots slot r) :
    m.control.refs = (resumed c.request.type.results slot r).refs := by
  rw [returning.control]
  cases returning.returned with
  | values vals kinds refs =>
      rw [resumed_values kinds]
      exact Slot.refs_ofVals vals
  | trap t => rfl
  | panic f => rfl

/-- When a call ends, its argument list and its results are all that it adds to what the program
keeps. -/
theorem gives (returning : m'.Returning c m.stack slots slot r) (coherent' : m'.Coherent)
    (coherent : m.Coherent) (grows : m.world.shapes.Grows m'.world.shapes) (idle : m.control.refs = [])
    (context : ∃ s, m'.context = m.context.withLocals s) :
    Settles m (m'.closed c m.stack slots)
      (Val.refs c.request.args ++ (resumed c.request.type.results slot r).refs) := by
  intro x known
  have sound := (returning.busy coherent').world
  have shapes : m'.world.shapes.Grows (m'.closed c m.stack slots).world.shapes :=
    returning.evolves.shapes
  have before := coherent.balanced fun type s env =>
    known.not_env type s (shapes.object (grows.object env))
  have unlent : x ∉ (m'.closed c m.stack slots).world.lent := fun mem => by
    obtain ⟨type, s, isEnv⟩ := sound.toAccounted.isEnv_of_lent mem
    exact known.not_env type s isEnv
  have counted := sound.counted x
  rw [sound.retired, List.count_eq_zero.mpr unlent, returning.control_refs] at counted
  -- The function that was called is a handle, so its count is not the one of a host value.
  have func : (CallRequest.refs c.request).count x = (Val.refs c.request.args).count x := by
    obtain ⟨h, f, handle, -⟩ := returning.fits.func
    have apart : c.request.func ≠ x := by
      rintro rfl
      obtain ⟨label, payload, object⟩ := known
      cases object.symm.trans (shapes.object handle)
    unfold CallRequest.refs
    rw [List.count_append, List.count_singleton, if_neg (by simpa using apart), Nat.add_zero]
  have split := (returning.stacked.mono shapes).count_refs x
  have same : Frame.machinery m'.context m.stack = m.machinery := by
    obtain ⟨s, context⟩ := context
    rw [context, Frame.machinery_withLocals]
    rfl
  rw [same] at split
  have owns : (m'.closed c m.stack slots).owns =
    m'.globals.refs ++ (m'.context.refs ++ m.stack.flatMap Frame.refs) := rfl
  have kept : (m'.closed c m.stack slots).kept = m'.globals.refs ++
    ((m'.context.kept ++ m.stack.flatMap Frame.kept) ++ (m'.closed c m.stack slots).world.owned) := rfl
  rw [owns] at counted
  rw [idle] at before
  rw [kept]
  simp only [List.count_append, List.count_nil] at counted split before func ⊢
  omega

end Returning

/-- A step that calls changes the counts by what the program keeps. -/
theorem Coherent.callCounts (coherent : m.Coherent) (calls : m.Calls) :
    CallCounts m fun k => Machine.step^[k] m.step := by
  obtain ⟨control, outer, index, g, s, rest, below, stack, callee⟩ := calls
  obtain ⟨_, _, _, _, top, isPublic⟩ := coherent.block control
  obtain ⟨same, rfl⟩ := List.cons.inj (stack.symm.trans top)
  cases same
  have step := coherent.step_eq
  rw [control, stack] at step
  have begins : m.step = m.begin g s := step
  have begun := coherent.begun control (by rw [stack]; trivial) g (Block.isPublic_cons isPublic).1
  have idle : m.control.refs = [] := by rw [control]; rfl
  have starts : m.step.EntersOrEnds := by
    rw [begins]
    rcases callee with ⟨v, args, names, rfl⟩ | ⟨v, args, names, rfl⟩
    · exact entersOrEnds_call m v args names
    · exact entersOrEnds_typedCall m v args names
  rw [← begins] at begun
  cases begun with
  | ended ends =>
      obtain ⟨busy, _, ended, -⟩ := ends
      rcases starts with ⟨n, args, slots, enters⟩ | ⟨how, completes, none⟩
      · cases enters.symm.trans ended
      · refine .ends completes none busy.stack ?_
        refine coherent.settles coherent.step coherent.grows idle ?_
          (machinery_eq busy.stack busy.context)
        show m.step.control.refs = []
        rw [completes]
        exact none
  | enclosed _ _ _ runs =>
      rcases starts with ⟨n, args, slots, enters⟩ | ⟨how, completes, -⟩
      · cases enters.symm.trans runs
      · cases completes.symm.trans runs
  | @called c h _ pushed context enters _ =>
      rcases coherent.step.returns enters pushed with always | ⟨k, r, within, left, back, same⟩
      · exact .stays always
      · have coherent' := coherent.step.iterate k
        have grows : m.world.shapes.Grows (Machine.step^[k] m.step).world.shapes :=
          coherent.grows.trans (coherent.step.grows_iterate k)
        have local_ : ∃ s, (Machine.step^[k] m.step).context = m.context.withLocals s := by
          obtain ⟨s, context⟩ := context
          obtain ⟨t, same⟩ := same
          exact ⟨t, by rw [same, context, Context.withLocals_withLocals]⟩
        obtain ⟨c', below', slots, slot, returning⟩ := coherent'.returning left
        obtain ⟨same, rfl⟩ := List.cons.inj (back.symm.trans returning.stack)
        cases same
        obtain ⟨restored, -, after⟩ := returning.restored coherent'
        have next : Machine.step^[k + 1] m.step = (Machine.step^[k] m.step).step :=
          Function.iterate_succ_apply' _ _ _
        obtain ⟨how, completes, none⟩ := resumeCall_plain
          ((Machine.step^[k] m.step).closed c m.stack slots) c.request
          (resumed c.request.type.results slot r)
        rw [← returning.step_eq coherent', ← next] at completes
        rw [← next] at restored after
        refine .returns within left back returning.finished
          (returning.gives coherent' coherent grows idle local_) completes none restored ?_
        refine coherent.settles (coherent.step.iterate (k + 1))
          (coherent.grows.trans (coherent.step.grows_iterate (k + 1))) idle ?_ (machinery_eq restored ?_)
        · show Control.refs (Machine.step^[k + 1] m.step).control = []
          rw [completes]
          exact none
        · obtain ⟨s, context⟩ := local_
          obtain ⟨t, same⟩ := after
          exact ⟨t, by rw [same, context, Context.withLocals_withLocals]⟩

/-! ## Every run -/

/-- On every run of a public script the counts of references go through the calls as they should. -/
theorem countsBalance_after (level : Option LogLevel) {script : Block}
    (isPublic : Block.isPublic script = true) : CountsBalance (after level script) := by
  have coherent := coherent_after level isPublic
  refine ⟨fun n r known => (coherent n).balanced known.not_env, fun n runs => (coherent n).doubled runs,
    fun n r runs once => ((coherent n).doubled runs).count_flatMap once, fun n calls => ?_⟩
  simp only [after_add level script (n + 1), after_succ]
  exact (coherent n).callCounts calls

/-- A function that passes its argument on to another one. -/
def nestedCalls : Block :=
  [(⟨false, false⟩, .plain (.store (.scoped "s") none)),
    (⟨false, false⟩, .plain (.reference (.scoped "r") "r" (.int 7))),
    (⟨false, false⟩, .func (.scoped "f") (.scoped "s") (.generic ⟨[.externref], []⟩) "inner" false []
      [(⟨false, false⟩, .plain (.strong (.var (.scoped "a0"))))]),
    (⟨false, false⟩, .func (.scoped "g") (.scoped "s") (.generic ⟨[.externref], []⟩) "outer" false
      [.scoped "f"] [(⟨false, false⟩, .call (.scoped "f") [.var (.scoped "a0")] [])]),
    (⟨false, false⟩, .call (.scoped "g") [.var (.scoped "r")] [])]

theorem nestedCalls_runs : (after none nestedCalls 12).control = .run := by
  have shape : (match (after none nestedCalls 12).control with
      | .run => true
      | _ => false) = true := by decide +kernel
  generalize (after none nestedCalls 12).control = control at shape ⊢
  cases control with
  | run => rfl
  | _ => cases shape

/-- While the inner closure runs, the two calls hold the reference four times, and the variable, the two
argument lists and the two arguments of the closures hold it five times. -/
theorem countsBalance_after_nestedCalls : Block.isPublic nestedCalls = true ∧
    ((after none nestedCalls 12).machinery.flatMap Prod.snd).count ⟨1⟩ = 4 ∧
      (after none nestedCalls 12).world.strong ⟨1⟩ = 5 + 4 := by
  have isPublic : Block.isPublic nestedCalls = true := by decide
  have runs := nestedCalls_runs
  have known : (after none nestedCalls 12).world.shapes.IsReferent ⟨1⟩ :=
    World.isReferent_of_payload? (p := .int 7) (by decide +kernel)
  have counts := countsBalance_after none isPublic
  have held := counts.nested 12 ⟨1⟩ (.inl runs) (by decide +kernel)
  have calls : (after none nestedCalls 12).machinery.length = 2 := by decide +kernel
  rw [calls] at held
  have count := counts.balanced 12 ⟨1⟩ known
  have idle : (after none nestedCalls 12).control.refs = [] := by rw [runs]; rfl
  have kept : (after none nestedCalls 12).kept.count ⟨1⟩ = 5 := by decide +kernel
  rw [held, idle, kept] at count
  exact ⟨isPublic, held, count⟩

end Machine

end HostEmbedding
