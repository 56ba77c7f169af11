import HostEmbedding.Proofs.Machine.Stack

/-!
# What a call does

A call of a function, told without the engine: the store of the function is flushed, the arguments are
checked, the store refuses the call or admits it, the closure of the function runs once on the
arguments, and the way it ends decides how the call ends.
-/

namespace HostEmbedding

/-! ## The reference -/

/-- The first position at which values are not of their declared kinds. -/
structure FirstMismatch (declared : List Kind) (vals : List (Val ObjId)) (i : Nat)
    (expected found : Kind) : Prop where
  declares : declared[i]? = some expected
  holds : (vals.map Val.kind)[i]? = some found
  differ : found ≠ expected
  before : (vals.map Val.kind).take i = declared.take i

namespace FirstMismatch

variable {declared : List Kind} {vals : List (Val ObjId)} {i j : Nat} {expected found expected' found' : Kind}

/-- Past a position with another kind the kinds no longer agree. -/
theorem disagrees (first : FirstMismatch declared vals i expected found) {n : Nat} (past : i < n) :
    (vals.map Val.kind).take n ≠ declared.take n := by
  intro agree
  have here := congrArg (fun kinds => kinds[i]?) agree
  simp only [List.getElem?_take_of_lt past, first.declares, first.holds, Option.some.injEq] at here
  exact first.differ here

/-- A position is the only one at which values are first not of their declared kinds. -/
theorem unique (first : FirstMismatch declared vals i expected found)
    (second : FirstMismatch declared vals j expected' found') :
    i = j ∧ expected = expected' ∧ found = found' := by
  -- Before the other position the kinds agree, so none can come before the other one.
  have notBefore : ¬ i < j := fun less => first.disagrees less second.before
  have notAfter : ¬ j < i := fun less => second.disagrees less first.before
  obtain rfl : i = j := by omega
  exact ⟨rfl, Option.some.inj (first.declares.symm.trans second.declares),
    Option.some.inj (first.holds.symm.trans second.holds)⟩

end FirstMismatch

def Trap.raised (code : TrapCode) : Trap := ⟨"wasm trap: " ++ code.text, some code⟩

/-- The values that a closure has given back; one that is over without giving any back gives none. -/
def Completion.given? : Completion → Option (List (Val ObjId))
  | .done _ => some []
  | .gaveBack ss => some (TypeList.encode ss)
  | _ => none

/-- How a call ends when its closure has ended: with the values given back if they are of exactly the
declared kinds, with the message of a trap and no code, or with a panic. A trap in code whose type
leaves no room for one is a panic. -/
inductive Closes (results : List Kind) (fallible : Bool) (how : Completion) : CallOutcome → Prop where
  | values {vals : List (Val ObjId)} (given : how.given? = some vals)
      (kinds : vals.map Val.kind = results) : Closes results fallible how (.returned vals)
  | count {vals : List (Val ObjId)} (given : how.given? = some vals)
      (differ : vals.length ≠ results.length) :
      Closes results fallible how (.panicked (.wrongResultCount results.length vals.length))
  | kind {vals : List (Val ObjId)} {i : Nat} {expected found : Kind} (given : how.given? = some vals)
      (count : vals.length = results.length) (first : FirstMismatch results vals i expected found) :
      Closes results fallible how (.panicked (.wrongResultKind i expected found))
  | trap {t : Trap} (trapped : how = .trapped t) (fails : fallible = true) :
      Closes results fallible how (.trapped ⟨t.message, none⟩)
  | raise {t : Trap} (trapped : how = .trapped t) (total : fallible = false) :
      Closes results fallible how (.panicked (.text t.message))
  | panic {f : Fault} (panicked : how = .panicked f) : Closes results fallible how (.panicked f)

def CallOutcome.tells (w : World) : CallOutcome → Completion
  | .returned vals => .done (.results (w.shownVals vals))
  | .trapped t => .trapped t
  | .panicked f => .panicked f

/-- The world once a call is counted and the store of its function is flushed. -/
def World.called (w : World) (c : CallRequest) (store : ObjId) : World :=
  ((w.retain c.func).retainAll (Val.refs c.args)).flush store

namespace Machine

def panicking (m : Machine) (c : CallRequest) (store : ObjId) (f : Fault) : Machine :=
  (m.withWorld ((m.world.called c store).releaseAll c.refs)).complete (.panicked f)

/-- A call waits for the engine: its slot is open, and its arguments are lent to the engine. -/
def waiting (m : Machine) (c : CallRequest) (h : Handle) : Machine :=
  { m with
    world := ((m.world.called c h.store).retainAll (Slot.refs (c.args.map Slot.ofVal))).pushFrame
    stack := .hostCall ⟨c, c.args.map Slot.ofVal⟩ :: m.stack
    control := .enter h.native (c.args.map Slot.ofVal) ⟨c.type.results.length, false⟩ }

def callFrames (m : Machine) (c : CallRequest) : List Frame :=
  .activation m.context :: .hostCall ⟨c, c.args.map Slot.ofVal⟩ :: m.stack

/-- The variables after a call: the results it returned are kept under the names they are bound to. -/
def bound (m : Machine) (names : List VarName) : CallOutcome → Machine
  | .returned vals => m.bindAll names (vals.map .ofVal)
  | _ => m

/-- The step that called goes on with the outcome of its call. -/
structure Resumes (m : Machine) (c : CallRequest) (o : CallOutcome) (next : Machine) : Prop where
  told : next.control = .complete (o.tells m.world)
  stack : next.stack = m.stack
  globals : next.globals = (m.bound c.bind o).globals
  context : next.context = (m.bound c.bind o).context

/-- The closure of a function has just been started for a call: on exactly its arguments, which are its
first locals, and in the store of the function. -/
structure Starts (m : Machine) (c : CallRequest) (h : Handle) (callee : Callee) (a : Activation)
    (start : Machine) : Prop where
  control : start.control = .run
  context : start.context = .body a
  stack : start.stack = .block true 0 callee.code.body :: m.callFrames c
  code : a.code = callee.code
  type : a.type = callee.type
  closure : a.closure = callee.closure
  store : a.store = h.store
  native : a.native = callee.native
  params : a.params = c.args
  locals : ∃ ss, a.locals = Activation.initialLocals ss ∧ TypeList.encode ss = c.args

/-- The closure of a call has ended for the first time after some transitions, and two transitions
later its call ends as the reference has it. -/
structure EndsAfter (m : Machine) (c : CallRequest) (a : Activation) (start : Machine) (n : Nat) :
    Prop where
  within : ∀ k ≤ n, (Machine.step^[k] start).Within (m.callFrames c) (.body a)
  stack : (Machine.step^[n + 1] start).stack = m.callFrames c
  context : ∃ locals, (Machine.step^[n + 1] start).context = .body { a with locals := locals }
  ends : ∃ how o, (Machine.step^[n + 1] start).control = .complete how ∧
    Closes a.type.results a.code.shape.fallible how o ∧
    Resumes ((Machine.step^[n + 2] start).closed ⟨c, c.args.map Slot.ofVal⟩ m.stack
      (Frame.slots m.stack)) c o (Machine.step^[n + 3] start)

/-- The store of a function refuses a call or admits it: for a pending interrupt, for as many calls
active on the store as it allows, or else by running the closure, which never ends or ends once. -/
structure Admission (m : Machine) (c : CallRequest) (h : Handle) (callee : Callee) (s : NativeStore)
    (called : Machine) : Prop where
  callable : called.world.Callable h callee
  type : callee.type = c.type
  store : m.world.nativeStore? callee.native = some s
  interrupt : s.interrupt = true →
    Resumes (called.step.closed ⟨c, c.args.map Slot.ofVal⟩ m.stack (Frame.slots m.stack)) c
      (.trapped (.raised .interrupt)) called.step.step
  overflow : s.interrupt = false →
    s.config.maxCallDepth.toNat ≤ m.entered.count callee.native →
    Resumes (called.step.closed ⟨c, c.args.map Slot.ofVal⟩ m.stack (Frame.slots m.stack)) c
      (.trapped (.raised .stackOverflow)) called.step.step
  runs : s.interrupt = false → m.entered.count callee.native < s.config.maxCallDepth.toNat →
    ∃ a, Starts m c h callee a called.step ∧
      ((∀ n, (Machine.step^[n] called.step).Within (m.callFrames c) (.body a)) ∨
        ∃ n, EndsAfter m c a called.step n)

/-- A call behaves as the reference: `called` is the machine once the step that calls has begun. -/
structure CallReference (m : Machine) (c : CallRequest) (h : Handle) (called : Machine) : Prop where
  flushed : (m.world.called c h.store).pending h.store = {}
  count : c.args.length ≠ c.type.params.length →
    called = m.panicking c h.store (.wrongArgCount c.type.params.length c.args.length)
  kind : c.args.length = c.type.params.length → c.args.map Val.kind ≠ c.type.params →
    ∃ i expected found, FirstMismatch c.type.params c.args i expected found ∧
      called = m.panicking c h.store (.wrongArgKind i expected found)
  enters : c.args.map Val.kind = c.type.params →
    called = m.waiting c h ∧ ∃ callee s, Admission m c h callee s called

/-! ## Ends of calls -/

theorem closes_ofValues {results : List Kind} {fallible : Bool} {how : Completion}
    {vals : List (Val ObjId)} (given : how.given? = some vals) :
    Closes results fallible how (.ofValues results vals) := by
  unfold CallOutcome.ofValues Activation.resultFault?
  by_cases count : vals.length = results.length
  · rw [if_neg (not_not.mpr count), if_neg (not_not.mpr rfl)]
    cases mismatch : Activation.firstMismatch results vals with
    | none => exact .values given ((Activation.firstMismatch_eq_none count).mp mismatch)
    | some p =>
        obtain ⟨i, expected, found⟩ := p
        obtain ⟨declares, holds, differ, before⟩ := Activation.firstMismatch_eq_some mismatch
        exact .kind given count ⟨declares, holds, differ, before⟩
  · rw [if_pos count]
    exact .count given count

/-- The outcome of a body is the one of the reference. -/
theorem closes_outcome (a : Activation) (how : Completion) :
    Closes a.type.results a.code.shape.fallible how (a.outcome how) := by
  cases how with
  | done answer => exact closes_ofValues rfl
  | gaveBack ss => exact closes_ofValues rfl
  | trapped t =>
      unfold Activation.outcome
      dsimp only
      split
      · next fails => exact .trap rfl fails
      · next total => exact .raise rfl (by simpa using total)
  | panicked f => exact .panic rfl

variable {m : Machine}

theorem assign_stack (m : Machine) (v : VarName) (item : Item) : (m.assign v item).stack = m.stack := by
  have kept (v : VarName) (s : Scope) : (m.setScope v s).stack = m.stack := by
    rcases Busy.setScope_cases m v s with ⟨a, context, same⟩ | same
    · rw [same]
    · rw [same]
  unfold Machine.assign
  dsimp only
  split
  · exact kept v _
  · exact kept v _

theorem bindAll_stack (m : Machine) (names : List VarName) (ss : List (Scalar ObjId)) :
    (m.bindAll names ss).stack = m.stack := by
  unfold Machine.bindAll
  induction names.zip ss generalizing m with
  | nil => rfl
  | cons p rest ih => exact (ih _).trans (assign_stack _ p.1 (.value p.2))

/-- A plain call hands its outcome to the step that called. -/
theorem resumes_resumeCall (m : Machine) {c : CallRequest} (plain : c.sig = none) (o : CallOutcome) :
    Resumes m c o (m.resumeCall c o) := by
  cases o with
  | returned vals =>
      unfold Machine.resumeCall Machine.returnCall
      dsimp only
      rw [plain]
      exact ⟨rfl, bindAll_stack m c.bind _, rfl, rfl⟩
  | trapped t => exact ⟨rfl, rfl, rfl, rfl⟩
  | panicked f => exact ⟨rfl, rfl, rfl, rfl⟩

theorem ofNative_ofCode (code : TrapCode) : Trap.ofNative (.ofCode code) = .raised code := by
  cases code <;> rfl

/-! ## The start of a call -/

/-- A call begins by counting its function and its arguments, flushing the store and checking the
arguments. -/
theorem call_eq {v : VarName} {args : List Operand} {id : ObjId} {type : FuncType} {h : Handle}
    {ss : List (Scalar ObjId)} (func : m.lookup v = some (.func id type))
    (handle : m.world.handle? id = some h) (values : m.operands? args = some ss)
    (names : List VarName) :
    let c : CallRequest := ⟨id, type, TypeList.encode ss, names, none⟩
    m.call v args names =
      match argumentFault? type.params (TypeList.encode ss) with
      | some f => m.panicking c h.store f
      | none => m.waiting c h := by
  unfold Machine.call Machine.withHandle Machine.withOperands
  rw [func]
  dsimp only
  rw [handle]
  dsimp only
  rw [values]
  rfl

theorem shapes_called (w : World) (c : CallRequest) (store : ObjId) :
    (w.called c store).shapes = w.shapes := by
  unfold World.called
  rw [(World.drains_flush _ store).shapes, World.shapes_retainAll, World.shapes_retain]

/-- A call of a live function that waits for the engine is about to enter it. -/
theorem Coherent.entering_waiting {c : CallRequest} {h : Handle} (coherent : (m.waiting c h).Coherent)
    (handle : m.world.handle? c.func = some h) :
    ∃ callee s, (m.waiting c h).Entering ⟨c, c.args.map Slot.ofVal⟩ h callee s ∧
      m.world.nativeStore? callee.native = some s := by
  let w := m.world.called c h.store
  let raw := c.args.map Slot.ofVal
  obtain ⟨call, h', callee, s, entering⟩ := coherent.entering (m := m.waiting c h) rfl
  obtain ⟨below, stack⟩ := entering.stack
  obtain ⟨rfl, -⟩ := Frame.hostCall.inj (List.cons.inj stack).1
  have shapes : (m.waiting c h).world.shapes = m.world.shapes :=
    (World.shapes_retainAll (Slot.refs raw) w).trans (shapes_called m.world c h.store)
  have known := entering.known
  rw [shapes] at known
  obtain rfl : h' = h :=
    Object.handle.inj (Option.some.inj (known.symm.trans (World.handle?_eq_some.mp handle).1))
  refine ⟨callee, s, entering, ?_⟩
  have natives : (m.waiting c h').world.natives = w.natives := World.natives_retainAll (Slot.refs raw) w
  have flushed : w.nativeStore? callee.native = some s :=
    (World.nativeStore?_of_natives natives callee.native).symm.trans entering.store
  have before := (World.drains_flush _ h'.store).nativeStore? flushed
  rwa [World.nativeStore?_of_natives (World.natives_retainAll _ _)] at before

/-! ## The store refuses a call -/

section

variable {c : HostCall} {h : Handle} {callee : Callee} {s : NativeStore} {below : List Frame}

/-- A call that the store refuses ends with the trap of the store. -/
theorem Entering.refuses (entering : m.Entering c h callee s) (coherent : m.Coherent)
    (stack : m.stack = .hostCall c :: below) (plain : c.request.sig = none) {code : TrapCode}
    (reason : s.reason? = some code) :
    Resumes (m.step.closed c below (Frame.slots below)) c.request (.trapped (.raised code))
      m.step.step := by
  obtain ⟨below', slots, stack', returning, -⟩ := entering.refusedFor coherent reason
  cases stack.symm.trans stack'
  rw [returning.step_eq coherent.step, returning.stacked.slots_eq, resumed, ofNative_ofCode]
  exact resumes_resumeCall _ plain _

/-! ## The closure of a call runs -/

/-- The body of a call that has ended ends its call as the reference has it. -/
theorem Ended.closes {a : Activation} {saved : Context} {slots : List (Option Fault)}
    {how : Completion} (ended : m.Ended a c saved below slots how) (coherent : m.Coherent)
    (plain : c.request.sig = none) :
    Closes a.type.results a.code.shape.fallible how (a.outcome how) ∧
      Resumes (m.step.closed c below (Frame.slots below)) c.request (a.outcome how) m.step.step := by
  refine ⟨closes_outcome a how, ?_⟩
  rw [ended.resumes coherent, (ended.returning coherent).stacked.slots_eq]
  exact resumes_resumeCall _ plain _

end

/-- A body that has started runs for ever, or it ends once and its call with it. -/
theorem Starts.runs {start : Machine} {c : CallRequest} {h : Handle} {callee : Callee} {a : Activation}
    (starts : Starts m c h callee a start) (coherent : start.Coherent) (plain : c.sig = none) :
    (∀ n, (Machine.step^[n] start).Within (m.callFrames c) (.body a)) ∨
      ∃ n, EndsAfter m c a start n := by
  have within : start.Within (m.callFrames c) (.body a) := by
    refine ⟨[.block true 0 callee.code.body], List.cons_ne_nil _ _, starts.stack, a.locals, ?_⟩
    exact starts.context
  rcases coherent.leaves within with always | ⟨n, before, above, leaves⟩
  · exact .inl always
  refine .inr ⟨n, ?_⟩
  have last := coherent.iterate (n + 1)
  have stack : (Machine.step^[n + 1] start).stack = m.callFrames c := above.stack
  have after (k : Nat) : Machine.step^[n + 1 + k + 1] start =
      (Machine.step^[n + 1 + k] start).step := Function.iterate_succ_apply' _ _ _
  obtain ⟨locals, context⟩ := above.context
  rcases leaves with ⟨how, control⟩ | ⟨r, control⟩
  · obtain ⟨b, call, below, slots, ended⟩ := last.ended control stack
    have call' := List.cons.inj (List.cons.inj (stack.symm.trans ended.stack)).2
    obtain ⟨rfl, rfl⟩ : call = ⟨c, c.args.map Slot.ofVal⟩ ∧ below = m.stack :=
      ⟨(Frame.hostCall.inj call'.1).symm, call'.2.symm⟩
    obtain rfl : b = { a with locals := locals } :=
      Context.body.inj (ended.context.symm.trans context)
    obtain ⟨closes, resumes⟩ := ended.closes last plain
    rw [← after 0, ← after 1] at resumes
    exact ⟨before, stack, ⟨locals, context⟩, how, _, control, closes, resumes⟩
  · obtain ⟨call, below, slots, slot, returning⟩ := last.returning control
    cases stack.symm.trans returning.stack

/-! ## Every call -/

/-- A call that waits for the engine is refused by its store, or runs its closure. -/
theorem Coherent.admission (coherent : m.Coherent) {c : CallRequest} {h : Handle}
    (waits : (m.waiting c h).Coherent) (handle : m.world.handle? c.func = some h)
    (plain : c.sig = none) : ∃ callee s, Admission m c h callee s (m.waiting c h) := by
  obtain ⟨callee, s, entering, store⟩ := waits.entering_waiting handle
  have step := entering.step_eq waits.world.aborted
  have active : s.depth.toNat = m.entered.count callee.native := by
    rw [← coherent.depth,
      World.depthOf_of_nativeObject? (World.nativeObject?_of_nativeStore? store)]
  refine ⟨callee, s, entering.callable, entering.type, store, fun pending => ?_,
    fun calm full => ?_, fun calm room => ?_⟩
  · exact entering.refuses waits rfl plain (if_pos pending)
  · have exhausted : s.config.maxCallDepth ≤ s.depth :=
      UInt32.le_iff_toNat_le.mpr (by rw [active]; exact full)
    exact entering.refuses waits rfl plain ((if_neg (by simp [calm])).trans (if_pos exhausted))
  · rw [calm, if_neg Bool.false_ne_true, if_neg fun full => by
      have full := UInt32.le_iff_toNat_le.mp full
      omega] at step
    have started : (m.waiting c h).step.Coherent := entering.step waits
    have starts : Starts m c h callee ⟨callee.code, callee.type, callee.closure, h.store,
        callee.native, c.args, Activation.initialLocals (callee.code.shape.scalars c.args),
        s.depth + 1, callee.type.results.length⟩ (m.waiting c h).step := by
      rw [step]
      exact ⟨rfl, rfl, rfl, rfl, rfl, rfl, rfl, rfl, rfl, _, rfl, Shape.encode_scalars entering.kinds⟩
    exact ⟨_, starts, starts.runs started plain⟩

/-- A call from a coherent machine behaves as the reference. -/
theorem Coherent.callReference (coherent : m.Coherent) (running : m.control = .run)
    (waits : Frame.Waits m.stack) {v : VarName} {id : ObjId} {type : FuncType}
    (func : m.lookup v = some (.func id type)) {args : List Operand} {ss : List (Scalar ObjId)}
    (values : m.operands? args = some ss) (names : List VarName) :
    ∃ h, m.world.handle? id = some h ∧
      CallReference m ⟨id, type, TypeList.encode ss, names, none⟩ h (m.call v args names) := by
  have busy := coherent.busy (by rw [running]; rfl)
  have usable := busy.lookup func
  obtain ⟨h, -, -, known, -⟩ := usable.fits
  have handle : m.world.handle? id = some h :=
    World.handle?_eq_some.mpr ⟨known, busy.alive usable id List.mem_cons_self⟩
  obtain ⟨k, entry⟩ := World.isHandle_iff.mp known
  have fits : h.Fits m.world.shapes := coherent.world.objects entry
  obtain ⟨store, isStore, -⟩ := fits.state
  have call := call_eq func handle values names
  have begun := (coherent.poised running waits).begun (coherent.call running waits v args names)
  refine ⟨h, handle, ?_, fun differ => ?_, fun same differ => ?_, fun kinds => ?_⟩
  · refine World.pending_flush (n := store) ?_
    rw [World.shapes_retainAll, World.shapes_retain]
    exact isStore
  · rw [call, argumentFault?, if_pos differ]
  · rw [call, argumentFault?, if_neg (not_not.mpr same)]
    cases mismatch : Activation.firstMismatch type.params (TypeList.encode ss) with
    | none => exact absurd ((Activation.firstMismatch_eq_none same).mp mismatch) differ
    | some p =>
        obtain ⟨i, expected, found⟩ := p
        obtain ⟨declares, holds, apart, before⟩ := Activation.firstMismatch_eq_some mismatch
        exact ⟨i, expected, found, ⟨declares, holds, apart, before⟩, rfl⟩
  · rw [argumentFault?_eq_none.mpr kinds] at call
    rw [call] at begun ⊢
    exact ⟨rfl, coherent.admission begun handle rfl⟩

/-- A step that calls does what the call does. -/
theorem Coherent.step_call (coherent : m.Coherent) (running : m.control = .run) {outer : Bool}
    {index : Nat} {g : Guard} {v : VarName} {args : List Operand} {names : List VarName} {rest : Block}
    {below : List Frame} (stack : m.stack = .block outer index ((g, .call v args names) :: rest) :: below) :
    m.step = m.call v args names := by
  rw [coherent.step_eq, running, stack]
  rfl

/-- In every state that a public script leads to, every call of a function that a variable holds, on any
arguments, behaves as the reference; and a step of the script that calls is such a call. -/
theorem callReference_after (level : Option LogLevel) {script : Block}
    (isPublic : Block.isPublic script = true) (n : Nat)
    (running : (after level script n).control = .run) (waits : Frame.Waits (after level script n).stack)
    {v : VarName} {id : ObjId} {type : FuncType}
    (func : (after level script n).lookup v = some (.func id type)) {args : List Operand}
    {ss : List (Scalar ObjId)} (values : (after level script n).operands? args = some ss)
    (names : List VarName) :
    (∃ h, (after level script n).world.handle? id = some h ∧
      CallReference (after level script n) ⟨id, type, TypeList.encode ss, names, none⟩ h
        ((after level script n).call v args names)) ∧
      ∀ outer index g rest below, (after level script n).stack =
        .block outer index ((g, .call v args names) :: rest) :: below →
          after level script (n + 1) = (after level script n).call v args names := by
  have coherent := coherent_after level isPublic n
  refine ⟨coherent.callReference running waits func values names, ?_⟩
  intro outer index g rest below stack
  rw [after_succ]
  exact coherent.step_call running stack

/-- A function that doubles its argument, and a call of it. -/
def doubling : Block :=
  [(⟨false, false⟩, .plain (.store (.scoped "s") none)),
    (⟨false, false⟩, .func (.scoped "f") (.scoped "s") (.generic ⟨[.i32], [.i32]⟩) "double" false []
      [(⟨false, false⟩, .plain (.add (.scoped "r") (.var (.scoped "a0")) (.var (.scoped "a0")))),
        (⟨false, false⟩, .plain (.giveBack [.var (.scoped "r")]))]),
    (⟨false, false⟩, .call (.scoped "f") [.literal (.i32 21)] [.scoped "x"])]

/-- The third step of the script calls the function as the reference has it. -/
theorem callReference_after_doubling : Block.isPublic doubling = true ∧
    (∃ h, (after none doubling 4).world.handle? ⟨3⟩ = some h ∧
      CallReference (after none doubling 4)
        ⟨⟨3⟩, ⟨[.i32], [.i32]⟩, [.i32 21], [.scoped "x"], none⟩ h (after none doubling 5)) := by
  have isPublic : Block.isPublic doubling = true := by decide
  have func : (after none doubling 4).lookup (.scoped "f") =
      some (.func ⟨3⟩ ⟨[.i32], [.i32]⟩) := rfl
  have values : (after none doubling 4).operands? [.literal (.i32 21)] = some [.i32 21] := rfl
  obtain ⟨called, follows⟩ :=
    callReference_after none isPublic 4 rfl trivial func values [.scoped "x"]
  refine ⟨isPublic, ?_⟩
  rw [follows _ _ _ _ _ rfl]
  exact called

end Machine

end HostEmbedding
