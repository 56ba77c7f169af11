import HostEmbedding.Proofs.Alike.Agreement

/-!
# Typed host functions

A typed closure is registered under the kinds of its parameters and results, whatever its shape. A call
that the engine admits runs it once on the decoded arguments, and what it gives back is returned encoded.
It cannot be told from generic code that decodes its arguments itself, nor from the same closure in
another shape.
-/

namespace HostEmbedding

namespace World

variable {w v : World}

/-! ## Registering -/

/-- A live function reaches one callee. -/
theorem Callable.unique {h : Handle} {callee callee' : Callee} (callable : w.Callable h callee)
    (callable' : w.Callable h callee') : callee' = callee := by
  obtain ⟨type, native, env, closure, code, captures⟩ := callee
  obtain ⟨type', native', env', closure', code', captures'⟩ := callee'
  have funcs := Option.some.inj (callable'.func.symm.trans callable.func)
  simp only [NativeFunc.mk.injEq, Callback.host.injEq] at funcs
  obtain ⟨rfl, -, rfl⟩ := funcs
  obtain ⟨k, entry⟩ := callable.env
  obtain ⟨k', entry'⟩ := callable'.env
  cases entry'.symm.trans entry
  cases callable'.closure.symm.trans callable.closure
  rfl

theorem shapes_guard (w : World) (op : GuardedOp) : (w.guard op).shapes = w.shapes := by
  unfold World.guard
  split <;> rfl

/-- What is known of a function that has been registered. -/
theorem shapes_register {store h : ObjId} {code : HostCode} {captures : Scope}
    (made : w.register store code captures = (some h, v)) :
    ∃ handle s c, v.shapes.IsHandle h handle ∧
      v.shapes.native? handle.native =
        some (.func ⟨s, code.shape.funcType.toNative, .host c.env⟩) ∧
      v.shapes.IsClosure c code captures := by
  let inner := (w.flush store).alloc (.closure code captures) 1
  let outer := inner.2.alloc (.env (some inner.1) code.shape.funcType store) 2
  have next : outer.1 = inner.1.env := congrArg ObjId.mk (Array.size_push _)
  have isClosure : outer.2.shapes.IsClosure inner.1 code captures :=
    (shapes_alloc _ _ _).object (shapes_alloc_self _ _ _)
  unfold World.register at made
  dsimp only at made
  split at made
  · cases made
  · next s _ =>
      let native := (outer.2.guard .funcNew).allocNative
        (.func ⟨s, code.shape.funcType.toNative, .host outer.1⟩)
      let shown := native.2.logAbout native.1 (.registered code.shape.funcType)
      let acquired := shown.acquire native.1 store (.func (some outer.1))
      have address : acquired.1 = h := Option.some.inj (congrArg Prod.fst made)
      have reached : acquired.2 = v := congrArg Prod.snd made
      have same : Same native.2 shown := same_logAbout _ _ _
      have func : shown.shapes.native? native.1 =
          some (.func ⟨s, code.shape.funcType.toNative, .host outer.1⟩) := by
        rw [same.shapes]
        exact shapes_allocNative_self _ _
      have closure : shown.shapes.IsClosure inner.1 code captures := by
        rw [same.shapes]
        refine (shapes_allocNative _ _).object ?_
        rw [shapes_guard]
        exact isClosure
      have grows : shown.shapes.Grows acquired.2.shapes := by
        have grows := shapes_alloc (shown.retain store)
          (.handle ⟨native.1, store, none, .func (some outer.1)⟩) 1
        rwa [shapes_retain] at grows
      rw [← address, ← reached]
      refine ⟨⟨native.1, store, none, .func (some outer.1)⟩, s, inner.1, isHandle_acquire _ _ _ _, ?_,
        grows.object closure⟩
      rw [← next]
      exact grows.native func

end World

/-- What a function that calls a closure reaches. -/
theorem World.Accounted.callable_of_calls {w : World} {held : List ObjId} {moving : List NativeId}
    (acc : w.Accounted held moving) {id c : ObjId} {h : Handle} (found : w.handle? id = some h)
    (calls : w.shapes.Calls id c) {code : HostCode} {captures : Scope}
    (isClosure : w.shapes.IsClosure c code captures) :
    ∃ callee, w.Callable h callee ∧ callee.code = code ∧ callee.captures = captures := by
  obtain ⟨h', s, type, known, native⟩ := calls
  obtain rfl : h' = h := by
    have handles := Option.some.inj (known.symm.trans (handle?_eq_some.mp found).1)
    simpa using handles
  obtain ⟨callee, callable, same⟩ := acc.callable found native
  simp only [NativeFunc.mk.injEq, Callback.host.injEq] at same
  obtain ⟨-, -, env⟩ := same
  have own := acc.env_of_attached callable.attached
  rw [← env, ObjId.env_inj] at own
  have known := (closure?_eq_some.mp callable.closure).1
  rw [← own] at known
  have objects := Option.some.inj (known.symm.trans isClosure)
  simp only [Object.closure.injEq] at objects
  exact ⟨callee, callable, objects.1, objects.2⟩

namespace Machine

variable {m : Machine}

/-- Of the world, setting a variable only drops what the variable held. -/
theorem assign_world (m : Machine) (v : VarName) (item : Item) :
    ∃ ids, (m.assign v item).world = m.world.releaseAll ids := by
  have kept (s : Scope) : (m.setScope v s).world = m.world := by
    unfold setScope
    split
    · rfl
    · split <;> rfl
  unfold assign
  dsimp only
  split
  · next i _ => exact ⟨i.refs, by rw [← kept]; rfl⟩
  · exact ⟨[], kept _⟩

theorem assign_shapes (m : Machine) (v : VarName) (item : Item) :
    (m.assign v item).world.shapes = m.world.shapes := by
  obtain ⟨ids, same⟩ := assign_world m v item
  rw [same]
  exact (World.drains_releaseAll _ _).shapes

theorem assign_nativeObject? (m : Machine) (v : VarName) (item : Item) :
    (m.assign v item).world.nativeObject? = m.world.nativeObject? := by
  obtain ⟨ids, same⟩ := assign_world m v item
  rw [same]
  exact (World.drains_releaseAll _ _).natives

/-- A function runs some code, with some captures. What it runs never changes. -/
def Implements (m : Machine) (id : ObjId) (code : HostCode) (captures : Scope) : Prop :=
  ∃ c, m.world.shapes.Calls id c ∧ m.world.shapes.IsClosure c code captures

/-- A step has registered host code under a name, with copies of its captures: the answer tells its type,
its native function is of that type, and the function under the name runs the code. -/
structure Registered (m : Machine) (name : VarName) (code : HostCode) (captures : Scope) : Prop where
  answer : m.control = .complete (.done (.text code.shape.funcType.text))
  function : ∃ id h callee, m.lookup name = some (.func id code.shape.funcType) ∧
    m.Implements id code captures ∧ m.world.handle? id = some h ∧ m.world.Callable h callee ∧
    callee.type = code.shape.funcType ∧ callee.code = code

/-- Registering public code into a store that a variable holds. -/
theorem Busy.registered {m₀ : Machine} (busy : Busy m₀ [] m) {name v : VarName} {s : ObjId}
    (store : m.lookup v = some (.store s)) {code : HostCode} (body : Block.isPublic code.body = true)
    {names : List VarName} {captures : Scope}
    (found : (names.mapM fun c => (m.lookup c).map fun i => (c.base, i)) = some captures) :
    Registered (m.newFunc name v code names) name code captures := by
  obtain ⟨id, w, made, busy'⟩ := busy.registers (busy.lookup store) body found name
  have registered : m.newFunc name v code names =
      ((m.withWorld w).assign name (.func id code.shape.funcType)).finish (.text code.shape.funcType.text) := by
    unfold Machine.newFunc Machine.withStore
    rw [store]
    dsimp only
    rw [found]
    dsimp only
    rw [made]
  obtain ⟨handle, s', c, isHandle, native, isClosure⟩ := World.shapes_register made
  have bound := lookup_assign (m.withWorld w) name (.func id code.shape.funcType)
  have same := assign_shapes (m.withWorld w) name (.func id code.shape.funcType)
  have implements : Implements (m.withWorld w) id code captures :=
    ⟨c, ⟨handle, s', _, isHandle, native⟩, isClosure⟩
  have implements' : ((m.withWorld w).assign name (.func id code.shape.funcType)).Implements id code captures := by
    unfold Implements
    rw [same]
    exact implements
  obtain ⟨c, calls, isClosure⟩ := implements'
  have alive := busy'.alive (busy'.lookup bound) id List.mem_cons_self
  have live : ((m.withWorld w).assign name (.func id code.shape.funcType)).world.handle? id = some handle :=
    World.handle?_eq_some.mpr ⟨by rw [same]; exact isHandle, alive⟩
  obtain ⟨callee, callable, coded, -⟩ := busy'.world.toAccounted.callable_of_calls live calls isClosure
  rw [registered]
  exact ⟨rfl, id, handle, callee, bound, ⟨c, calls, isClosure⟩, live, callable,
    callable.shape.symm.trans (by rw [coded]), coded⟩

/-! ## Calls -/

/-- How a call of a typed closure ends: with the encoding of the scalars of the result types that it gave
back, with nothing if it has no results, with the message of a trap if it may fail, or with a panic. -/
inductive EndsTyped (sig : TypedSignature) (fallible : Bool) : Completion → CallOutcome → Prop
  | unit (a : Answer) (none : sig.results.types = []) : EndsTyped sig fallible (.done a) (.returned [])
  | results (ss : List (Scalar ObjId)) (types : ss.map Scalar.type = sig.results.types) :
      EndsTyped sig fallible (.gaveBack ss) (.returned (TypeList.encode ss))
  | trap (t : Trap) (fails : fallible = true) :
      EndsTyped sig fallible (.trapped t) (.trapped ⟨t.message, none⟩)
  | panic (f : Fault) : EndsTyped sig fallible (.panicked f) (.panicked f)

/-- Values of the declared kinds raise no panic of the call itself. -/
theorem closes_values {results : List Kind} {fallible : Bool} {how : Completion}
    {vals : List (Val ObjId)} (given : how.given? = some vals) (kinds : vals.map Val.kind = results)
    {o : CallOutcome} (closes : Closes results fallible how o) : o = .returned vals := by
  have same {vals' : List (Val ObjId)} (given' : how.given? = some vals') : vals' = vals :=
    Option.some.inj (given'.symm.trans given)
  cases closes with
  | values given' => rw [same given']
  | count given' differ =>
      obtain rfl := same given'
      rw [← kinds, List.length_map] at differ
      exact absurd rfl differ
  | kind given' _ first =>
      obtain rfl := same given'
      have holds := first.holds
      rw [kinds, first.declares] at holds
      exact absurd (Option.some.inj holds).symm first.differ
  | trap trapped | raise trapped => rw [trapped] at given; cases given
  | panic panicked => rw [panicked] at given; cases given

/-- A typed closure ends its call as its type has it. -/
theorem EndsTyped.outcome {sig : TypedSignature} {fallible : Bool} {how : Completion} {o o' : CallOutcome}
    (ends : EndsTyped sig fallible how o) (closes : Closes sig.funcType.results fallible how o') : o' = o := by
  cases ends with
  | unit a none =>
      refine closes_values rfl ?_ closes
      show [] = sig.results.kinds
      rw [TypeList.kinds_eq, none]
      rfl
  | results ss types => exact closes_values rfl (sig.results.kinds_encode types) closes
  | trap t fails =>
      cases closes with
      | trap trapped => cases trapped; rfl
      | raise _ total => rw [fails] at total; cases total
      | values given | count given | kind given => cases given
      | panic panicked => cases panicked
  | panic f =>
      cases closes with
      | panic panicked => cases panicked; rfl
      | trap trapped | raise trapped => cases trapped
      | values given | count given | kind given => cases given

/-- The body that a call starts has the scalars of its parameters as its first locals. -/
theorem Entering.locals {c : HostCall} {h : Handle} {callee : Callee} {s : NativeStore}
    (entering : m.Entering c h callee s) (coherent : m.Coherent) (running : m.step.control = .run)
    {a : Activation} (context : m.step.context = .body a) :
    a.locals = Activation.initialLocals (callee.code.shape.scalars c.request.args) := by
  have step := entering.step_eq coherent.world.aborted
  split_ifs at step
  · rw [step] at running
    cases running
  · rw [step] at running
    cases running
  · rw [step] at context
    cases context
    rfl

/-- An admitted call of a typed closure: it starts on the decoded arguments, in order and under its
parameter types, and it runs for ever or ends once and its call with it. -/
structure RunsTyped (m : Machine) (c : CallRequest) (h : Handle) (callee : Callee) (sig : TypedSignature)
    (fallible : Bool) (start : Machine) (a : Activation) (ss : List (Scalar ObjId)) : Prop where
  starts : Starts m c h callee a start
  locals : a.locals = Activation.initialLocals ss
  decoded : sig.params.decode c.args = .ok ss
  types : ss.map Scalar.type = sig.params.types
  ends : (∀ n, (Machine.step^[n] start).Within (m.callFrames c) (.body a)) ∨ ∃ n, EndsAfter m c a start n ∧
    ∃ how, (Machine.step^[n + 1] start).control = .complete how ∧ ∀ o, EndsTyped sig fallible how o →
      Resumes ((Machine.step^[n + 2] start).closed ⟨c, c.args.map Slot.ofVal⟩ m.stack
        (Frame.slots m.stack)) c o (Machine.step^[n + 3] start)

/-- A call of a wrapped function on arguments of its kinds: the function is of the type that the signature
describes, and the engine refuses the call or runs its closure. -/
structure WrappedCall (m : Machine) (c : CallRequest) (h : Handle) (code : HostCode) (sig : TypedSignature)
    (fallible : Bool) (called : Machine) : Prop where
  type : c.type = sig.funcType
  waits : called = m.waiting c h
  admission : ∃ callee s, callee.code = code ∧ Admission m c h callee s called ∧
    (s.interrupt = false → m.entered.count callee.native < s.config.maxCallDepth.toNat →
      ∃ a ss, RunsTyped m c h callee sig fallible called.step a ss)

/-- A call of a function that runs some code, on arguments of its kinds: it waits for the engine, and what
the store of the function admits is that code. -/
structure CallsCode (m : Machine) (c : CallRequest) (h : Handle) (callee : Callee) (s : NativeStore)
    (code : HostCode) : Prop where
  handle : m.world.handle? c.func = some h
  waiting : (m.waiting c h).Coherent
  entering : (m.waiting c h).Entering ⟨c, c.args.map Slot.ofVal⟩ h callee s
  coded : callee.code = code
  admission : Admission m c h callee s (m.waiting c h)

/-- A call of a function that runs some code, from a coherent machine. -/
theorem Coherent.callsCode (coherent : m.Coherent) (running : m.control = .run)
    (waits : Frame.Waits m.stack) {v : VarName} {id : ObjId} {type : FuncType}
    (func : m.lookup v = some (.func id type)) {args : List Operand} {ss : List (Scalar ObjId)}
    (values : m.operands? args = some ss) (kinds : (TypeList.encode ss).map Val.kind = type.params)
    (names : List VarName) {code : HostCode} {captures : Scope} (implements : m.Implements id code captures) :
    ∃ h callee s, m.call v args names = m.waiting ⟨id, type, TypeList.encode ss, names, none⟩ h ∧
      CallsCode m ⟨id, type, TypeList.encode ss, names, none⟩ h callee s code := by
  obtain ⟨h, handle, reference⟩ := coherent.callReference running waits func values names
  obtain ⟨called, callee, s, admission⟩ := reference.enters kinds
  rw [called] at admission
  have busy := coherent.busy (by rw [running]; rfl)
  obtain ⟨h', live⟩ := busy.live_func func
  obtain rfl : h' = h := Option.some.inj (live.handle.symm.trans handle)
  have waiting : (m.waiting ⟨id, type, TypeList.encode ss, names, none⟩ h').Coherent :=
    coherent.waiting running waits live values names (fun _ none => nomatch none) kinds
  obtain ⟨callee', s', entering, store⟩ := waiting.entering_waiting handle
  obtain rfl := entering.callable.unique admission.callable
  obtain rfl : s = s' := Option.some.inj (admission.store.symm.trans store)
  have same : (m.waiting ⟨id, type, TypeList.encode ss, names, none⟩ h').world.shapes = m.world.shapes :=
    (World.shapes_retainAll _ _).trans (shapes_called _ _ _)
  obtain ⟨c, calls, isClosure⟩ := implements
  rw [← same] at calls isClosure
  obtain ⟨callee', callable, coded, -⟩ :=
    waiting.world.toAccounted.callable_of_calls (entering.live waiting) calls isClosure
  obtain rfl := callable.unique entering.callable
  exact ⟨h', callee, s, called, handle, waiting, entering, coded, admission⟩

/-- A call of a wrapped function from a coherent machine. -/
theorem Coherent.wrappedCall (coherent : m.Coherent) (running : m.control = .run)
    (waits : Frame.Waits m.stack) {v : VarName} {id : ObjId} {type : FuncType}
    (func : m.lookup v = some (.func id type)) {args : List Operand} {ss : List (Scalar ObjId)}
    (values : m.operands? args = some ss) (kinds : (TypeList.encode ss).map Val.kind = type.params)
    (names : List VarName) {code : HostCode} {captures : Scope} (implements : m.Implements id code captures)
    {sig : TypedSignature} {caller fallible : Bool} (wrapped : code.shape = .typed sig caller fallible) :
    ∃ h, m.world.handle? id = some h ∧
      WrappedCall m ⟨id, type, TypeList.encode ss, names, none⟩ h code sig fallible (m.call v args names) := by
  obtain ⟨h, callee, s, called, reached⟩ :=
    coherent.callsCode running waits func values kinds names implements
  obtain ⟨handle, waiting, entering, coded, admission⟩ := reached
  rw [called]
  have shape : type = sig.funcType := by
    have shaped := entering.callable.shape
    rw [coded, wrapped] at shaped
    exact (shaped.trans entering.type).symm
  subst shape
  refine ⟨h, handle, rfl, rfl, callee, s, coded, admission, fun calm room => ?_⟩
  obtain ⟨a, starts, ends⟩ := admission.runs calm room
  obtain ⟨ds, decoded, -⟩ := sig.params.decode_ok kinds
  have locals := entering.locals waiting starts.control starts.context
  rw [coded, wrapped] at locals
  have scalars : Shape.scalars (.typed sig caller fallible) (TypeList.encode ss) = ds :=
    Shape.scalars_eq decoded
  refine ⟨a, ds, starts, locals.trans (congrArg _ scalars), decoded, ?_, ?_⟩
  · rw [TypeList.decode_eq] at decoded
    exact TypeList.types_of_decodeTuple decoded
  · rcases ends with forever | ⟨n, ended⟩
    · exact .inl forever
    · obtain ⟨how, o, control, closes, resumes⟩ := ended.ends
      refine .inr ⟨n, ended, how, control, fun o' typed => ?_⟩
      rw [starts.type, entering.type, starts.code, coded, wrapped] at closes
      obtain rfl := typed.outcome closes
      exact resumes

/-! ## Other shapes -/

variable {n : Machine} {δ : Variation}

/-- The running body asks for its caller only if its closure takes one, and it ends with a trap only if its
closure may fail. -/
structure WellTyped (m : Machine) : Prop where
  caller : ∀ {a x}, m.context = .body a → m.control = .run → m.OnTop (.plain x) → x.asksCaller = true →
    a.code.shape.hasCaller = true
  trap : ∀ {a t saved below}, m.context = .body a → m.control = .complete (.trapped t) →
    m.stack = .activation saved :: below → a.code.shape.fallible = true

/-- A body whose closure is of another shape in the other run neither asks for its caller nor ends with a
trap. -/
structure Reserved (m n : Machine) : Prop where
  caller : ∀ {a b x}, m.context = .body a → n.context = .body b → b.code.shape ≠ a.code.shape →
    m.control = .run → m.OnTop (.plain x) → x.asksCaller = false
  trap : ∀ {a b t saved below}, m.context = .body a → n.context = .body b →
    b.code.shape ≠ a.code.shape → m.control = .complete (.trapped t) →
    m.stack ≠ .activation saved :: below

/-- The next transition of a body shows the shape of its closure: it asks for the caller, or the body ends
with a trap. -/
def showsShape (m : Machine) : Bool :=
  match m.context, m.control, m.stack with
  | .body _, .run, .block _ _ ((_, .plain x) :: _) :: _ => x.asksCaller
  | .body _, .complete (.trapped _), .activation _ :: _ => true
  | _, _, _ => false

theorem showsShape_of_asks {a : Activation} {x : Action} (context : m.context = .body a)
    (control : m.control = .run) (running : m.OnTop (.plain x)) : m.showsShape = x.asksCaller := by
  obtain ⟨outer, i, g, rest, below, stack⟩ := running
  unfold showsShape
  rw [context, control, stack]

theorem showsShape_of_traps {a : Activation} {t : Trap} {saved : Context} {below : List Frame}
    (context : m.context = .body a) (control : m.control = .complete (.trapped t))
    (stack : m.stack = .activation saved :: below) : m.showsShape = true := by
  unfold showsShape
  rw [context, control, stack]

theorem WellTyped.of_plain (plain : m.showsShape = false) : m.WellTyped where
  caller context control running asks := by
    rw [← showsShape_of_asks context control running, plain] at asks
    cases asks
  trap context control stack := by
    rw [showsShape_of_traps context control stack] at plain
    cases plain

theorem Reserved.of_plain (plain : m.showsShape = false) : Reserved m n where
  caller context _ _ control running := (showsShape_of_asks context control running).symm.trans plain
  trap context _ _ control stack := by
    rw [showsShape_of_traps context control stack] at plain
    cases plain

theorem Reserved.together (reserved : Reserved m n) : ¬ Apart m n := by
  intro apart
  cases apart with
  | caller control running asks context context' other =>
      rw [reserved.caller context context' (fun same => other (by rw [same])) control running] at asks
      cases asks
  | trap control stack context context' other =>
      exact reserved.trap context context' (fun same => other (by rw [same])) control stack

/-- Whatever typed code may do, generic code may do as well. -/
theorem WellTyped.together (wellTyped : m.WellTyped) (near : Near .generic m n) : ¬ Apart m n := by
  have allows {a b : Activation} (context : m.context = .body a) (context' : n.context = .body b) :
      (a.code.shape.hasCaller = true → b.code.shape.hasCaller = true) ∧
        (a.code.shape.fallible = true → b.code.shape.fallible = true) := by
    have contexts := near.context
    rw [context, context'] at contexts
    exact contexts.code.allows
  intro apart
  cases apart with
  | caller control running asks context context' other =>
      have takes := wellTyped.caller context control running asks
      exact other (((allows context context').1 takes).trans takes.symm)
  | trap control stack context context' other =>
      have fails := wellTyped.trap context control stack
      exact other (((allows context context').2 fails).trans fails.symm)

theorem eq_self_of_strictMono {p : ℕ → ℕ} (increasing : StrictMono p) (onto : ∀ x, x ∈ Set.range p)
    (k : ℕ) : p k = k :=
  congrArg (fun e : ℕ ≃o ℕ => e k)
    (Subsingleton.elim (increasing.orderIsoOfSurjective p onto) (OrderIso.refl ℕ))

/-- A script whose functions are of other shapes runs in step, as long as no body shows its shape. -/
theorem inStep_after (among : δ ≠ .flushes) (level : Option LogLevel) {script script' : Block}
    (isPublic : Block.isPublic script = true) (isPublic' : Block.isPublic script' = true)
    (like : Block.Like δ script script') {keeps : Machine → Machine → Prop}
    (together : ∀ {m n}, Stage δ m n → keeps m n → ¬ Apart m n) :
    ∃ q : ℕ → ℕ, StrictMono q ∧
      ∀ k, (∀ l < k, keeps (after level script l) (after level script' (q l))) →
        InStep δ (after level script k) (after level script' (q k)) := by
  obtain ⟨p, q, increasing, increasing', stages, skipped, -⟩ := stages_after level isPublic isPublic' like
  have all (x : ℕ) : x ∈ Set.range p := by
    by_contra left
    exact among (skipped x left).1
  have same := eq_self_of_strictMono increasing all
  refine ⟨q, increasing', fun k kept => ?_⟩
  have stage (l : ℕ) (upTo : l ≤ k) : Stage δ (after level script l) (after level script' (q l)) := by
    induction l using Nat.strongRecOn with
    | ind l ih =>
        have next := stages l fun j earlier => by
          rw [same]
          exact together (ih j earlier (by omega)) (kept j (by omega))
        rwa [same] at next
  exact (stage k (Nat.le_refl k)).inStep

/-! ## A whole run -/

theorem Implements.mono {id : ObjId} {code : HostCode} {captures : Scope}
    (implements : m.Implements id code captures) (grows : m.world.shapes.Grows n.world.shapes) :
    n.Implements id code captures := by
  obtain ⟨c, ⟨h, s, type, known, native⟩, isClosure⟩ := implements
  exact ⟨c, ⟨h, s, type, grows.object known, grows.native native⟩, grows.object isClosure⟩

/-- Typed host functions in a run. -/
structure WrappedFunctions (level : Option LogLevel) (script : Block) : Prop where
  /-- A step that wraps a closure of any shape registers a function of the kinds of its parameters and
  results, in order. -/
  registers : ∀ {k outer i g name store sig caller fallible label quiet names body rest below s captures},
    (after level script k).control = .run →
    (after level script k).stack = .block outer i
      ((g, .func name store (.typed sig caller fallible) label quiet names body) :: rest) :: below →
    (after level script k).lookup store = some (.store s) →
    (names.mapM fun c => ((after level script k).lookup c).map fun i => (c.base, i)) = some captures →
    Registered (after level script (k + 1)) name ⟨label, quiet, .typed sig caller fallible, body⟩ captures ∧
      sig.funcType = ⟨sig.params.types.map ScalarType.kind, sig.results.types.map ScalarType.kind⟩
  /-- It runs the same closure ever after. -/
  stays : ∀ {j k id code captures}, j ≤ k → (after level script j).Implements id code captures →
    (after level script k).Implements id code captures
  /-- A call of it on arguments of its kinds is refused by the engine, or runs the closure once on the
  decoded arguments and ends as the closure does. -/
  calls : ∀ {k v id type args ss code captures sig caller fallible},
    (after level script k).control = .run → Frame.Waits (after level script k).stack →
    (after level script k).lookup v = some (.func id type) →
    (after level script k).operands? args = some ss → (TypeList.encode ss).map Val.kind = type.params →
    (after level script k).Implements id code captures → code.shape = .typed sig caller fallible →
    ∀ names, (∃ h, (after level script k).world.handle? id = some h ∧
      WrappedCall (after level script k) ⟨id, type, TypeList.encode ss, names, none⟩ h code sig fallible
        ((after level script k).call v args names)) ∧
      ∀ outer i g rest below,
        (after level script k).stack = .block outer i ((g, .call v args names) :: rest) :: below →
        after level script (k + 1) = (after level script k).call v args names
  /-- A script that registers generic code instead, which decodes its arguments itself, runs in step. -/
  generic : ∀ {script'}, Block.isPublic script' = true → Block.Like .generic script script' →
    ∃ q : ℕ → ℕ, StrictMono q ∧ ∀ k, (∀ l < k, (after level script l).WellTyped) →
      InStep .generic (after level script k) (after level script' (q k))
  /-- A script that registers the same closures in other shapes runs in step, as long as these neither use
  their caller nor fail. -/
  shapes : ∀ {script'}, Block.isPublic script' = true → Block.Like .shapes script script' →
    ∃ q : ℕ → ℕ, StrictMono q ∧
      ∀ k, (∀ l < k, Reserved (after level script l) (after level script' (q l))) →
        InStep .shapes (after level script k) (after level script' (q k))

/-- In every public run typed host functions are registered, called and told apart in this way. -/
theorem wrappedFunctions_after (level : Option LogLevel) {script : Block}
    (isPublic : Block.isPublic script = true) : WrappedFunctions level script where
  registers {k outer i g name store sig caller fallible label quiet names body rest below s captures}
      running stack found captured := by
    have coherent := coherent_after level isPublic k
    obtain ⟨_, _, _, _, top, steps⟩ := coherent.block running
    cases stack.symm.trans top
    have busy := coherent.busy (by rw [running]; rfl)
    let code : HostCode := ⟨label, quiet, .typed sig caller fallible, body⟩
    have bodyPublic : Block.isPublic code.body = true := (Block.isPublic_cons steps).1
    have begins : after level script (k + 1) =
        (after level script k).newFunc name store code names := by
      rw [after_succ, coherent.step_eq, running, stack]
      rfl
    rw [begins]
    refine ⟨busy.registered found bodyPublic captured, ?_⟩
    rw [TypedSignature.funcType, TypeList.kinds_eq, TypeList.kinds_eq]
  stays {j k id code captures} le implements := by
    obtain ⟨d, rfl⟩ := Nat.exists_eq_add_of_le le
    rw [after_add]
    exact implements.mono ((coherent_after level isPublic j).grows_iterate d)
  calls {k v id type args ss code captures sig caller fallible} running waits func values kinds implements
      wrapped names := by
    have coherent := coherent_after level isPublic k
    refine ⟨coherent.wrappedCall running waits func values kinds names implements wrapped,
      fun outer i g rest below stack => ?_⟩
    rw [after_succ]
    exact coherent.step_call running stack
  generic {script'} isPublic' like := by
    have together {m n : Machine} (stage : Stage .generic m n) (wellTyped : m.WellTyped) : ¬ Apart m n :=
      wellTyped.together stage.near
    exact inStep_after (by decide) level isPublic isPublic' like together
  shapes {script'} isPublic' like := by
    have together {m n : Machine} (_ : Stage .shapes m n) (reserved : Reserved m n) : ¬ Apart m n :=
      reserved.together
    exact inStep_after (by decide) level isPublic isPublic' like together

/-- A typed function that takes an unsigned number and adds one. -/
def successor : HostCode :=
  ⟨"next", false, .typed ⟨.single .u32, .single .u32⟩ false false,
    [(⟨false, false⟩, .plain (.add (.scoped "r") (.var (.scoped "a0")) (.literal (.u32 1)))),
      (⟨false, false⟩, .plain (.giveBack [.var (.scoped "r")]))]⟩

/-- It is registered and called on `-2`. -/
def succeeding : Block :=
  [(⟨false, false⟩, .plain (.store (.scoped "s") none)),
    (⟨false, false⟩, .func (.scoped "f") (.scoped "s") (.typed ⟨.single .u32, .single .u32⟩ false false) "next"
      false [] successor.body),
    (⟨false, false⟩, .call (.scoped "f") [.literal (.i32 (-2))] [.scoped "x"])]

/-- The same script with a generic function, which reads its argument as unsigned first. -/
def succeedingGenerically : Block :=
  [(⟨false, false⟩, .plain (.store (.scoped "s") none)),
    (⟨false, false⟩, .func (.scoped "f") (.scoped "s") (.generic ⟨[.i32], [.i32]⟩) "next" false []
      ((⟨false, false⟩, .plain (.add (.scoped "a0") (.literal (.u32 0)) (.var (.scoped "a0")))) ::
        successor.body)),
    (⟨false, false⟩, .call (.scoped "f") [.literal (.i32 (-2))] [.scoped "x"])]

/-- The same script, but the closure takes a caller and may fail. -/
def succeedingFallibly : Block :=
  [(⟨false, false⟩, .plain (.store (.scoped "s") none)),
    (⟨false, false⟩, .func (.scoped "f") (.scoped "s") (.typed ⟨.single .u32, .single .u32⟩ true true) "next"
      false [] successor.body),
    (⟨false, false⟩, .call (.scoped "f") [.literal (.i32 (-2))] [.scoped "x"])]

theorem like_successor (δ : Variation) : Block.Like δ successor.body successor.body :=
  .cons (.plain _) (.cons (.plain _) .nil)

theorem like_succeedingGenerically : Block.Like .generic succeeding succeedingGenerically := by
  have shapes : Shape.Like .generic (.typed ⟨.single .u32, .single .u32⟩ false false)
      (.generic ⟨[.i32], [.i32]⟩)
      [(⟨false, false⟩, .plain (.add (.scoped "a0") (.literal (.u32 0)) (.var (.scoped "a0"))))] :=
    .generic (by decide) ⟨.single .u32, .single .u32⟩ false false
  exact .cons (.plain _) (.cons (.func shapes (like_successor _)) (.cons (.call _ _ _) .nil))

theorem like_succeedingFallibly : Block.Like .shapes succeeding succeedingFallibly :=
  .cons (.plain _) (.cons (.func (.typed rfl _ _ _ _ _) (like_successor _)) (.cons (.call _ _ _) .nil))

/-- The body neither asks for its caller nor traps, and once the script is over nothing runs. -/
theorem showsShape_succeeding (k : ℕ) : (after none succeeding k).showsShape = false := by
  rcases Nat.lt_or_ge k 15 with running | late
  · interval_cases k <;> rfl
  · have halted : (after none succeeding k).isHalted = true := isHalted_after rfl late
    unfold isHalted at halted
    unfold showsShape
    split at halted
    · next ending control =>
        rw [control]
        split <;> trivial
    · cases halted

/-- The second step of the script registers the function and the third calls it, and the script runs in
step with the one that registers it in generic form and with the one that registers it in another shape. -/
theorem wrappedFunctions_after_succeeding : Block.isPublic succeeding = true ∧
    Registered (after none succeeding 3) (.scoped "f") successor [] ∧
    (∃ h, WrappedCall (after none succeeding 4)
      ⟨⟨3⟩, ⟨[.i32], [.i32]⟩, [.i32 (-2)], [.scoped "x"], none⟩ h successor ⟨.single .u32, .single .u32⟩ false
      (after none succeeding 5)) ∧
    (∃ q : ℕ → ℕ, StrictMono q ∧
      ∀ k, InStep .generic (after none succeeding k) (after none succeedingGenerically (q k))) ∧
    ∃ q : ℕ → ℕ, StrictMono q ∧
      ∀ k, InStep .shapes (after none succeeding k) (after none succeedingFallibly (q k)) := by
  have isPublic : Block.isPublic succeeding = true := by decide
  have wrapped := wrappedFunctions_after none isPublic
  have registered : Registered (after none succeeding 3) (.scoped "f") successor [] :=
    (wrapped.registers (k := 2) rfl rfl rfl rfl).1
  have func : (after none succeeding 4).lookup (.scoped "f") = some (.func ⟨3⟩ ⟨[.i32], [.i32]⟩) := rfl
  have values : (after none succeeding 4).operands? [.literal (.i32 (-2))] = some [.i32 (-2)] := rfl
  have implements : (after none succeeding 4).Implements ⟨3⟩ successor [] := by
    obtain ⟨id, h, callee, found, implements, -⟩ := registered.function
    have known : (after none succeeding 3).lookup (.scoped "f") =
        some (.func ⟨3⟩ ⟨[.i32], [.i32]⟩) := rfl
    obtain ⟨rfl, -⟩ := Item.func.inj (Option.some.inj (known.symm.trans found))
    exact wrapped.stays (by decide) implements
  have calls := wrapped.calls (k := 4) rfl trivial func values rfl implements rfl [.scoped "x"]
  obtain ⟨⟨h, -, called⟩, follows⟩ := calls
  obtain ⟨q, increasing, generic⟩ := wrapped.generic (by decide) like_succeedingGenerically
  obtain ⟨q', increasing', shapes⟩ := wrapped.shapes (by decide) like_succeedingFallibly
  refine ⟨isPublic, registered, ⟨h, ?_⟩, ⟨q, increasing, fun k => ?_⟩, q', increasing', fun k => ?_⟩
  · rw [follows _ _ _ _ _ rfl]
    exact called
  · exact generic k fun l _ => .of_plain (showsShape_succeeding l)
  · exact shapes k fun l _ => .of_plain (showsShape_succeeding l)

end Machine

end HostEmbedding
