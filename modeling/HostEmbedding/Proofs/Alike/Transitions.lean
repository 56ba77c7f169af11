import HostEmbedding.Proofs.Alike.Calls
import HostEmbedding.Proofs.Alike.Reading

/-!
# Transitions of two runs

Two machines that are about to do variations of the same thing do it with one transition each. The
first can come behind the second by flushes that only it has to do; and generic code that reads its
parameters itself has to do so before its body is where the typed code starts.
-/

namespace HostEmbedding

variable {δ : Variation}

namespace Machine

variable {m n : Machine} {s : Step}

def OnTop (m : Machine) (s : Step) : Prop :=
  ∃ outer index g rest below, m.stack = .block outer index ((g, s) :: rest) :: below

theorem OnTop.of_stack {m' : Machine} (running : m.OnTop s) (same : m'.stack = m.stack) : m'.OnTop s := by
  unfold OnTop
  rw [same]
  exact running

/-- A top-level step is about to begin with no event that is compared. -/
def Silent (δ : Variation) (outer : Bool) (m : Machine) : Prop :=
  outer = true → m.context = .top → m.world.events.filter δ.shows = []

inductive Stage (δ : Variation) (m n : Machine) : Prop
  | begins {outer : Bool} {i j : Nat} {g : Guard} {s s' : Step} {rest rest' : Block}
      {below below' : List Frame} (stack : m.stack = .block outer i ((g, s) :: rest) :: below)
      (stack' : n.stack = .block outer j ((g, s') :: rest') :: below') (first : Step.Like δ s s')
      (near : Near δ m n) (control : m.control = .run) (control' : n.control = .run)
      (silent : Silent δ outer m)
  | blockEnds {outer : Bool} {i j : Nat} {below below' : List Frame}
      (stack : m.stack = .block outer i [] :: below) (stack' : n.stack = .block outer j [] :: below')
      (near : Near δ m n) (control : m.control = .run) (control' : n.control = .run)
  | ended (finished : Finished δ m n)
  | reported {s : Step} {a a' : Answer} (near : Near δ m n) (running : m.OnTop s)
      (control : m.control = .complete (.done a)) (control' : n.control = .complete (.done a'))
      (among : δ = .flushes) (reports : s.Reports a a')
  | enters (near : Near δ m n) (id : NativeId) (args : List (Slot ObjId)) (slots : SlotArray)
      (control : m.control = .enter id args slots) (control' : n.control = .enter id args slots)
  | returns (near : Near δ m n) (r : EngineResult) (control : m.control = .engine r)
      (control' : n.control = .engine r)
  | halted {ending ending' : List Event} (near : Near δ m n) (control : m.control = .halted ending)
      (control' : n.control = .halted ending')
      (shown : ending'.filter δ.shows = ending.filter δ.shows)

/-- Two machines that are about to run blocks, of which the first may begin with flushes that the second
does not have. -/
structure Behind (δ : Variation) (m n : Machine) (outer : Bool) (steps steps' : Block)
    (below below' : List Frame) : Prop where
  stack : ∃ i, m.stack = .block outer i steps :: below
  stack' : ∃ j, n.stack = .block outer j steps' :: below'
  steps : Block.Like δ steps steps'
  near : Near δ { m with stack := below } { n with stack := below' }
  control : m.control = .run
  control' : n.control = .run
  silent : Silent δ outer m

inductive Leads (δ : Variation) (m n : Machine) : Prop
  | stage (stage : Stage δ m n)
  | behind {outer : Bool} {steps steps' : Block} {below below' : List Frame}
      (behind : Behind δ m n outer steps steps' below below')

/-- A body that would show in which of the two shapes it runs: it asks for a caller that it has in one
run alone, or ends with a trap that it may raise in one run alone. -/
inductive Apart (m n : Machine) : Prop
  | caller {a b : Activation} {x : Action} (control : m.control = .run) (running : m.OnTop (.plain x))
      (asks : x.asksCaller = true) (context : m.context = .body a) (context' : n.context = .body b)
      (other : b.code.shape.hasCaller ≠ a.code.shape.hasCaller)
  | trap {a b : Activation} {t : Trap} {saved : Context} {below : List Frame}
      (control : m.control = .complete (.trapped t)) (stack : m.stack = .activation saved :: below)
      (context : m.context = .body a) (context' : n.context = .body b)
      (other : b.code.shape.fallible ≠ a.code.shape.fallible)

/-! ## Steps begin -/

theorem Concludes.stage (concludes : Concludes δ s m n) (running : m.OnTop s) : Stage δ m n := by
  obtain ⟨near, c, c', control, control', ends⟩ := concludes
  cases ends with
  | same => exact .ended ⟨near, c, control, control'⟩
  | reports among reports => exact .reported near running control control' among reports

theorem CallsAlike.stage (calls : CallsAlike δ m n) : Stage δ m n := by
  cases calls with
  | finished finished => exact .ended finished
  | enters near id args slots control control' => exact .enters near id args slots control control'

/-- A block begins on top of the same frame. -/
theorem Near.enclose (near : Near δ m n) {f f' : Frame} (frame : f.Alike δ f') {body body' : Block}
    (steps : Block.Like δ body body') :
    Behind δ ((m.push f).runBlock false body) ((n.push f').runBlock false body') false body body'
      (f :: m.stack) (f' :: n.stack) :=
  ⟨⟨0, rfl⟩, ⟨0, rfl⟩, steps, ⟨near.world, near.globals, near.context, .cons frame near.stack, near.answers⟩,
    rfl, rfl, fun inner => nomatch inner⟩

/-- The next round of a loop. -/
theorem Near.loop (near : Near δ m n) (left : Nat) {body body' : Block} (steps : Block.Like δ body body') :
    Leads δ (m.loop left body) (n.loop left body') := by
  cases left with
  | zero => exact .stage (.ended (near.finish .ok))
  | succ left => exact .behind (near.enclose (.loop left steps) steps)

theorem Near.thread (near : Near δ m n) {body body' : Block} (steps : Block.Like δ body body') :
    Leads δ (m.thread body) (n.thread body') := by
  have frame := Frame.Alike.thread near.context near.world.frames near.world.thread
  have behind : Behind δ (m.thread body) (n.thread body') true body body'
      (.thread m.context m.world.thread :: m.stack) (.thread n.context n.world.thread :: n.stack) :=
    ⟨⟨0, rfl⟩, ⟨0, rfl⟩, steps,
      ⟨{ near.world with frames := rfl, thread := fun _ => rfl }, near.globals, .thread,
        .cons frame near.stack, near.answers⟩, rfl, rfl, fun _ top => nomatch top⟩
  exact .behind behind

/-- A step begins in both machines. -/
theorem Near.begin (near : Near δ m n) (left : m.Coherent) (right : n.Coherent)
    (control : m.control = .run) (control' : n.control = .run) (g : Guard) {s' : Step}
    (running : m.OnTop s) (first : Step.Like δ s s') (isPublic : s.isPublic = true)
    (isPublic' : s'.isPublic = true) (together : ¬ Apart m n) :
    Leads δ (m.begin g s) (n.begin g s') := by
  have abreast : Abreast δ m n [] m n :=
    ⟨left.busy (by rw [control]; rfl), right.busy (by rw [control']; rfl), near⟩
  cases first with
  | plain a =>
      have concludes := abreast.perform g isPublic fun asks x y context context' => by
        by_contra other
        exact together (.caller control running asks context context' other)
      have ends : Ends m (m.perform g a) := (left.busy (by rw [control]; rfl)).perform g isPublic
      exact .stage (concludes.stage (running.of_stack ends.busy.stack))
  | func shapes steps =>
      exact .stage (.ended (abreast.newFunc _ _ (.of shapes steps) isPublic isPublic' _))
  | call f args bind => exact .stage (abreast.call f args bind).stage
  | typedCall f args bind => exact .stage (abreast.typedCall f args bind).stage
  | branch taken other =>
      refine abreast.withOperand (fun _ _ finished => .stage (.ended finished)) fun x _ _ => ?_
      refine abreast.withOperand (fun _ _ finished => .stage (.ended finished)) fun y _ _ => ?_
      split
      · next i j _ _ =>
          dsimp only
          cases compare _ i j with
          | true => exact .behind (near.enclose (.branch true) taken)
          | false => exact .behind (near.enclose (.branch false) other)
      · exact .stage (.ended (near.finish _))
  | loop steps => exact near.loop _ steps
  | thread steps => exact near.thread steps

/-! ## Through the engine -/

/-- The function of a call that is about to enter the engine has a live handle. -/
theorem Entering.live {c : HostCall} {h : Handle} {callee : Callee} {st : NativeStore}
    (entering : m.Entering c h callee st) (coherent : m.Coherent) :
    m.world.handle? c.request.func = some h := by
  obtain ⟨below, stack⟩ := entering.stack
  refine World.handle?_eq_some.mpr ⟨entering.known, coherent.world.alive ?_⟩
  unfold held owns
  rw [stack]
  simp [Frame.refs, CallRequest.refs]

/-- What is about to enter the engine in one machine is about to enter it in the other, where the body is
a variation of the code. -/
theorem Near.entering {c : HostCall} {h : Handle} {callee : Callee} {st : NativeStore}
    (near : Near δ m n) (left : m.Coherent) (right : n.Coherent) (entering : m.Entering c h callee st)
    (same : n.control = m.control) :
    ∃ code, callee.code.Like δ code ∧ n.Entering c h { callee with code := code } st := by
  obtain ⟨c', h', ⟨type, native, env, closure, code, captures⟩, st', entering'⟩ :=
    right.entering (same.trans entering.control)
  obtain ⟨below, stack⟩ := entering.stack
  obtain ⟨below', stack'⟩ := entering'.stack
  have frames := near.stack
  rw [stack, stack'] at frames
  obtain rfl : c' = c := by
    cases frames with
    | cons frame rest =>
        cases frame with
        | hostCall c => rfl
  have found := entering.live left
  have found' := entering'.live right
  obtain rfl : h' = h := Option.some.inj (found'.symm.trans ((near.world.handle? _).trans found))
  have func' := entering'.callable.func
  have func := entering.callable.func
  unfold World.nativeFunc? at func func'
  rw [near.world.ofHandle left.world right.world found] at func'
  have funcs := Option.some.inj (func'.symm.trans func)
  simp only [NativeFunc.mk.injEq, Callback.host.injEq] at funcs
  obtain ⟨rfl, types, rfl⟩ := funcs
  obtain rfl : type = callee.type := by
    have read := congrArg FuncType.ofNative types
    rwa [FuncType.ofNative_toNative, FuncType.ofNative_toNative] at read
  obtain ⟨k, entry⟩ := entering.callable.env
  obtain ⟨k', entry'⟩ := entering'.callable.env
  obtain ⟨e', there, alike⟩ := near.world.entry entry
  cases entry'.symm.trans there
  obtain rfl : closure = callee.closure := by
    have object := alike.object
    dsimp only at object
    cases object
    rfl
  obtain ⟨code', closure', like⟩ := near.world.closure? entering.callable.closure
  cases entering'.callable.closure.symm.trans closure'
  have store := near.world.nativeStore? left.world right.world entering.callable.isStore
    entering.callable.storeAlive entering'.callable.storeAlive
  have there : n.world.nativeStore? callee.native = some st' := entering'.store
  obtain rfl : st' = st := Option.some.inj (there.symm.trans (store.trans entering.store))
  exact ⟨code, like, entering'⟩

/-- A body that starts in both machines, on the same arguments. -/
structure BothStart (δ : Variation) (m n : Machine) (c : HostCall) (h : Handle) (callee : Callee)
    (code : HostCode) (depth : UInt32) : Prop where
  like : callee.code.Like δ code
  kinds : c.request.args.map Val.kind = callee.code.shape.funcType.params
  here : m.step = m.startBody c h callee depth
  there : n.step = n.startBody c h { callee with code := code } depth

/-- The gate refuses a call in both machines or in neither. -/
theorem Near.enter (near : Near δ m n) (left : m.Coherent) (right : n.Coherent) {id : NativeId}
    {args : List (Slot ObjId)} {slots : SlotArray} (control : m.control = .enter id args slots)
    (same : n.control = m.control) :
    Stage δ m.step n.step ∨ ∃ c h callee code depth, BothStart δ m n c h callee code depth := by
  obtain ⟨c, h, callee, st, entering⟩ := left.entering control
  obtain ⟨code, like, entering'⟩ := near.entering left right entering same
  have here := entering.step_eq left.world.aborted
  have there := entering'.step_eq right.world.aborted
  dsimp only at there
  split_ifs at here there with interrupted exhausted
  · left
    rw [here, there]
    exact .returns ((near.withWorld (near.world.modifyNativeStore callee.native _)).withControl _ _) _ rfl rfl
  · left
    rw [here, there]
    exact .returns (near.withControl _ _) _ rfl rfl
  · exact .inr ⟨c, h, callee, code, st.depth + 1, like, entering.kinds, here, there⟩

/-- A body that starts in both machines is about to run variations of its steps, once generic code has
read its parameters. -/
theorem Near.start {c : HostCall} {h : Handle} {callee : Callee} {code : HostCode} {depth : UInt32}
    (near : Near δ m n) (right : n.Coherent) (starts : BothStart δ m n c h callee code depth) :
    ∃ k, (δ = .flushes → k = 0) ∧ Leads δ m.step (Machine.step^[k] n.step) := by
  obtain ⟨like, kinds, here, there⟩ := starts
  have coherent := right.step
  rw [there] at coherent
  rw [here, there]
  obtain ⟨type, native, env, closure, code', captures⟩ := callee
  dsimp only at like kinds
  have started := (near.world.modifyNativeStore native fun s => { s with depth := s.depth + 1 }).started
    h.store closure (like.refs_scalars kinds)
  cases like with
  | of shapes steps =>
      cases shapes with
      | same =>
          exact ⟨0, fun _ => rfl, .behind ⟨⟨0, rfl⟩, ⟨0, rfl⟩, steps, ⟨started, near.globals,
            .body _ (.of (.same _) steps), .cons (.activation near.context) near.stack, near.answers⟩,
            rfl, rfl, fun _ top => nomatch top⟩⟩
      | typed among sig caller fallible caller' fallible' =>
          exact ⟨0, fun _ => rfl, .behind ⟨⟨0, rfl⟩, ⟨0, rfl⟩, steps, ⟨started, near.globals,
            .body _ (.of (.typed among sig caller fallible caller' fallible') steps),
            .cons (.activation near.context) near.stack, near.answers⟩, rfl, rfl, fun _ top => nomatch top⟩⟩
      | generic among sig caller fallible =>
          obtain ⟨ss, decoded, -⟩ := sig.params.decode_ok kinds
          have scalars : (Shape.typed sig caller fallible).scalars c.request.args = ss :=
            Shape.scalars_eq decoded
          have count : c.request.args.length = sig.params.types.length := by
            have lengths := congrArg List.length (kinds.trans sig.params.kinds_eq)
            rwa [List.length_map, List.length_map] at lengths
          rw [TypeList.decode_eq] at decoded
          have locals : Activation.initialLocals (c.request.args.map .ofVal) =
              Activation.initialLocals (([] : List (Scalar ObjId)) ++ c.request.args.map .ofVal) := rfl
          obtain ⟨k, j, events, reached, shown⟩ := coherent.reading δ rfl rfl locals count decoded rfl
          refine ⟨k, fun flushes => absurd flushes among, .behind ⟨⟨0, rfl⟩, ⟨j, congrArg Machine.stack reached⟩,
            steps, ?_, rfl, congrArg Machine.control reached, fun _ top => nomatch top⟩⟩
          rw [reached]
          subst scalars
          exact ⟨{ started with events := shown.trans started.events }, near.globals,
            .body _ (.of (.generic among sig caller fallible) steps),
            .cons (.activation near.context) near.stack, near.answers⟩

end Machine

end HostEmbedding
