import HostEmbedding.Proofs.Views.Denoting
import HostEmbedding.Proofs.Views.Meeting

/-!
# Calls through the handles of a function

A call takes a handle of the function that it calls. Which of the handles it takes decides nothing: while the
call is running the frame of the call keeps one handle or the other, and the worlds hold the same objects and
differ in what is counted for them; and when the call has ended, nothing tells the machines apart.
-/

namespace HostEmbedding

namespace World

variable {w : World} {held : List ObjId} {moving : List NativeId} {id o : ObjId} {h : Handle}

/-- A live handle that is not its own owner is a view. -/
theorem Balanced.view_of (bal : w.Balanced held moving) (found : w.handle? id = some h) (view : h.owner = some o) :
    View.Of ⟨id, o, h.store⟩ w.shapes := by
  have known := (handle?_eq_some.mp found).1
  obtain ⟨k, isOwner, owner, -, store⟩ := bal.owner_known known
  have owns : ownerOf id h = o := by
    unfold ownerOf
    rw [view]
    rfl
  rw [owns] at isOwner
  refine ⟨h, k, known, view, rfl, ?_, isOwner, owner, store⟩
  cases env : h.state.env? with
  | none => rfl
  | some e => cases view.symm.trans (bal.env_known known env).1

end World

namespace Machine

variable {m a b : Machine} {x y o : ObjId} {h k : Handle} {base : List Frame}

/-! ## Calls through a handle -/

def startThrough (m : Machine) (h : Handle) (c : CallRequest) : Machine :=
  (m.withWorld ((m.world.retain c.func).retainAll (Val.refs c.args))).startCall h.native h.store c

def callThrough (m : Machine) (id : ObjId) (h : Handle) (type : FuncType) (args : List Operand)
    (names : List VarName) (sig : Option TypedSignature) : Machine :=
  m.withOperands args fun ss => m.startThrough h ⟨id, type, TypeList.encode ss, names, sig⟩

/-- A call goes through the handle that the variable holds. -/
theorem call_through {v : VarName} {type : FuncType} (holds : m.lookup v = some (.func x type))
    (found : m.world.handle? x = some h) (args : List Operand) (names : List VarName) :
    m.call v args names = m.callThrough x h type args names none := by
  unfold call withHandle
  rw [holds]
  dsimp only
  rw [found]
  rfl

theorem typedCall_through {v : VarName} {type : FuncType} {sig : TypedSignature}
    (holds : m.lookup v = some (.typedFunc x type sig)) (found : m.world.handle? x = some h) (args : List Operand)
    (names : List VarName) : m.typedCall v args names = m.callThrough x h type args names (some sig) := by
  unfold typedCall withHandle
  rw [holds]
  dsimp only
  rw [found]
  rfl

/-! ## Beside the call through the owner -/

/-- Two machines in the middle of one call, made through two handles: the frame of the call keeps the one or
the other, and the worlds hold the same objects and differ in nothing but counts. -/
structure Rerouted (x y : ObjId) (base : List Frame) (a b : Machine) : Prop where
  stack : ∃ above c, a.stack = above ++ .hostCall (CallRequest.through c x).waiting :: base ∧
    b.stack = above ++ .hostCall (CallRequest.through c y).waiting :: base
  rest : b = { a with world := a.world.withHeap b.world.heap, stack := b.stack }
  object : ∀ id, Option.map Entry.object ( b.world.entry? id) = Option.map Entry.object ( a.world.entry? id)
  alive : ∀ id, id ≠ x → id ≠ y → (b.world.strong id = 0 ↔ a.world.strong id = 0)

theorem Rerouted.symm (rerouted : Rerouted x y base a b) : Rerouted y x base b a := by
  obtain ⟨⟨above, c, here, there⟩, rest, object, alive⟩ := rerouted
  refine ⟨⟨above, c, there, here⟩, ?_, fun id => (object id).symm,
    fun id second first => (alive id first second).symm⟩
  rw [rest]
  rfl

namespace Together

variable {p q : View} {c : CallRequest}

theorem rerouted (together : Together (p.calling c base) a m) : Rerouted p.handle p.owner base a m := by
  obtain ⟨⟨gone, beside⟩, rest, above, here, there⟩ := together
  refine ⟨⟨above, c, here, there⟩, ?_, beside.object, fun id view _ => beside.alive id view⟩
  rw [← beside.rest]
  exact rest

/-- Beside the same call through the owner, calls through two views run beside each other. -/
theorem between (first : Together (p.calling c base) a m) (second : Together (q.calling c base) b m)
    (owner : q.owner = p.owner) : Rerouted p.handle q.handle base a b := by
  obtain ⟨⟨gone, beside⟩, rest, above, here, there⟩ := first
  obtain ⟨⟨gone', beside'⟩, rest', above', here', there'⟩ := second
  obtain rfl : above' = above := by
    have frames := there'.symm.trans there
    dsimp only [View.calling] at frames
    rw [owner] at frames
    exact List.append_cancel_right frames
  refine ⟨⟨above', c, here, here'⟩, ?_, fun id => (beside'.object id).symm.trans (beside.object id),
    fun id view view' => (beside'.alive id view').symm.trans (beside.alive id view)⟩
  have worlds : b.world = a.world.withHeap b.world.heap := by
    have same := beside'.rest.symm.trans beside.rest
    have withHeap := congrArg (fun w => World.withHeap w b.world.heap) same
    exact withHeap
  have machines : { b with world := m.world, stack := m.stack } = { a with world := m.world, stack := m.stack } :=
    rest'.symm.trans rest
  rw [← worlds]
  have back := congrArg (fun k : Machine => { k with world := b.world, stack := b.stack }) machines
  exact back

end Together

/-- A call through a handle runs beside the call through the owner, or is that call. -/
inductive Alongside (o : ObjId) (c : CallRequest) (base : List Frame) (x : ObjId) (a m : Machine) : Prop
  | owner (self : x = o) (same : a = m)
  | view (p : View) (handle : p.handle = x) (owner : p.owner = o) (together : Together (p.calling c base) a m)

namespace Alongside

variable {c : CallRequest}

theorem rerouted (first : Alongside o c base x a m) (second : Alongside o c base y b m) :
    b = a ∨ Rerouted x y base a b := by
  cases first with
  | owner self same =>
      subst self same
      cases second with
      | owner self same => exact .inl same
      | view q handle owner together =>
          subst handle owner
          exact .inr together.rerouted.symm
  | view p handle owner first =>
      subst handle owner
      cases second with
      | owner self same =>
          subst self same
          exact .inr first.rerouted
      | view q handle owner together =>
          subst handle
          exact .inr (first.between together owner)

variable (alongside : Alongside o c base x a m) (left : a.Coherent) (right : m.Coherent) {t : Nat}
include alongside left right

/-- Until the engine returns to the call. -/
theorem iterate (running : ∀ j < t, ¬ (Machine.step^[j] m).Back base) :
    Alongside o c base x (Machine.step^[t] a) (Machine.step^[t] m) := by
  cases alongside with
  | owner self same => exact .owner self (by rw [same])
  | view p handle owner together => exact .view p handle owner (together.iterate left right running)

/-- When the call has ended, the machines are the same. -/
theorem afterwards (back : ∃ j < t, (Machine.step^[j] m).Back base) : Machine.step^[t] m = Machine.step^[t] a := by
  cases alongside with
  | owner self same => rw [same]
  | view p handle owner together =>
      induction t with
      | zero =>
          obtain ⟨j, less, -⟩ := back
          exact absurd less (Nat.not_lt_zero j)
      | succ t ih =>
          rw [Function.iterate_succ_apply', Function.iterate_succ_apply']
          by_cases earlier : ∃ j < t, (Machine.step^[j] m).Back base
          · rw [ih earlier]
          · obtain ⟨j, less, here⟩ := back
            have last : j = t := by
              by_contra other
              exact earlier ⟨j, by omega, here⟩
            subst last
            have before := together.iterate left right fun i less back => earlier ⟨i, less, back⟩
            exact before.rejoin (left.iterate j) (right.iterate j) here

end Alongside

/-! ## Through two handles -/

theorem startThrough_congr (native : k.native = h.native) (store : k.store = h.store) (c : CallRequest) :
    m.startThrough k c = m.startThrough h c := by
  unfold startThrough
  rw [native, store]

/-- The handles that are counted for a call through a view and through its owner. -/
theorem Busy.meeting {p : View} {c : CallRequest} (busy : Busy m [] m) (of : p.Of m.world.shapes)
    (alive : m.world.strong p.handle ≠ 0) (alive' : m.world.strong p.owner ≠ 0)
    (args : ∀ r ∈ Val.refs c.args, m.world.strong r ≠ 0) :
    Meeting p m m (Val.refs c.args) (m.withWorld ((m.world.retain p.handle).retainAll (Val.refs c.args)))
      (m.withWorld ((m.world.retain p.owner).retainAll (Val.refs c.args))) := by
  have counted {id : ObjId} (alive : m.world.strong id ≠ 0) :
      Busy m (Val.refs c.args ++ [id]) (m.withWorld ((m.world.retain id).retainAll (Val.refs c.args))) := by
    have self : ∀ x ∈ [id], m.world.strong x ≠ 0 := fun x mem => by rwa [List.mem_singleton.mp mem]
    have once : Busy m [id] (m.withWorld (m.world.retain id)) := busy.retainAll self
    exact once.retainAll fun r mem => World.strong_retain_ne_zero (args r mem)
  have beside := World.Beside.retainAll (Val.refs c.args) (World.Beside.begin of alive alive') fun r mem =>
    World.strong_retain_ne_zero (args r mem)
  exact ⟨counted alive, counted alive', ⟨false, beside⟩, rfl, m.stack, (List.append_nil _).symm,
    (List.append_nil _).symm⟩

/-- A request through a live handle: it fails in the same way as through the owner, or runs beside it. -/
theorem Busy.alongside {c : CallRequest} (busy : Busy m [] m) (found : m.world.handle? x = some h)
    (args : ∀ r ∈ Val.refs c.args, m.world.strong r ≠ 0) :
    match argumentFault? c.type.params c.args with
    | some _ => m.startThrough h (c.through (World.ownerOf x h)) = m.startThrough h (c.through x)
    | none => Alongside (World.ownerOf x h) c m.stack x (m.startThrough h (c.through x))
        (m.startThrough h (c.through (World.ownerOf x h))) := by
  have bal := busy.world.toBalanced
  cases view : h.owner with
  | none =>
      have self : World.ownerOf x h = x := by
        unfold World.ownerOf
        rw [view]
        rfl
      rw [self]
      split
      · rfl
      · exact .owner rfl rfl
  | some o =>
      have owner : World.ownerOf x h = o := by
        unfold World.ownerOf
        rw [view]
        rfl
      have alive := (bal.keeps_alive found).2
      rw [owner] at alive ⊢
      have of := bal.view_of found view
      have meeting := busy.meeting of (World.handle?_eq_some.mp found).2 alive args
      obtain ⟨k, entry⟩ := World.isHandle_iff.mp (World.handle?_eq_some.mp found).1
      have handle : h.Fits m.world.shapes := bal.objects entry
      obtain ⟨s, isStore, -⟩ := handle.state
      have isStore' : (m.withWorld ((m.world.retain x).retainAll (Val.refs c.args))).world.shapes.IsStore
          h.store s := by
        show ((m.world.retain x).retainAll _).shapes.IsStore h.store s
        rw [World.shapes_retainAll, World.shapes_retain]
        exact isStore
      split
      · next f fault => exact meeting.fails isStore' fault
      · next suits => exact .view ⟨x, o, h.store⟩ rfl rfl (meeting.startCall isStore' suits)

/-- A call through any live handle of its function leads to a coherent machine. -/
theorem Coherent.startThrough (coherent : m.Coherent) (running : m.control = .run)
    (waits : Frame.Waits m.stack) {type : FuncType} (live : m.Live x type h) {ss : List (Scalar ObjId)}
    (usable : ∀ s ∈ ss, m.Usable (.value s)) (names : List VarName) {sig : Option TypedSignature}
    (sigs : ∀ s, sig = some s → s.funcType = type) :
    (m.startThrough h ⟨x, type, TypeList.encode ss, names, sig⟩).Coherent := by
  obtain ⟨f, native, typed⟩ := live.native
  have poised := coherent.poised running waits
  exact poised.begun
    (poised.request (coherent.busy (by rw [running]; rfl)) live.handle native typed usable names sig sigs)

/-- Two calls through two handles run in the same way: until the call has ended the machines differ in the handle
that its frame keeps, and from then on in nothing. -/
def AlikeCalls (x y : ObjId) (base : List Frame) (a b : Machine) : Prop :=
  ∀ t, Machine.step^[t] b = Machine.step^[t] a ∨ Rerouted x y base (Machine.step^[t] a) (Machine.step^[t] b)

/-- Calls through two live handles of one function run in the same way, and they end in the same machine. -/
theorem Coherent.calls_alike (coherent : m.Coherent) (running : m.control = .run) (waits : Frame.Waits m.stack)
    {type : FuncType} (live : m.Live x type h) (found : m.world.handle? y = some k) (native : k.native = h.native)
    (args : List Operand) (names : List VarName) {sig : Option TypedSignature}
    (sigs : ∀ s, sig = some s → s.funcType = type) :
    AlikeCalls x y m.stack (m.callThrough x h type args names sig) (m.callThrough y k type args names sig) := by
  intro t
  have busy := coherent.busy (by rw [running]; rfl)
  have bal := coherent.world.toBalanced
  have known := (World.handle?_eq_some.mp live.handle).1
  obtain ⟨owner, store⟩ := bal.same_owner known (World.handle?_eq_some.mp found).1 native
  obtain ⟨o, ownerFound, -, ownerNative, ownerStore⟩ := bal.live_owner live.handle
  obtain ⟨f, func, typed⟩ := live.native
  unfold callThrough withOperands
  cases values : m.operands? args with
  | none => exact .inl rfl
  | some ss =>
      let c : CallRequest := ⟨x, type, TypeList.encode ss, names, sig⟩
      have usable := busy.operands values
      have alive : ∀ r ∈ Val.refs c.args, m.world.strong r ≠ 0 := busy.args_alive usable
      have first := busy.alongside (c := c) live.handle alive
      have second := busy.alongside (c := c) found alive
      rw [owner, startThrough_congr native store, startThrough_congr native store] at second
      have starts {id : ObjId} {l : Handle} (found : m.world.handle? id = some l) (same : l.native = h.native)
          (kept : l.store = h.store) : (m.startThrough h (c.through id)).Coherent := by
        rw [← startThrough_congr same kept]
        exact coherent.startThrough running waits ⟨found, f, by rw [same]; exact func, typed⟩ usable names sigs
      dsimp only
      rw [startThrough_congr native store]
      cases suits : argumentFault? c.type.params c.args with
      | some fault =>
          rw [suits] at first second
          exact .inl (congrArg _ (second.symm.trans first))
      | none =>
          rw [suits] at first second
          have left := starts live.handle rfl rfl
          have left' := starts found native store
          have right := starts ownerFound ownerNative ownerStore
          by_cases back : ∃ j < t, (Machine.step^[j] (m.startThrough h (c.through (World.ownerOf x h)))).Back m.stack
          · exact .inl ((second.afterwards left' right back).symm.trans (first.afterwards left right back))
          · have running : ∀ j < t, ¬ (Machine.step^[j] (m.startThrough h (c.through (World.ownerOf x h)))).Back
                m.stack := fun j less here => back ⟨j, less, here⟩
            exact (first.iterate left right running).rerouted (second.iterate left' right running)

end Machine

end HostEmbedding
