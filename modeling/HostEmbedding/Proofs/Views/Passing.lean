import HostEmbedding.Proofs.TypedCalls
import HostEmbedding.Proofs.Views.Acting

/-!
# Transitions beside a call

Above the frame of a call both machines do the same, transition by transition: steps begin, further calls
pass the gate or are refused, bodies start and end, and blocks go on.
-/

namespace HostEmbedding

/-! ## The world of a call -/

namespace World.Beside

variable {p : View} {gone : Bool} {w v : World} {held held' : List ObjId} {a : Activation}

/-- A panic is parked in the same slot. -/
theorem park (beside : w.Beside p gone v) (f : Fault) :
    (v.park f).1 = (w.park f).1 ∧ (w.park f).2.Beside p gone (v.park f).2 := by
  unfold World.park
  rw [beside.thread_eq]
  split
  · next rest _ => exact ⟨rfl, beside.modifyThread fun t => { t with frames := some f :: rest }⟩
  · exact ⟨rfl, beside.log _⟩
  · exact ⟨rfl, beside.log _⟩

section

variable (keeps : p.handle ∈ held) (keeps' : p.owner ∈ held')
include keeps keeps'

theorem failHost (beside : w.Beside p gone v) (sound : w.Sound (Val.refs a.params ++ held))
    (sound' : v.Sound (Val.refs a.params ++ held')) (f : Fault) :
    (v.failHost a f).1 = (w.failHost a f).1 ∧
      ∃ gone', (w.failHost a f).2.Beside p gone' (v.failHost a f).2 := by
  obtain ⟨gone', dropped⟩ := beside.releaseAll (Val.refs a.params) sound sound' keeps keeps'
  obtain ⟨same, parked⟩ := dropped.park f
  exact ⟨congrArg Except.error same, gone', parked⟩

/-- What a body gives to the engine. -/
theorem deliverHost {c : Completion} (beside : w.Beside p gone v)
    (sound : w.Sound (c.refs ++ (Val.refs a.params ++ held)))
    (sound' : v.Sound (c.refs ++ (Val.refs a.params ++ held'))) :
    (v.deliverHost a c).1 = (w.deliverHost a c).1 ∧
      ∃ gone', (w.deliverHost a c).2.Beside p gone' (v.deliverHost a c).2 := by
  cases c with
  | done answer =>
      change w.Sound (Val.refs a.params ++ held) at sound
      change v.Sound (Val.refs a.params ++ held') at sound'
      unfold World.deliverHost
      dsimp only
      split
      · exact beside.failHost keeps keeps' sound sound' _
      · exact ⟨rfl, beside.releaseAll (Val.refs a.params) sound sound' keeps keeps'⟩
  | gaveBack ss =>
      have refs : Completion.refs (.gaveBack ss) = Val.refs (TypeList.encode ss) :=
        (Scalar.refs_encode ss).symm
      rw [refs] at sound sound'
      unfold World.deliverHost
      dsimp only
      split
      · obtain ⟨gone', dropped⟩ := beside.releaseAll _ sound sound' (List.mem_append_right _ keeps)
          (List.mem_append_right _ keeps')
        exact dropped.failHost keeps keeps' (sound.releaseAll _) (sound'.releaseAll _) _
      · have first {u : World} {rest : List ObjId}
            (sound : u.Sound (Val.refs (TypeList.encode ss) ++ (Val.refs a.params ++ rest))) :
            u.Sound (Val.refs a.params ++ (Val.refs (TypeList.encode ss) ++ rest)) :=
          sound.regroup fun id => by
            simp only [List.count_append]
            omega
        exact ⟨rfl, beside.releaseAll (Val.refs a.params) (first sound) (first sound')
          (List.mem_append_right _ keeps) (List.mem_append_right _ keeps')⟩
  | trapped t =>
      change w.Sound (Val.refs a.params ++ held) at sound
      change v.Sound (Val.refs a.params ++ held') at sound'
      unfold World.deliverHost
      dsimp only
      split
      · exact ⟨rfl, beside.releaseAll (Val.refs a.params) sound sound' keeps keeps'⟩
      · exact beside.failHost keeps keeps' sound sound' _
  | panicked f =>
      change w.Sound (Val.refs a.params ++ held) at sound
      change v.Sound (Val.refs a.params ++ held') at sound'
      exact beside.failHost keeps keeps' sound sound' f

/-- Leaving host code gives up the same. -/
theorem leaveHost {c : Completion} {slots slots' : List (Option Fault)} (beside : w.Beside p gone v)
    (sound : w.Sound (c.refs ++
      ((a.locals.refs ++ (Val.refs a.params ++ [a.closure, a.store])) ++ held)))
    (sound' : v.Sound (c.refs ++
      ((a.locals.refs ++ (Val.refs a.params ++ [a.closure, a.store])) ++ held')))
    (opened : w.thread.frames = none :: slots) (opened' : v.thread.frames = none :: slots')
    (count : a.slots = a.type.results.length) :
    (v.leaveHost a c).1 = (w.leaveHost a c).1 ∧
      ∃ gone', (w.leaveHost a c).2.Beside p gone' (v.leaveHost a c).2 := by
  have drops {w : World} {held : List ObjId} (sound : w.Sound (c.refs ++
      ((a.locals.refs ++ (Val.refs a.params ++ [a.closure, a.store])) ++ held))) :
      w.Sound (a.locals.refs ++ (c.refs ++ (Val.refs a.params ++ ([a.closure, a.store] ++ held)))) := by
    refine sound.regroup fun id => ?_
    simp only [List.count_append]
    omega
  have gives {w : World} {held : List ObjId} {slots : List (Option Fault)} (sound : w.Sound (c.refs ++
      ((a.locals.refs ++ (Val.refs a.params ++ [a.closure, a.store])) ++ held)))
      (opened : w.thread.frames = none :: slots) :
      ((w.releaseAll a.locals.refs).deliverHost a c).2.Sound
        (a.closure :: (a.store :: ((a.outcome c).refs ++ held))) := by
    have frames := (drains_releaseAll a.locals.refs w).evolves.frames
    refine (((drops sound).releaseAll _).deliverHost (frames.trans opened) count).sound.regroup fun id => ?_
    simp only [List.count_append, List.count_cons, List.count_nil]
    omega
  have kept {x : ObjId} {held : List ObjId} (mem : x ∈ held) :
      x ∈ c.refs ++ (Val.refs a.params ++ ([a.closure, a.store] ++ held)) := by simp [mem]
  obtain ⟨gone₁, dropped⟩ := beside.releaseAll a.locals.refs (drops sound) (drops sound') (kept keeps) (kept keeps')
  obtain ⟨same, gone₂, given⟩ := dropped.deliverHost (List.mem_append_right _ keeps)
    (List.mem_append_right _ keeps') ((drops sound).releaseAll _) ((drops sound').releaseAll _)
  obtain ⟨gone₃, left⟩ := given.release (gives sound opened) (gives sound' opened')
    (List.mem_cons_of_mem _ (List.mem_append_right _ keeps))
    (List.mem_cons_of_mem _ (List.mem_append_right _ keeps'))
  obtain ⟨gone₄, last⟩ := left.release (gives sound opened).release (gives sound' opened').release
    (List.mem_append_right _ keeps) (List.mem_append_right _ keeps')
  exact ⟨same, gone₄, last.modifyNativeStore a.native _⟩

end

/-- A body starts on the same arguments. -/
theorem started {store closure : ObjId} {code : HostCode} {args : List (Val ObjId)} (beside : w.Beside p gone v)
    (storeAlive : v.strong store ≠ 0) (closureAlive : v.strong closure ≠ 0)
    (refs : Scalar.refs (code.shape.scalars args) = Val.refs args) (alive : ∀ r ∈ Val.refs args, v.strong r ≠ 0) :
    (w.started store closure code args).Beside p gone (v.started store closure code args) := by
  have once : ∀ r ∈ Val.refs args, ((v.retain store).retain closure).strong r ≠ 0 := fun r mem =>
    strong_retain_ne_zero (strong_retain_ne_zero (alive r mem))
  have params := World.Beside.retainAll (Val.refs args)
    ((beside.retain storeAlive).retain (strong_retain_ne_zero closureAlive)) once
  have twice : ∀ r ∈ Scalar.refs (code.shape.scalars args),
      (((v.retain store).retain closure).retainAll (Val.refs args)).strong r ≠ 0 := fun r mem =>
    strong_retainAll_ne_zero _ (once r (by rwa [refs] at mem))
  have counted := World.Beside.retainAll (Scalar.refs (code.shape.scalars args)) params twice
  unfold World.started
  dsimp only
  rw [counted.shown_eq]
  split
  · exact counted
  · exact counted.emit _

end World.Beside

/-! ## Requests through two handles -/

def CallRequest.through (c : CallRequest) (id : ObjId) : CallRequest := { c with func := id }

/-- The stacks above which a call through a view runs, and the same call through its owner. -/
def View.calling (p : View) (c : CallRequest) (base : List Frame) : Detour :=
  ⟨p, .hostCall (c.through p.handle).waiting :: base, .hostCall (c.through p.owner).waiting :: base⟩

theorem View.keeps_calling (p : View) (c : CallRequest) (base : List Frame) : (p.calling c base).Keeps [] [] := by
  constructor <;> simp [View.calling, Frame.refs, CallRequest.waiting, CallRequest.refs, CallRequest.through]

namespace Machine

variable {d : Detour} {m n m₀ n₀ : Machine} {extra : List ObjId}

namespace Together

/-- Both machines go on above what is there. -/
theorem push (together : Together d m n) {w u : World} (beside : ∃ gone, w.Beside d.view gone u)
    (new : List Frame) {ctx ctx' : Context} (contexts : ctx' = ctx) (c : Control) :
    Together d { m with world := w, context := ctx, stack := new ++ m.stack, control := c }
      { n with world := u, context := ctx', stack := new ++ n.stack, control := c } where
  world := beside
  rest := by rw [contexts, together.rest]
  stack := by
    obtain ⟨above, here, there⟩ := together.stack
    exact ⟨new ++ above, by rw [here, List.append_assoc], by rw [there, List.append_assoc]⟩

theorem withAnswers (together : Together d m n) (answers : List Record) :
    Together d { m with answers } { n with answers } where
  world := together.world
  rest := by rw [together.rest]
  stack := together.stack

/-- What stands above the bottom of the one stack stands above that of the other one. -/
theorem pop (together : Together d m n) {f : Frame} {below : List Frame} (stack : m.stack = f :: below)
    (apart : f :: below ≠ d.bottom) :
    ∃ below', n.stack = f :: below' ∧ Together d { m with stack := below } { n with stack := below' } := by
  obtain ⟨above, here, there⟩ := together.stack
  cases above with
  | nil => exact absurd (stack.symm.trans here) apart
  | cons g above =>
      obtain ⟨rfl, rfl⟩ := List.cons.inj (stack.symm.trans here)
      exact ⟨_, there, together.world, by rw [together.rest], above, rfl, rfl⟩

/-- The frames keep the view in the one machine and its owner in the other. -/
theorem waiting (together : Together d m n) (keeps : d.Keeps [] []) :
    d.view.handle ∈ m.stack.flatMap Frame.refs ∧ d.view.owner ∈ n.stack.flatMap Frame.refs := by
  obtain ⟨above, here, there⟩ := together.stack
  obtain ⟨view, owner⟩ := keeps
  rw [here, there, List.flatMap_append, List.flatMap_append]
  exact ⟨List.mem_append_right _ view, List.mem_append_right _ owner⟩

/-- A block begins on top of the same frame. -/
theorem enclose (together : Together d m n) (f : Frame) (body : Block) :
    Together d ((m.push f).runBlock false body) ((n.push f).runBlock false body) :=
  together.push together.world [.block false 0 body, f] together.context .run

theorem loop (together : Together d m n) (left : Nat) (body : Block) :
    Together d (m.loop left body) (n.loop left body) := by
  cases left with
  | zero => exact together.finish .ok
  | succ left => exact together.enclose (.loop left body) body

theorem thread (together : Together d m n) (body : Block) : Together d (m.thread body) (n.thread body) := by
  obtain ⟨gone, beside⟩ := together.world
  have fresh := beside.blind (F := fun w => { w with thread := .fresh }) fun _ _ => rfl
  unfold Machine.thread
  rw [together.context, beside.thread_eq]
  exact together.push ⟨gone, fresh⟩ [.block true 0 body, .thread m.context m.world.thread] rfl .run

end Together

namespace Paired

/-! ## Steps begin -/

/-- A call whose function and arguments are counted for it. -/
theorem startCall {c : CallRequest} {h : Handle} (paired : Paired d m₀ n₀ c.refs m n)
    (found : m.world.handle? c.func = some h) :
    Together d (m.startCall h.native h.store c) (n.startCall h.native h.store c) := by
  obtain ⟨gone, beside⟩ := paired.together.world
  obtain ⟨k, entry⟩ := World.isHandle_iff.mp (World.handle?_eq_some.mp found).1
  have handle : h.Fits m.world.shapes := paired.left.world.objects entry
  obtain ⟨s, isStore, -⟩ := handle.state
  have isStore' : n.world.shapes.IsStore h.store s := by rwa [beside.shapes]
  have sound := paired.left.world.flush isStore
  have sound' := paired.right.world.flush isStore'
  obtain ⟨gone₁, flushed⟩ := beside.flush isStore paired.left.world paired.right.world paired.holds.1 paired.holds.2
  unfold Machine.startCall
  dsimp only
  split
  · obtain ⟨view, owner⟩ := paired.together.keeps paired.keeps
    obtain ⟨gone₂, dropped⟩ := flushed.releaseAll c.refs sound sound' view owner
    exact (paired.together.withWorld dropped).complete _
  · have alive : ∀ r ∈ Slot.refs (c.args.map Slot.ofVal), (n.world.flush h.store).strong r ≠ 0 := fun r mem => by
      rw [Slot.refs_ofVals] at mem
      exact sound'.alive (by simp [CallRequest.refs, mem])
    have counted := World.Beside.retainAll _ flushed alive
    have opened := counted.modifyThread fun t => { t with frames := none :: t.frames }
    exact paired.together.push ⟨gone₁, opened⟩ [.hostCall _] paired.together.context _

/-- A call counts its function and its arguments before it begins. -/
theorem request (paired : Paired d m₀ n₀ [] m n) {id : ObjId} {h : Handle} {type : FuncType}
    (found : m.world.handle? id = some h) (found' : n.world.handle? id = some h)
    {ss : List (Scalar ObjId)} (usable : ∀ s ∈ ss, m.Usable (.value s))
    (usable' : ∀ s ∈ ss, n.Usable (.value s)) (names : List VarName) (sig : Option TypedSignature) :
    Together d
      ((m.withWorld ((m.world.retain id).retainAll (Val.refs (TypeList.encode ss)))).startCall
        h.native h.store ⟨id, type, TypeList.encode ss, names, sig⟩)
      ((n.withWorld ((n.world.retain id).retainAll (Val.refs (TypeList.encode ss)))).startCall
        h.native h.store ⟨id, type, TypeList.encode ss, names, sig⟩) := by
  have self {m : Machine} (found : m.world.handle? id = some h) : ∀ x ∈ [id], m.world.strong x ≠ 0 :=
    fun x mem => by
      cases List.mem_singleton.mp mem
      exact (World.handle?_eq_some.mp found).2
  have args {m₀ m : Machine} (busy : Busy m₀ [] m) (usable : ∀ s ∈ ss, m.Usable (.value s)) :
      ∀ r ∈ Val.refs (TypeList.encode ss), (m.world.retain id).strong r ≠ 0 := fun r mem =>
    World.strong_retain_ne_zero (busy.args_alive usable r mem)
  have kept {m : Machine} (found : m.world.handle? id = some h) :
      ((m.world.retain id).retainAll (Val.refs (TypeList.encode ss))).handle? id = some h :=
    Busy.handle?_retainAll _ (Busy.handle?_retainAll [id] found)
  have once : Paired d m₀ n₀ [id] (m.withWorld (m.world.retain id)) (n.withWorld (n.world.retain id)) :=
    paired.retainAll (self found) (self found')
  have counted := once.retainAll (args paired.left usable) (args paired.right usable')
  exact startCall (c := ⟨id, type, TypeList.encode ss, names, sig⟩) counted (kept found)

theorem call (paired : Paired d m₀ n₀ [] m n) (v : VarName) (args : List Operand) (names : List VarName) :
    Together d (m.call v args names) (n.call v args names) := by
  refine paired.withHandle fun item id h _ _ mem found found' => ?_
  cases item with
  | func f type =>
      cases List.mem_singleton.mp mem
      exact paired.withOperands fun ss usable usable' => paired.request found found' usable usable' names none
  | _ => exact paired.unusable v

theorem typedCall (paired : Paired d m₀ n₀ [] m n) (v : VarName) (args : List Operand) (names : List VarName) :
    Together d (m.typedCall v args names) (n.typedCall v args names) := by
  refine paired.withHandle fun item id h _ _ mem found found' => ?_
  cases item with
  | typedFunc f type sig =>
      cases List.mem_singleton.mp mem
      exact paired.withOperands fun ss usable usable' => paired.request found found' usable usable' names (some sig)
  | _ => exact paired.unusable v

/-- A step begins in both machines. -/
theorem begin (paired : Paired d m₀ n₀ [] m n) (g : Guard) {s : Step} (isPublic : s.isPublic = true) :
    Together d (m.begin g s) (n.begin g s) := by
  cases s with
  | plain a => exact paired.perform g isPublic
  | func name store shape label quiet captures body =>
      let code : HostCode := ⟨label, quiet, shape, body⟩
      have inner : Block.isPublic code.body = true := isPublic
      exact paired.newFunc name store inner captures
  | call f args bind => exact paired.call f args bind
  | typedCall f args bind => exact paired.typedCall f args bind
  | branch a op b yes no =>
      refine paired.withOperand fun x _ _ => ?_
      refine paired.withOperand fun y _ _ => ?_
      split
      · exact paired.together.enclose _ _
      · exact paired.finish _
  | loop k body => exact paired.together.loop k body
  | thread body => exact paired.together.thread body
  | native | nativeFunc | nativeCall => cases isPublic

end Paired

namespace Together

variable {p : View} {c₀ : CallRequest} {base : List Frame}

/-! ## Through the engine -/

/-- The machines differ in no argument of a call. -/
theorem args (together : Together (p.calling c₀ base) m n) {c c' : HostCall} {below below' : List Frame}
    (stack : m.stack = .hostCall c :: below) (stack' : n.stack = .hostCall c' :: below') :
    c'.request.args = c.request.args := by
  obtain ⟨above, here, there⟩ := together.stack
  cases above with
  | nil =>
      cases (List.cons.inj (stack.symm.trans here)).1
      cases (List.cons.inj (stack'.symm.trans there)).1
      rfl
  | cons f above =>
      have same := (List.cons.inj (stack'.symm.trans there)).1
      rw [← (List.cons.inj (stack.symm.trans here)).1] at same
      cases same
      rfl

/-- What is about to enter the engine in one machine is about to enter it in the other one. -/
theorem entering (together : Together (p.calling c₀ base) m n) (right : n.Coherent) {c : HostCall} {h : Handle}
    {callee : Callee} {st : NativeStore} (entering : m.Entering c h callee st) :
    ∃ c' h', n.Entering c' h' callee st ∧ c'.request.args = c.request.args ∧ h'.store = h.store := by
  obtain ⟨gone, beside⟩ := together.world
  obtain ⟨c', h', callee', st', entering'⟩ := right.entering (together.control.trans entering.control)
  obtain ⟨below, stack⟩ := entering.stack
  obtain ⟨below', stack'⟩ := entering'.stack
  have args := together.args stack stack'
  obtain ⟨native, -⟩ := Control.enter.inj (entering'.control.symm.trans (together.control.trans entering.control))
  obtain ⟨type, store, env, closure, code, captures⟩ := callee
  obtain ⟨type', store', env', closure', code', captures'⟩ := callee'
  have func := entering'.callable.func
  rw [beside.nativeFunc?_eq, native] at func
  have funcs := Option.some.inj (func.symm.trans entering.callable.func)
  simp only [NativeFunc.mk.injEq, Callback.host.injEq] at funcs
  obtain ⟨rfl, -, rfl⟩ := funcs
  obtain ⟨k, entry⟩ := entering.callable.env
  obtain ⟨k', entry'⟩ := entering'.callable.env
  have envs := congrArg Entry.object (Option.some.inj (entry'.symm.trans (beside.entry entry)))
  simp only [Object.env.injEq, Option.some.injEq] at envs
  obtain ⟨rfl, rfl, stores⟩ := envs
  have closure := entering'.callable.closure
  rw [beside.closure?_eq] at closure
  cases closure.symm.trans entering.callable.closure
  have store := entering'.store
  rw [beside.nativeStore?_eq] at store
  cases store.symm.trans entering.store
  exact ⟨c', h', entering', args, stores⟩

/-- The gate refuses a call in both machines, or its body starts in both. -/
theorem enter (together : Together (p.calling c₀ base) m n) (left : m.Coherent) (right : n.Coherent)
    {id : NativeId} {args : List (Slot ObjId)} {slots : SlotArray} (control : m.control = .enter id args slots) :
    Together (p.calling c₀ base) m.step n.step := by
  obtain ⟨gone, beside⟩ := together.world
  obtain ⟨c, h, callee, st, entering⟩ := left.entering control
  obtain ⟨c', h', entering', args, stores⟩ := together.entering right entering
  have here := entering.step_eq left.world.aborted
  have there := entering'.step_eq right.world.aborted
  split_ifs at here there with interrupted exhausted
  · rw [here, there]
    exact (together.withWorld (beside.modifyNativeStore callee.native _)).withControl _
  · rw [here, there]
    exact together.withControl _
  · have refs := Shape.refs_scalars entering.kinds
    have alive : ∀ r ∈ Val.refs c.request.args, n.world.strong r ≠ 0 := fun r mem => by
      obtain ⟨below', stack'⟩ := entering'.stack
      rw [← args] at mem
      refine right.world.alive (List.mem_append_right _ ?_)
      unfold owns
      rw [stack']
      simp [Frame.refs, CallRequest.refs, mem]
    have storeAlive := entering'.callable.storeAlive
    rw [stores] at storeAlive
    have started := (beside.modifyNativeStore callee.native fun s => { s with depth := s.depth + 1 }).started
      storeAlive (World.closure?_eq_some.mp entering'.callable.closure).2 refs alive
    rw [here, there]
    unfold Machine.startBody
    rw [args, stores, together.context]
    exact together.push ⟨gone, started⟩ [.block true 0 callee.code.body, .activation m.context] rfl .run

/-- A body that ends leaves the engine with the same result. -/
theorem leave (together : Together (p.calling c₀ base) m n) (left : m.Coherent) (right : n.Coherent)
    {how : Completion} {saved : Context} {rest : List Frame} (control : m.control = .complete how)
    (stack : m.stack = .activation saved :: rest) : Together (p.calling c₀ base) m.step n.step := by
  obtain ⟨gone, beside⟩ := together.world
  obtain ⟨a, c, below, slots, ended⟩ := left.ended control stack
  obtain ⟨rest', stack', popped⟩ := together.pop ended.stack nofun
  obtain ⟨a', c', below', slots', ended'⟩ := right.ended (together.control.trans control) stack'
  cases (ended'.context.symm.trans together.context).trans ended.context
  cases stack'.symm.trans ended'.stack
  obtain ⟨view, owner⟩ := popped.waiting (p.keeps_calling c₀ base)
  obtain ⟨result, gone', left'⟩ := beside.leaveHost (List.mem_append_right _ (List.mem_append_right _ view))
    (List.mem_append_right _ (List.mem_append_right _ owner)) (ended.sound left) (ended'.sound right) ended.frames
    ended'.frames ended.count
  have there := ended'.step_eq right
  rw [result] at there
  rw [ended.step_eq left, there]
  exact popped.push ⟨gone', left'⟩ [] rfl _

/-! ## Steps of a block -/

/-- The running step of a block has ended. -/
theorem settle (together : Together (p.calling c₀ base) m n) (left : m.Coherent) (right : n.Coherent)
    {c : Completion} {outer : Bool} {index : Nat} {g : Guard} {s : Step} {rest : Block} {below below' : List Frame}
    (popped : Together (p.calling c₀ base) { m with stack := below } { n with stack := below' })
    (settling : m.Settling c outer index g s rest below) (settling' : n.Settling c outer index g s rest below') :
    Together (p.calling c₀ base) (m.settle c outer index g s rest below) (n.settle c outer index g s rest below') := by
  obtain ⟨gone, beside⟩ := together.world
  have sound := settling.sound left
  have sound' := settling'.sound right
  obtain ⟨view, owner⟩ := popped.waiting (p.keeps_calling c₀ base)
  have answers : c.answer n.world = c.answer m.world := by
    unfold Completion.answer
    rw [beside.shown_eq]
  -- Outside of a body a step is noted, what it owned is dropped, and the block goes on.
  have noted (e : Event) (silent : e.drop? = none) : Together (p.calling c₀ base)
      (m.noteAndGoOn e c outer index rest below) (n.noteAndGoOn e c outer index rest below') := by
    have world := (beside.emit e).releaseAll c.refs (sound.same (World.same_emit _ silent))
      (sound'.same (World.same_emit _ silent)) (List.mem_append_right _ (List.mem_append_right _ view))
      (List.mem_append_right _ (List.mem_append_right _ owner))
    exact popped.push world [.block outer (index + 1) rest] together.context .run
  have loud (m : Machine) (quiet : Bool) (e : Event) :
      (if quiet then m else m.withWorld (m.world.emit e)) =
        m.withWorld (if quiet then m.world else m.world.emit e) := by
    cases quiet <;> rfl
  unfold Machine.settle
  dsimp only
  rw [answers, together.context]
  split
  · split
    · obtain ⟨gone', world⟩ := beside.releaseAll c.refs sound sound'
        (List.mem_append_right _ (List.mem_append_right _ view))
        (List.mem_append_right _ (List.mem_append_right _ owner))
      have events : (n.world.releaseAll c.refs).events = (m.world.releaseAll c.refs).events :=
        (congrArg World.events world.rest).trans rfl
      have cleared := world.blind (F := fun w => { w with events := [] }) fun _ _ => rfl
      have pushed := popped.push ⟨gone', cleared⟩ [.block outer (index + 1) rest] together.context .run
      dsimp only [Machine.withWorld]
      rw [events, together.answers]
      exact pushed.withAnswers _
    · exact noted _ rfl
  · exact noted _ rfl
  · exact noted _ rfl
  · next a _ =>
      have world : World.Beside p gone
          (if a.code.quiet then m.world else m.world.emit (.stepDone a.code.label index (c.answer m.world)))
          (if a.code.quiet then n.world else n.world.emit (.stepDone a.code.label index (c.answer m.world))) := by
        split
        · exact beside
        · exact beside.emit _
      rw [loud, loud]
      split
      · exact popped.push ⟨gone, world⟩ [.block outer (index + 1) rest] together.context .run
      · exact popped.push ⟨gone, world⟩ [] together.context (.complete c)

end Together

end Machine

end HostEmbedding
