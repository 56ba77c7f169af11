import HostEmbedding.Proofs.Ownership.Detaching
import HostEmbedding.Proofs.Machine.Running
import HostEmbedding.Proofs.Native.Transitions
import HostEmbedding.Proofs.Ownership.Retaining

/-!
# The lifetime of a closure

The closure of a function lives as long as any handle on the function does. It is dropped once, by the
drop that ends the last handle, before the function is queued for its store, and never by a flush. So a
call through a handle always finds the closure, and a function that is entered by its pointer after its
last handle is gone runs nothing.
-/

namespace HostEmbedding

def Frame.running : List Frame → List ObjId
  | .activation _ :: .hostCall c :: below => c.request.func :: running below
  | _ :: below => running below
  | [] => []

/-! ## What a machine holds of closures -/

section

variable {Γ : Shapes} {c : ObjId} {code : HostCode} {captures : Scope}

/-- A call that waits holds no closure. -/
theorem HostCall.Fits.plain {call : HostCall} (fits : call.Fits Γ)
    (mem : c ∈ (Frame.hostCall call).refs) : ¬ Γ.IsClosure c code captures := by
  have raw : Slot.refs call.raw = Val.refs call.request.args := by rw [fits.raw, Slot.refs_ofVals]
  simp only [Frame.refs, CallRequest.refs, raw, List.mem_append, List.mem_singleton] at mem
  rcases mem with (mem | rfl) | mem
  · exact (fits.args c mem).plain
  · obtain ⟨h, f, known, -⟩ := fits.func
    exact known.plain
  · exact (fits.args c mem).plain

/-- A closure that waiting calls and running bodies hold is that of a body, which has a handle on its
function. -/
theorem Stacked.guarded {ctx : Context} {stack : List Frame} {slots : List (Option Fault)}
    (stacked : Stacked Γ ctx stack slots) (isClosure : Γ.IsClosure c code captures)
    (mem : c ∈ ctx.refs ++ stack.flatMap Frame.refs) : ∃ f ∈ Frame.running stack, Γ.Calls f c := by
  induction stacked with
  | top => cases mem
  | block _ _ _ ih => exact ih mem
  | branch _ _ ih => exact ih mem
  | loop _ _ _ ih => exact ih mem
  | hostCall below waits fits ih =>
      rw [List.flatMap_cons, List.mem_append, List.mem_append] at mem
      rcases mem with mem | mem | mem
      · exact ih (List.mem_append_left _ mem)
      · exact absurd isClosure (fits.plain mem)
      · exact ih (List.mem_append_right _ mem)
  | activation below fits runs ih =>
      obtain ⟨h, f, known, native, -, -, callback⟩ := runs.func
      rw [List.mem_append] at mem
      rcases mem with mem | mem
      · simp only [Context.refs, List.mem_append, List.mem_cons, List.not_mem_nil, or_false] at mem
        rcases mem with mem | mem | rfl | rfl
        · exact absurd isClosure (fits.locals.plain mem)
        · exact absurd isClosure (fits.params c mem).plain
        · refine ⟨_, List.mem_cons_self, h, f.store, f.type, known, ?_⟩
          rw [native, ← callback]
        · exact absurd isClosure fits.store.plain
      · obtain ⟨f, listed, calls⟩ := ih mem
        exact ⟨f, List.mem_cons_of_mem _ listed, calls⟩
  | thread below waits retired finalizing ih => exact ih mem

end

theorem Frame.mem_running {f : ObjId} {stack : List Frame} (listed : f ∈ running stack) :
    f ∈ stack.flatMap Frame.refs := by
  fun_induction running stack with
  | case1 saved c below ih =>
      rcases List.mem_cons.mp listed with rfl | listed
      · simp [Frame.refs, CallRequest.refs]
      · simp [ih listed]
  | case2 top below _ ih => simp [ih listed]
  | case3 => cases listed

namespace Machine

variable {m : Machine} {n : NativeId} {c : ObjId} {code : HostCode} {captures : Scope}
  {held : List ObjId}

theorem Coherent.guarded (coherent : m.Coherent) (isClosure : m.world.shapes.IsClosure c code captures)
    (mem : c ∈ m.held) : ∃ f ∈ Frame.running m.stack, m.world.shapes.Calls f c := by
  unfold Machine.held owns at mem
  rw [List.mem_append, List.mem_append] at mem
  rcases mem with mem | mem | mem
  · have placed := coherent.placed
    generalize m.control = control at mem placed
    generalize m.stack = stack at placed
    generalize m.world.thread.frames = slots at placed
    cases placed with
    | complete stacked fits => exact absurd isClosure (fits c mem).plain
    | engine stacked returned =>
        cases returned with
        | values vals kinds refs =>
            have listed : c ∈ Slot.refs (vals.map Slot.ofVal) := mem
            rw [Slot.refs_ofVals] at listed
            exact absurd isClosure (refs c listed).plain
        | trap t => cases mem
        | panic f => cases mem
    | _ => cases mem
  · exact absurd isClosure (coherent.globals.plain mem)
  · obtain ⟨slots, stacked⟩ := coherent.placed.stacked
    exact stacked.guarded isClosure mem

/-- The releasing work that a transition can do: to drop what is held, but no function whose body is
running, or to flush a store. -/
inductive Work (m : Machine) : List Task → Prop where
  | drop (ids rest : List ObjId) (perm : m.held.Perm (ids ++ rest))
      (running : ∀ f ∈ Frame.running m.stack, f ∈ rest) : Work m (ids.map .ref)
  | flush (s : ObjId) (native : NativeId) (isStore : m.world.storeNative? s = some native) :
      Work m [.flush s 0]

theorem running_held {f : ObjId} (listed : f ∈ Frame.running m.stack) : f ∈ m.held :=
  List.mem_append_right _ (List.mem_append_right _ (List.mem_append_right _ (Frame.mem_running listed)))

/-- Nothing that a transition drops or flushes takes a closure from a running body, whose function stays
held. -/
theorem Coherent.guarding (coherent : m.Coherent) {tasks : List Task} (work : m.Work tasks) :
    ∃ held, m.world.Detaching held tasks ∧ ∀ f ∈ Frame.running m.stack, f ∈ held := by
  have sound := coherent.world
  have guarded {rest : List ObjId} (draining : m.world.Draining rest tasks)
      (perm : m.held.Perm (tasks.flatMap Task.refs ++ rest))
      (running : ∀ f ∈ Frame.running m.stack, f ∈ rest) : m.world.Detaching rest tasks := by
    refine ⟨⟨draining, fun e mem => ?_⟩,
      ⟨sound.finalizing, sound.aborted, fun busy => absurd sound.retired busy⟩, fun isClosure mem => ?_⟩
    · rw [sound.retired] at mem
      cases mem
    · obtain ⟨f, listed, calls⟩ := coherent.guarded isClosure (perm.mem_iff.mpr mem)
      exact .inl ⟨f, running f listed, calls⟩
  cases work with
  | drop ids rest perm running =>
      have regrouped := sound.regroup fun x => (perm.count_eq x).symm
      refine ⟨rest, guarded (regrouped.draining ?_ (fun t mem => ?_) ?_) ?_ running, running⟩
      · rw [Task.flatMap_refs_ref, Task.flatMap_natives_ref]
        exact regrouped.toAccounted
      · obtain ⟨id, -, rfl⟩ := List.mem_map.mp mem
        trivial
      · have none : Task.Anchored [] := trivial
        simpa using Task.anchored_refs none
      · rw [Task.flatMap_refs_ref]
        exact perm
  | flush s native isStore =>
      have known := World.storeNative?_eq_some.mp isStore
      exact ⟨m.held, guarded (sound.draining sound.toAccounted
        (fun t mem => by cases List.mem_singleton.mp mem; exact ⟨native, known⟩) trivial) (.refl _)
        fun f listed => running_held listed, fun f listed => running_held listed⟩

theorem Coherent.detaching (coherent : m.Coherent) {tasks : List Task} (work : m.Work tasks) :
    ∃ held, m.world.Detaching held tasks := by
  obtain ⟨held, detaching, -⟩ := coherent.guarding work
  exact ⟨held, detaching⟩

/-- Between transitions a closure is alive as long as it is attached. -/
theorem Coherent.closure_alive_iff (coherent : m.Coherent) (own : m.world.IsClosureOf n c)
    (isClosure : m.world.shapes.IsClosure c code captures) : m.world.strong c ≠ 0 ↔ m.world.Lives n := by
  have sound := coherent.world
  constructor
  · intro alive
    obtain ⟨held, detaching⟩ := coherent.detaching (.drop [] m.held (.refl _) fun f => running_held)
    rcases detaching.attached_or_falling isClosure alive with attached | ⟨_, _, _, impossible, -⟩
    · exact (sound.attached_iff own).mp attached
    · cases impossible
  · intro lives
    have attached := (sound.attached_iff own).mpr lives
    exact sound.alive_of_mem_owned (sound.toAccounted.alive_of_attached attached).1

end Machine

/-! ## Entering a function by its pointer -/

namespace World

variable {w : World} {held : List ObjId} {n : NativeId} {c store : ObjId}

/-- Host code that was detached does not start, and nothing is left of the attempt. -/
theorem enterHost_detached {env : ObjId} {k : Nat} {type : FuncType}
    (found : w.entry? env = some ⟨k, .env none type store⟩) (alive : w.strong store ≠ 0)
    (native : NativeId) (args : List (Slot ObjId)) (depth : UInt32) (slots : Nat) :
    w.enterHost env native args depth slots =
      (.error (.ofMessage "host function called after it was released"), w) := by
  unfold World.enterHost
  rw [found]
  dsimp only
  rw [if_neg alive, Option.bind_none]
  dsimp only
  rw [release_retain alive]

/-- Host code that is attached starts, whatever its arguments, which are read at the kinds of its
parameters. -/
theorem enterHost_of_attached {env : ObjId} {k : Nat} {type : FuncType} {code : HostCode}
    {captures : Scope} (found : w.entry? env = some ⟨k, .env (some c) type store⟩)
    (alive : w.strong store ≠ 0) (closure : w.closure? c = some (code, captures))
    (native : NativeId) (args : List (Slot ObjId)) (depth : UInt32) (slots : Nat) :
    ∃ a v, w.enterHost env native args depth slots = (.ok a, v) ∧ a.closure = c ∧ a.code = code ∧
      a.params = (type.params.zip args).map fun p => p.2.read p.1 := by
  unfold World.enterHost
  rw [found]
  dsimp only
  rw [if_neg alive]
  simp only [Option.bind_some, closure?_retain closure, Option.map_some]
  split
  · exact ⟨_, _, rfl, rfl, rfl, rfl⟩
  · exact ⟨_, _, rfl, rfl, rfl, rfl⟩

/-- What a function that is not deleted was lent is an environment of a store that is alive. -/
theorem Sound.home_alive (sound : w.Sound held) {i : ObjId} {h : Handle} (owner : w.IsOwner n i h)
    (live : w.deletions n = 0) : w.strong h.store ≠ 0 := by
  obtain ⟨known, -, native⟩ := isOwner_iff.mp owner
  obtain ⟨o, found, -⟩ := sound.handle_native known
  rw [native] at found
  rcases sound.place (nativeObject?_isSome.mp (Option.isSome_of_eq_some found)) with
    ⟨claimed, -⟩ | ⟨-, queued, -⟩ | ⟨-, -, deleted⟩
  · exact (sound.keeps_alive (handle?_eq_some.mpr ⟨known, (sound.mem_claimed_iff owner).mp claimed⟩)).1
  · obtain ⟨s, mem⟩ := mem_queued.mp (List.count_pos_iff.mp (queued ▸ Nat.one_pos))
    obtain ⟨kind, mem⟩ := Pending.mem_inOrder.mp mem
    obtain ⟨j, k, owner', rfl, -⟩ := sound.queued_owner mem
    obtain ⟨-, rfl⟩ := sound.owner_unique owner owner'
    intro dead
    rw [sound.rested k.store dead] at mem
    cases kind <;> cases mem
  · omega

/-- What a call by pointer finds of a host function that is not deleted. -/
theorem Sound.reaches_closure (sound : w.Sound held) (own : w.IsClosureOf n c)
    (live : w.deletions n = 0) : ∃ f s k closure type store, w.Reaches n f s ∧
      f.callback = .host c.env ∧ f.type = type.toNative ∧
      w.entry? c.env = some ⟨k, .env closure type store⟩ ∧ w.strong store ≠ 0 := by
  obtain ⟨i, h, -, owner, env, -⟩ := sound.owner_of_lentTo own
  have alive := sound.home_alive owner live
  obtain ⟨known, -, rfl⟩ := isOwner_iff.mp owner
  obtain ⟨-, s, type, isStore, isEnv, native⟩ := sound.env_known known env
  obtain ⟨st, store⟩ := sound.store_live isStore alive
  obtain ⟨found, -⟩ := callback_of_live live native
  obtain ⟨k, closure, entry⟩ := isEnv_iff.mp isEnv
  exact ⟨⟨s, type.toNative, .host c.env⟩, st, k, closure, type, h.store,
    ⟨nativeFunc?_eq_some.mpr (by rw [native?_eq, if_pos live, found]), store⟩, rfl, rfl, entry, alive⟩

/-- The code of a closure that is attached has the type of its environment. -/
theorem Sound.code_of_attached (sound : w.Sound held) {e : ObjId} {k : Nat} {type : FuncType}
    (entry : w.entry? e = some ⟨k, .env (some c) type store⟩) :
    ∃ code captures, w.shapes.IsClosure c code captures ∧ code.shape.funcType = type := by
  have fits : Object.Fits w.shapes e (.env (some c) type store) := sound.objects entry
  obtain ⟨-, own, code, captures, -, isClosure, typed, only⟩ := fits
  rw [only c rfl]
  exact ⟨code, captures, isClosure, typed⟩

end World

namespace Machine

variable {m : Machine} {n : NativeId} {c : ObjId} {args : List (Slot ObjId)} {slots : SlotArray}

/-- What entering a host function by its pointer comes to: the engine refuses the call, or the closure of
the function runs, or it has been released and nothing has happened. -/
inductive HostEntry (m : Machine) (n : NativeId) (c : ObjId) (args : List (Slot ObjId))
    (slots : SlotArray) (next : Machine) : Prop
  | interrupted (f : NativeFunc) (s : NativeStore) (reaches : m.world.Reaches n f s)
      (pending : s.interrupt = true) (same : next = (m.withWorld (m.world.modifyNativeStore f.store
        fun s => { s with interrupt := false })).refused (.ofCode .interrupt))
  | refused (f : NativeFunc) (s : NativeStore) (reaches : m.world.Reaches n f s)
      (calm : s.interrupt = false) (t : NativeTrap)
      (refusal : f.refusal? s args slots.count = some t) (same : next = m.refused t)
  | runs (lives : m.world.Lives n) (a : Activation) (closure : a.closure = c)
      (context : next.context = .body a)
      (stack : next.stack = .block true 0 a.code.body :: .activation m.context :: m.stack)
      (control : next.control = .run)
  | released (gone : ¬ m.world.Lives n)
      (same : next = m.refused (.ofMessage "host function called after it was released"))

/-- In a sound world, whatever the machine is about. -/
theorem hostEntry {held : List ObjId} (sound : m.world.Sound held)
    (control : m.control = .enter n args slots) (own : m.world.IsClosureOf n c)
    (live : m.world.deletions n = 0) : m.HostEntry n c args slots m.step := by
  obtain ⟨f, s, k, closure, type, store, reaches, callback, typed, entry, alive⟩ :=
    sound.reaches_closure own live
  rw [step_enter sound.aborted control]
  unfold Machine.enter
  rw [reaches.tryEnter]
  cases calm : s.interrupt with
  | true => exact .interrupted f s reaches calm rfl
  | false =>
      rw [if_neg Bool.false_ne_true]
      cases refusal : f.refusal? s args slots.count with
      | some t => exact .refused f s reaches calm t refusal rfl
      | none =>
          dsimp only
          rw [callback]
          dsimp only
          have counted : World.entry? (m.world.count f.store) c.env =
              some ⟨k, .env closure type store⟩ := entry
          cases closure with
          | none =>
              have gone : ¬ m.world.Lives n := fun lives => by
                have attached := (sound.attached_iff own).mpr lives
                simp [World.attached?, entry] at attached
              rw [World.enterHost_detached counted alive]
              refine .released gone ?_
              dsimp only
              rw [World.leave_count]
              rfl
          | some d =>
              have attached : m.world.attached? c.env = some d :=
                World.attached?_eq_some.mpr ⟨k, _, _, entry⟩
              obtain rfl : c = d := ObjId.env_inj.mp (sound.env_of_attached attached)
              obtain ⟨code, captures, isClosure, shape⟩ := sound.code_of_attached entry
              have closureAlive := sound.alive_of_mem_owned (sound.toAccounted.alive_of_attached attached).1
              have found : (m.world.count f.store).closure? c = some (code, captures) :=
                World.closure?_eq_some.mpr ⟨isClosure, closureAlive⟩
              obtain ⟨a, v, entered, same, rfl, params⟩ :=
                World.enterHost_of_attached counted alive found f.store args
                (s.depth + 1) slots.available
              have count : args.length = type.params.length := by
                rw [(f.arity_of_admitted refusal).1, typed]
                exact List.length_map _
              have kinds : a.params.map Val.kind = a.code.shape.funcType.params := by
                rw [params, Slot.kinds_read count, shape]
              have decoded := Shape.decode_scalars kinds
              have start : startOf a = .run := by
                unfold startOf
                rw [decoded]
              rw [entered]
              dsimp only
              rw [start, Activation.steps_eq decoded]
              exact .runs ((sound.attached_iff own).mp attached) a same rfl rfl rfl

/-- A function none of whose handles lives runs nothing, and the calls that are active stay as many. -/
theorem HostEntry.idle {next : Machine} (entry : m.HostEntry n c args slots next)
    (gone : ¬ m.world.Lives n) : ∃ t, next.control = .engine (.error t) ∧ next.context = m.context ∧
      next.stack = m.stack ∧ next.world.depthOf = m.world.depthOf ∧
        next.world.events = m.world.events := by
  cases entry with
  | interrupted f s reaches pending same =>
      let answered (s : NativeStore) : NativeStore := { s with interrupt := false }
      subst same
      exact ⟨_, rfl, rfl, rfl, (World.evolves_modifyNativeStore (f := answered) (fun _ => rfl)
        (fun _ => rfl) f.store).depth, rfl⟩
  | refused f s reaches calm t refusal same =>
      subst same
      exact ⟨t, rfl, rfl, rfl, rfl, rfl⟩
  | runs lives => exact absurd lives gone
  | released _ same =>
      subst same
      exact ⟨_, rfl, rfl, rfl, rfl, rfl⟩

/-! ## A whole run -/

/-- What a call in a public run comes to: it is interrupted, it exceeds the depth limit, or the closure
runs. -/
inductive Answers (c : ObjId) (next : Machine) : Prop
  | interrupted (control : next.control = .engine (.error (.ofCode .interrupt)))
  | exhausted (control : next.control = .engine (.error (.ofCode .stackOverflow)))
  | runs (a : Activation) (closure : a.closure = c) (context : next.context = .body a)
      (control : next.control = .run)

theorem Coherent.answers (coherent : m.Coherent) (control : m.control = .enter n args slots) :
    ∃ c, m.world.IsClosureOf n c ∧ m.world.Lives n ∧ Answers c m.step := by
  obtain ⟨call, h, callee, s, entering⟩ := coherent.entering control
  obtain ⟨below, stack⟩ := entering.stack
  have owned : call.request.func ∈ m.held := by
    unfold Machine.held owns
    rw [stack]
    simp [Frame.refs, CallRequest.refs]
  have found := World.handle?_eq_some.mpr ⟨entering.known, coherent.world.alive owned⟩
  obtain rfl : n = h.native := by
    have same := control.symm.trans entering.control
    cases same
    rfl
  have own : m.world.IsClosureOf h.native callee.closure := by
    have native := World.shapes_of_native? (World.nativeFunc?_eq_some.mp entering.callable.func)
    refine (World.lentTo_of_shape native).trans ?_
    rw [← coherent.world.env_of_attached entering.callable.attached]
    rfl
  refine ⟨callee.closure, own, ⟨_, h, found, rfl⟩, ?_⟩
  rw [entering.step_eq coherent.world.aborted]
  split_ifs
  · exact .interrupted rfl
  · exact .exhausted rfl
  · exact .runs _ rfl rfl rfl

/-- The lifetime of closures in a run. -/
structure ClosureLifetime (run : Nat → Machine) : Prop where
  /-- Every host function was registered with a closure of its own. -/
  registered : ∀ k {n env}, (run k).world.lentTo n = some env → ∃ c code captures,
    env = c.env ∧ (run k).world.shapes.IsClosure c code captures
  /-- The closure of a function is attached to its environment exactly as long as some handle on the
  function is alive, be it the owning handle or a view, and it is alive just as long. -/
  attached : ∀ k {n c}, (run k).world.IsClosureOf n c →
    ((run k).world.attached? c.env = some c ↔ (run k).world.Lives n)
  alive : ∀ k {n c}, (run k).world.IsClosureOf n c →
    ((run k).world.strong c ≠ 0 ↔ (run k).world.Lives n)
  /-- Once the last handle is gone, no handle on the function comes back. -/
  gone : ∀ {j k n c}, j ≤ k → (run j).world.IsClosureOf n c → ¬ (run j).world.Lives n →
    (run k).world.IsClosureOf n c ∧ ¬ (run k).world.Lives n
  /-- As many drops were reported under a label as closures of that label are gone. -/
  reported : ∀ k label, (run k).reported.count (.closure label) =
    (run k).world.fallen.count (.closure label)
  /-- In all releasing work, the task that ends the last handle detaches the closure; the closure is
  dropped right then, and never otherwise, and its function is queued after it. -/
  dropped : ∀ k {tasks}, (run k).Work tasks → ∀ i {t rest},
    (World.drain i tasks (run k).world).1 = t :: rest →
      (World.drain i tasks (run k).world).2.ClosureStep t rest
  /-- A flush, on its own or in the middle of other work, touches no closure from its start to its
  end. -/
  flushed : ∀ k {tasks}, (run k).Work tasks → ∀ i {s total rest},
    (World.drain i tasks (run k).world).1 = .flush s total :: rest → ∀ j,
      World.Untouched (World.drain i tasks (run k).world).2
        (World.drain j [.flush s total] (World.drain i tasks (run k).world).2).2
  /-- Whatever call enters the engine is that of a function which has a handle, and reaches the closure
  unless the engine refuses the call. -/
  reached : ∀ k {n args slots}, (run k).control = .enter n args slots → ∃ c,
    (run k).world.IsClosureOf n c ∧ (run k).world.Lives n ∧ Answers c (run k).step
  /-- A host function that is not deleted can be entered by its pointer from any machine with this world;
  its closure runs if a handle lives, and it is reported as released if none does. -/
  entered : ∀ k {m : Machine} {n c args slots}, m.world = (run k).world →
    m.control = .enter n args slots → m.world.IsClosureOf n c → m.world.deletions n = 0 →
      m.HostEntry n c args slots m.step
  /-- If none does, nothing runs, and no call is counted. -/
  idle : ∀ k {m : Machine} {n c args slots}, m.world = (run k).world →
    m.control = .enter n args slots → m.world.IsClosureOf n c → m.world.deletions n = 0 →
      ¬ m.world.Lives n → ∃ t, m.step.control = .engine (.error t) ∧ m.step.context = m.context ∧
        m.step.stack = m.stack ∧ m.step.world.depthOf = m.world.depthOf ∧
          m.step.world.events = m.world.events

/-- A transition brings no handle back to a function that has none. -/
theorem Coherent.gone_step (coherent : m.Coherent) (own : m.world.IsClosureOf n c)
    (gone : ¬ m.world.Lives n) : m.step.world.IsClosureOf n c ∧ ¬ m.step.world.Lives n := by
  have sound := coherent.world
  have next := coherent.step.world
  obtain ⟨f, found⟩ := World.func_of_lentTo own
  have known := (becomes_step m).known n _ found
  have same : m.deed.on n (.func f) = .func f := by
    unfold Deed.on
    split <;> rfl
  rw [same] at known
  have own' : m.step.world.IsClosureOf n c := by
    unfold World.IsClosureOf World.lentTo at own ⊢
    rw [known, ← own, found]
  refine ⟨own', fun lives => gone ?_⟩
  obtain ⟨i, h, type, -, -, isEnv⟩ := sound.owner_of_lentTo own
  obtain ⟨k, closure, entry⟩ := World.isEnv_iff.mp isEnv
  have attached := (becomes_step m).attached c.env c (by rw [entry]; rfl)
    ((next.attached_iff own').mpr lives)
  exact (sound.attached_iff own).mp attached

/-- On every run of a public script. -/
theorem closureLifetime_after (level : Option LogLevel) {script : Block}
    (isPublic : Block.isPublic script = true) : ClosureLifetime (after level script) := by
  have coherent := coherent_after level isPublic
  have detaching (k : Nat) {tasks : List Task} (work : (after level script k).Work tasks) (i : Nat) :
      ∃ held, (World.drain i tasks (after level script k).world).2.Detaching held
        (World.drain i tasks (after level script k).world).1 := by
    obtain ⟨held, detaching⟩ := (coherent k).detaching work
    exact ⟨held, detaching.drain⟩
  constructor
  case registered =>
      intro k n env lent
      exact (coherent k).world.closure_of_lentTo lent
  case attached =>
      intro k n c own
      exact (coherent k).world.attached_iff own
  case alive =>
      intro k n c own
      obtain ⟨d, code, captures, same, isClosure⟩ := (coherent k).world.closure_of_lentTo own
      obtain rfl := ObjId.env_inj.mp same
      exact (coherent k).closure_alive_iff own isClosure
  case gone =>
      intro j k n c le own gone
      induction k, le using Nat.le_induction with
      | base => exact ⟨own, gone⟩
      | succ k _ ih =>
          rw [after_succ]
          exact (coherent k).gone_step ih.1 ih.2
  case reported =>
      intro k label
      exact ((coherent k).ledger (.closure label)).symm
  case dropped =>
      intro k tasks work i t rest next
      obtain ⟨held, detaching⟩ := detaching k work i
      rw [next] at detaching
      exact detaching.closureStep
  case flushed =>
      intro k tasks work i s total rest next j
      obtain ⟨held, detaching⟩ := detaching k work i
      rw [next] at detaching
      have front : (World.drain i tasks (after level script k).world).2.Detaching held
        ([.flush s total] ++ rest) := detaching
      refine front.flushes fun t mem => ?_
      obtain rfl := List.mem_singleton.mp mem
      trivial
  case reached =>
      intro k n args slots control
      exact (coherent k).answers control
  case entered =>
      intro k m n c args slots world control own live
      have sound := (coherent k).world
      rw [← world] at sound
      exact hostEntry sound control own live
  case idle =>
      intro k m n c args slots world control own live gone
      have sound := (coherent k).world
      rw [← world] at sound
      exact (hostEntry sound control own live).idle gone

/-- A function with a view that is dropped after it. -/
def viewedFunc : Block :=
  [(⟨false, false⟩, .plain (.store (.scoped "s") none)),
    (⟨false, false⟩, .func (.scoped "f") (.scoped "s") (.generic ⟨[], []⟩) "f" false [] []),
    (⟨false, false⟩, .plain (.asExtern (.scoped "v") (.scoped "f"))),
    (⟨false, false⟩, .plain (.drop (.scoped "f"))),
    (⟨false, false⟩, .plain (.drop (.scoped "v")))]

/-- The view keeps the closure attached after the function is dropped. Once the view is dropped as well, the
closure is gone and its end was reported once; entering the function, which is still queued, is no call of
its store. -/
theorem closureLifetime_after_viewedFunc : Block.isPublic viewedFunc = true ∧
    (after none viewedFunc 8).world.attached? ⟨2⟩ = some ⟨1⟩ ∧
      (after none viewedFunc 10).world.strong ⟨1⟩ = 0 ∧
        (after none viewedFunc 10).reported.count (.closure "f") = 1 ∧
          { after none viewedFunc 10 with control := .enter ⟨1⟩ [] ⟨0, false⟩ }.step.world.depthOf ⟨0⟩ = 0 := by
  have isPublic : Block.isPublic viewedFunc = true := by decide
  have lifetime := closureLifetime_after none isPublic
  have early : (after none viewedFunc 8).world.IsClosureOf ⟨1⟩ ⟨1⟩ := by
    show (after none viewedFunc 8).world.lentTo ⟨1⟩ = some ⟨2⟩
    decide +kernel
  have late : (after none viewedFunc 10).world.IsClosureOf ⟨1⟩ ⟨1⟩ := by
    show (after none viewedFunc 10).world.lentTo ⟨1⟩ = some ⟨2⟩
    decide +kernel
  have lives : (after none viewedFunc 8).world.Lives ⟨1⟩ := by
    obtain ⟨h, found, native⟩ := Option.map_eq_some_iff.mp (show
      ((after none viewedFunc 8).world.handle? ⟨4⟩).map Handle.native = some ⟨1⟩ by decide +kernel)
    exact ⟨⟨4⟩, h, found, native⟩
  have detached : (after none viewedFunc 10).world.attached? ⟨2⟩ = none := by decide +kernel
  have gone : ¬ (after none viewedFunc 10).world.Lives ⟨1⟩ := fun lives => by
    have attached := (lifetime.attached 10 late).mpr lives
    cases detached.symm.trans attached
  refine ⟨isPublic, (lifetime.attached 8 early).mpr lives, ?_, ?_, ?_⟩
  · by_contra alive
    exact gone ((lifetime.alive 10 late).mp alive)
  · rw [lifetime.reported]
    decide +kernel
  · have idle (m : Machine) (world : m.world = (after none viewedFunc 10).world)
        (control : m.control = .enter ⟨1⟩ [] ⟨0, false⟩) : m.step.world.depthOf ⟨0⟩ = 0 := by
      have live : (after none viewedFunc 10).world.deletions ⟨1⟩ = 0 := by decide +kernel
      obtain ⟨t, -, -, -, depth, -⟩ := lifetime.idle 10 world control (world ▸ late) (world ▸ live)
        (world ▸ gone)
      rw [depth, world]
      decide +kernel
    exact idle _ rfl rfl

end Machine

end HostEmbedding
