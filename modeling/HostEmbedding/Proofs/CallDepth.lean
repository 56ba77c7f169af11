import HostEmbedding.Proofs.Machine.Turns
import HostEmbedding.Proofs.PanicParking

/-!
# Call depth

A store counts the calls that are active on it: an admitted call is counted until its callback ends,
and a refused one is not counted at all. So the counter is the number of callbacks of the store that
are running, on every thread, and the limit refuses a call exactly when as many are.
-/

namespace HostEmbedding

/-! ## One transition -/

namespace Deed

/-- A deed changes the depth of no store but one that it enters or leaves. -/
theorem depth_on {d : Deed} {n : NativeId} (entered : d ≠ .enter n) (left : d ≠ .leave n) (o : Native) :
    (d.on n o).depth = o.depth := by
  by_cases target : d.target? = some n
  · rw [on_target target]
    cases d with
    | enter => exact absurd (congrArg enter (Option.some.inj target)) entered
    | leave => exact absurd (congrArg leave (Option.some.inj target)) left
    | _ => cases o <;> rfl
  · rw [on_other target]

end Deed

namespace World

variable {w v : World} {d : Deed} {n : NativeId} {made : Native → Prop}

/-- What is created counts no calls. -/
theorem depth_of_fresh {o : Native} (fresh : o.Fresh) : o.depth = 0 := by
  cases o with
  | store s => exact congrArg UInt32.toNat fresh.2
  | _ => rfl

theorem Becomes.depthOf (becomes : Becomes made d w v) (new : ∀ o, made o → o.Fresh)
    (entered : d ≠ .enter n) (left : d ≠ .leave n) : v.depthOf n = w.depthOf n := by
  unfold World.depthOf
  cases found : w.nativeObject? n with
  | some o =>
      rw [becomes.known n o found]
      exact Deed.depth_on entered left o
  | none =>
      cases later : v.nativeObject? n with
      | none => rfl
      | some o => exact depth_of_fresh (new o (becomes.added n o found later))

/-- A store that is entered counts one more call. -/
theorem Becomes.depthOf_enter (becomes : Becomes made (.enter n) w v) {s : NativeStore}
    (found : w.nativeObject? n = some (.store s)) (below : s.depth < s.config.maxCallDepth) :
    v.depthOf n = w.depthOf n + 1 := by
  have later : v.nativeObject? n = some (.store { s with depth := s.depth + 1 }) := by
    rw [becomes.known n _ found, Deed.on_target rfl]
    rfl
  have less := UInt32.lt_iff_toNat_lt.mp below
  have bound := s.config.maxCallDepth.toNat_lt
  have one : (1 : UInt32).toNat = 1 := rfl
  rw [depthOf_of_nativeObject? found, depthOf_of_nativeObject? later]
  show (s.depth + 1).toNat = s.depth.toNat + 1
  rw [UInt32.toNat_add, one, Nat.mod_eq_of_lt (by omega)]

/-- A store that is left counts one call less. -/
theorem Becomes.depthOf_leave (becomes : Becomes made (.leave n) w v) (counted : 0 < w.depthOf n) :
    w.depthOf n = v.depthOf n + 1 := by
  cases found : w.nativeObject? n with
  | none =>
      unfold World.depthOf at counted
      rw [found] at counted
      cases counted
  | some o =>
      have known := becomes.known n o found
      rw [Deed.on_target rfl] at known
      cases o with
      | store s =>
          rw [depthOf_of_nativeObject? found] at counted ⊢
          rw [depthOf_of_nativeObject? known]
          have le : (1 : UInt32) ≤ s.depth := UInt32.le_iff_toNat_le.mpr counted
          show s.depth.toNat = (s.depth - 1).toNat + 1
          rw [UInt32.toNat_sub_of_le _ _ le]
          show s.depth.toNat = s.depth.toNat - 1 + 1
          omega
      | _ =>
          unfold World.depthOf at counted
          rw [found] at counted
          cases counted

end World

namespace Machine

variable {m : Machine} {store : NativeId}

/-- A call that enters its store has passed the gate. -/
theorem deed_enter (entered : m.deed = .enter store) : ∃ n args slots f s,
    m.control = .enter n args slots ∧ m.world.Reaches n f s ∧ f.store = store ∧
      f.refusal? s args slots.count = none := by
  have does := m.does_deed
  rw [entered] at does
  cases does with
  | begins g s begins same =>
      have direct := stepDeed_direct m s
      rw [← same] at direct
      cases direct
  | enters alive n args slots f s control reaches admitted same =>
      cases same
      exact ⟨n, args, slots, f, s, control, reaches, rfl, admitted⟩
  | idle same | takes _ _ _ _ _ _ _ _ same | leaves _ _ _ _ _ _ _ same | replies _ _ _ _ _ same =>
      cases same

theorem not_exhausted {f : NativeFunc} {s : NativeStore} {args : List (Slot ObjId)} {slots : Nat}
    (admitted : f.refusal? s args slots = none) : s.depth < s.config.maxCallDepth := by
  unfold NativeFunc.refusal? at admitted
  split at admitted
  · cases admitted
  · split at admitted
    · cases admitted
    · split at admitted
      · cases admitted
      · next below => exact UInt32.not_le.mp below

/-- The next transition belongs to a call on a store: the engine is entered for one of its functions, or
one of their callbacks ends. -/
inductive Concerns (m : Machine) (store : NativeId) : Prop
  | enters (n : NativeId) (args : List (Slot ObjId)) (slots : SlotArray) (f : NativeFunc)
      (control : m.control = .enter n args slots) (func : m.world.nativeFunc? n = some f)
      (same : f.store = store)
  | leaves (a : Activation) (saved : Context) (below : List Frame) (c : Completion)
      (control : m.control = .complete c) (stack : m.stack = .activation saved :: below)
      (context : m.context = .body a) (same : a.native = store)
  | replies (c : CallbackRun) (below : List Frame) (r : EngineResult) (control : m.control = .engine r)
      (stack : m.stack = .callback c :: below) (same : c.store = store)

theorem concerns_of_enter (entered : m.deed = .enter store) : m.Concerns store := by
  obtain ⟨n, args, slots, f, s, control, reaches, same, -⟩ := deed_enter entered
  exact .enters n args slots f control reaches.func same

theorem concerns_of_leave (left : m.deed = .leave store) : m.Concerns store := by
  have does := m.does_deed
  rw [left] at does
  cases does with
  | begins g s begins same =>
      have direct := stepDeed_direct m s
      rw [← same] at direct
      cases direct
  | leaves a saved below c control stack context same =>
      cases same
      exact .leaves a saved below c control stack context rfl
  | replies c below r control stack same =>
      cases same
      exact .replies c below r control stack rfl
  | idle same | takes _ _ _ _ _ _ _ _ same | enters _ _ _ _ _ _ _ _ _ same => cases same

/-! ## Counters -/

/-- Every store counts the callbacks of its functions that are running, and no more than its limit. -/
structure Counted (m : Machine) : Prop where
  counter : ∀ store, m.world.depthOf store = m.callbacks.count store
  bounded : ∀ store s, m.world.nativeObject? store = some (.store s) →
    s.depth.toNat ≤ s.config.maxCallDepth.toNat

theorem counted_start (level : Option LogLevel) (script : Block) : (start level script).Counted where
  counter _ := rfl
  bounded store s found := by cases found

theorem Counted.counter_step (counted : m.Counted) (turn : m.Turn) (store : NativeId) :
    m.step.world.depthOf store = m.step.callbacks.count store := by
  have becomes := m.becomes_step
  have moves := turn.moves
  have before := counted.counter store
  cases deed : m.deed with
  | enter s =>
      rw [deed] at becomes moves
      have after : m.step.callbacks = s :: m.callbacks := moves
      by_cases here : s = store
      · subst here
        obtain ⟨n, args, slots, f, st, control, reaches, rfl, admitted⟩ := deed_enter deed
        rw [becomes.depthOf_enter (World.nativeObject?_of_nativeStore? reaches.store)
          (not_exhausted admitted), after, List.count_cons_self, before]
      · rw [becomes.depthOf (fun _ => Added.fresh) (fun same => here (Deed.enter.inj same)) nofun, after,
          List.count_cons_of_ne here, before]
  | leave s =>
      rw [deed] at becomes moves
      have after : m.callbacks = s :: m.step.callbacks := moves
      by_cases here : s = store
      · subst here
        rw [after, List.count_cons_self] at before
        have left := becomes.depthOf_leave (n := s) (by omega)
        omega
      · rw [becomes.depthOf (fun _ => Added.fresh) nofun (fun same => here (Deed.leave.inj same)), before, after,
          List.count_cons_of_ne here]
  | _ =>
      rw [deed] at becomes moves
      have after : m.step.callbacks = m.callbacks := moves
      rw [becomes.depthOf (fun _ => Added.fresh) nofun nofun, after, before]

/-- Only a call that is admitted raises a counter. -/
theorem Counted.falls (counted : m.Counted) (turn : m.Turn) (entered : m.deed ≠ .enter store) :
    m.step.world.depthOf store ≤ m.world.depthOf store := by
  have moves := turn.moves
  rw [counted.counter_step turn, counted.counter]
  cases deed : m.deed with
  | enter s =>
      rw [deed] at moves entered
      have after : m.step.callbacks = s :: m.callbacks := moves
      rw [after, List.count_cons_of_ne fun same => entered (congrArg Deed.enter same)]
  | leave s =>
      rw [deed] at moves
      have after : m.callbacks = s :: m.step.callbacks := moves
      rw [after]
      exact List.count_le_count_cons
  | _ =>
      rw [deed] at moves
      exact Nat.le_of_eq (congrArg (fun running => running.count store) moves)

theorem Counted.bounded_step (counted : m.Counted) (turn : m.Turn) {s : NativeStore}
    (found : m.step.world.nativeObject? store = some (.store s)) :
    s.depth.toNat ≤ s.config.maxCallDepth.toNat := by
  have becomes := m.becomes_step
  cases before : m.world.nativeObject? store with
  | none =>
      have fresh := (becomes.added store _ before found).fresh
      rw [fresh.2]
      exact Nat.zero_le _
  | some o =>
      have known := becomes.known store o before
      rw [found] at known
      obtain ⟨t, rfl, config⟩ := Deed.store_on (Option.some.inj known).symm
      have bounded := counted.bounded store t before
      have told := World.depthOf_of_nativeObject? before
      have later := World.depthOf_of_nativeObject? found
      rw [config]
      by_cases entered : m.deed = .enter store
      · rw [entered] at becomes
        obtain ⟨n, args, slots, f, st, control, reaches, rfl, admitted⟩ := deed_enter entered
        have same := World.nativeObject?_of_nativeStore? reaches.store
        obtain rfl : st = t := Native.store.inj (Option.some.inj (same.symm.trans before))
        have below := not_exhausted admitted
        have raised := becomes.depthOf_enter before below
        have less := UInt32.lt_iff_toNat_lt.mp below
        omega
      · have falls := counted.falls turn entered
        omega

theorem Counted.step (counted : m.Counted) (inOrder : m.InOrder) : m.step.Counted where
  counter := counted.counter_step inOrder.turn
  bounded _ _ found := counted.bounded_step inOrder.turn found

theorem counted_after (level : Option LogLevel) (script : Block) (k : Nat) :
    (after level script k).Counted := by
  induction k with
  | zero => exact counted_start level script
  | succ k ih =>
      rw [after_succ]
      exact ih.step (inOrder_after level script k)

/-! ## The limit -/

/-- What runs in a call that the gate has admitted at a depth. -/
inductive Runs (m : Machine) (f : NativeFunc) (args : List (Slot ObjId)) (slots : SlotArray)
    (depth : Nat) (next : Machine) : Prop
  /-- A host body, which is told the depth. -/
  | host (a : Activation) (context : next.context = .body a) (control : next.control = startOf a)
      (stack : next.stack = .block true 0 a.steps :: .activation m.context :: m.stack)
      (native : a.native = f.store) (told : a.depth.toNat = depth)
  /-- A native callback, which is told the depth and shows it; it calls on or has ended. -/
  | native (code : NativeCode) (callback : f.callback = .native code) (told : UInt32)
      (same : told.toNat = depth)
      (shown : next.world.events = callbackEvent code told args slots.available :: m.world.events)
      (control : (∃ callee results, next.control = .enter callee args results) ∨
        next.control = .engine (replyOf ⟨code, f.store, args, slots.available⟩))
  /-- Nothing, as the host code of the function is gone. -/
  | gone (env : ObjId) (callback : f.callback = .host env) (message : String)
      (answer : next.control = .engine (.error (.ofMessage message)))

/-- A call finds its function, and neither an interrupt nor what it passes is a reason to refuse it. -/
structure Passes (m : Machine) (n : NativeId) (args : List (Slot ObjId)) (slots : SlotArray)
    (f : NativeFunc) (s : NativeStore) : Prop where
  alive : m.world.aborted = none
  control : m.control = .enter n args slots
  reaches : m.world.Reaches n f s
  calm : s.interrupt = false
  arity : args.length = f.type.params.length
  results : slots.count = f.type.results.length
  kinds : firstWrongKind f.type.params args = none

section

variable {n : NativeId} {args : List (Slot ObjId)} {slots : SlotArray} {f : NativeFunc} {s : NativeStore}

/-- Only the limit is left to refuse a call that passes the other checks. -/
theorem Passes.refusal? (passes : m.Passes n args slots f s) :
    f.refusal? s args slots.count =
      if s.config.maxCallDepth ≤ s.depth then some (.ofCode .stackOverflow) else none := by
  unfold NativeFunc.refusal?
  rw [passes.arity, passes.results, passes.kinds]
  simp

theorem Passes.exhausted_iff (passes : m.Passes n args slots f s) (counted : m.Counted) :
    s.config.maxCallDepth ≤ s.depth ↔
      s.config.maxCallDepth.toNat ≤ m.callbacks.count f.store := by
  have store := World.nativeObject?_of_nativeStore? passes.reaches.store
  rw [UInt32.le_iff_toNat_le, ← counted.counter, World.depthOf_of_nativeObject? store]

/-- A call is refused when as many calls as the limit allows are active, and nothing is left of it. -/
theorem Passes.refused (passes : m.Passes n args slots f s) (counted : m.Counted)
    (exhausted : s.config.maxCallDepth.toNat ≤ m.callbacks.count f.store) :
    m.step = m.refused (.ofCode .stackOverflow) := by
  have refusal := passes.refusal?
  rw [if_pos ((passes.exhausted_iff counted).mpr exhausted)] at refusal
  rw [step_enter passes.alive passes.control]
  unfold Machine.enter
  rw [passes.reaches.tryEnter, if_neg (by simp [passes.calm]), refusal]
  rfl

/-- A call is admitted when fewer are active, and told how many are with it. -/
theorem Passes.runs (passes : m.Passes n args slots f s) (counted : m.Counted)
    (room : m.callbacks.count f.store < s.config.maxCallDepth.toNat) :
    m.Runs f args slots (m.callbacks.count f.store + 1) m.step := by
  have store := World.nativeObject?_of_nativeStore? passes.reaches.store
  have active := counted.counter f.store
  rw [World.depthOf_of_nativeObject? store] at active
  have told : (s.depth + 1).toNat = m.callbacks.count f.store + 1 := by
    have bound := s.config.maxCallDepth.toNat_lt
    have one : (1 : UInt32).toNat = 1 := rfl
    rw [UInt32.toNat_add, one, Nat.mod_eq_of_lt (by omega), active]
  have refusal := passes.refusal?
  rw [if_neg fun exhausted => absurd ((passes.exhausted_iff counted).mp exhausted) (by omega)] at refusal
  rw [step_enter passes.alive passes.control]
  cases m.entry n args slots with
  | missing none t same => exact absurd passes.reaches (none f s)
  | interrupted f' s' reaches pending same =>
      obtain ⟨rfl, rfl⟩ := passes.reaches.unique reaches
      cases pending.symm.trans passes.calm
  | refused f' s' reaches calm t refusal' same =>
      obtain ⟨rfl, rfl⟩ := passes.reaches.unique reaches
      cases refusal'.symm.trans refusal
  | released f' s' reaches calm admitted env callback message w inert same =>
      obtain ⟨rfl, rfl⟩ := passes.reaches.unique reaches
      rw [same]
      exact .gone env callback message rfl
  | replied f' s' reaches calm admitted code callback same =>
      obtain ⟨rfl, rfl⟩ := passes.reaches.unique reaches
      rw [same]
      exact .native code callback (s.depth + 1) told rfl (.inr rfl)
  | callsOn f' s' reaches calm admitted code callback callee results same =>
      obtain ⟨rfl, rfl⟩ := passes.reaches.unique reaches
      rw [same]
      exact .native code callback (s.depth + 1) told rfl (.inl ⟨callee, _, rfl⟩)
  | starts f' s' reaches calm admitted env callback a w starts same =>
      obtain ⟨rfl, rfl⟩ := passes.reaches.unique reaches
      rw [same]
      exact .host a rfl rfl rfl starts.native ((congrArg UInt32.toNat starts.depth).trans told)

/-- A call that passes the other checks overflows exactly at the limit. -/
theorem Passes.overflow_iff (passes : m.Passes n args slots f s) (counted : m.Counted) :
    m.step.control = .engine (.error (.ofCode .stackOverflow)) ↔
      s.config.maxCallDepth.toNat ≤ m.callbacks.count f.store := by
  constructor
  · intro overflow
    by_contra room
    cases passes.runs counted (Nat.not_le.mp room) with
    | host a context control stack native told =>
        exact startOf_ne_engine a _ (control.symm.trans overflow)
    | native code callback told same shown control =>
        rcases control with ⟨callee, results, control⟩ | control
        · cases overflow.symm.trans control
        · exact replyOf_ne_code _ (Control.engine.inj (control.symm.trans overflow))
    | gone env callback message answer => cases overflow.symm.trans answer
  · intro exhausted
    rw [passes.refused counted exhausted]
    rfl

end

/-- A body that starts is told how many calls are active with it. -/
theorem Enters.told {a : Activation} {n : NativeId} {f : NativeFunc} {s : NativeStore} {env : ObjId}
    (enters : m.Enters a n f s env) (later : m.step.Counted) :
    a.depth.toNat = m.step.callbacks.count a.native := by
  have found := World.nativeObject?_of_nativeStore? enters.reaches.store
  have known := m.becomes_step.known f.store _ found
  rw [enters.deed, enters.native, Deed.on_target rfl] at known
  rw [← later.counter, enters.native, World.depthOf_of_nativeObject? known, enters.depth]
  rfl

/-! ## The end of a call -/

theorem suffix_enter (m : Machine) (n : NativeId) (args : List (Slot ObjId)) (slots : SlotArray) :
    m.stack <:+ (m.enter n args slots).stack := by
  cases m.entry n args slots with
  | callsOn f s reaches calm admitted code callback callee results same =>
      rw [same]
      exact List.suffix_cons _ m.stack
  | starts f s reaches calm admitted env callback a w starts same =>
      rw [same]
      exact (List.suffix_cons _ m.stack).trans (List.suffix_cons _ _)
  | missing _ _ same | interrupted _ _ _ _ same | refused _ _ _ _ _ _ same =>
      rw [same]
      exact List.suffix_rfl
  | released _ _ _ _ _ _ _ _ _ _ same | replied _ _ _ _ _ _ _ same =>
      rw [same]
      exact List.suffix_rfl

/-- A frame is on top when it goes away. -/
theorem Turn.uncovers (turn : m.Turn) {base : List Frame} (stands : base <:+ m.stack)
    (gone : ¬ base <:+ m.step.stack) : m.stack = base := by
  cases turn with
  | stays top new rest stack stack' single plain plain' context still =>
      rw [stack'] at gone
      rw [stack] at stands ⊢
      cases top with
      | nil => exact absurd (stands.trans (List.suffix_append new rest)) gone
      | cons f later =>
          obtain rfl : later = [] := by
            rw [List.length_cons] at single
            exact List.length_eq_zero_iff.mp (by omega)
          rcases List.suffix_cons_iff.mp stands with same | stands
          · exact same.symm
          · exact absurd (stands.trans (List.suffix_append new rest)) gone
  | starts a n f s env enters context stack =>
      rw [stack] at gone
      exact absurd ((stands.trans (List.suffix_cons _ _)).trans (List.suffix_cons _ _)) gone
  | callsOn c context stack deed =>
      rw [stack] at gone
      exact absurd (stands.trans (List.suffix_cons _ _)) gone
  | parts f body aside stack still =>
      rw [stack] at gone
      exact absurd ((stands.trans (List.suffix_cons _ _)).trans (List.suffix_cons _ _)) gone
  | leaves a saved below context stack context' stack' deed =>
      rw [stack'] at gone
      rw [stack] at stands ⊢
      exact ((List.suffix_cons_iff.mp stands).resolve_right gone).symm
  | replies c below stack context stack' deed =>
      rw [stack'] at gone
      rw [stack] at stands ⊢
      exact ((List.suffix_cons_iff.mp stands).resolve_right gone).symm
  | joins f below aside stack stack' still =>
      rw [stack'] at gone
      rw [stack] at stands ⊢
      exact ((List.suffix_cons_iff.mp stands).resolve_right gone).symm

/-- A frame that waits for the engine only goes away when the engine returns to it. -/
theorem InOrder.returns_to (inOrder : m.InOrder) {base : List Frame} (on : Frame.OnCall base)
    (stands : base <:+ m.stack) (gone : ¬ base <:+ m.step.stack) :
    m.stack = base ∧ ∃ r, m.control = .engine r := by
  have top := inOrder.turn.uncovers stands gone
  refine ⟨top, ?_⟩
  obtain ⟨nested, suits⟩ := inOrder
  cases aborted : m.world.aborted with
  | some op =>
      rw [step_aborted aborted] at gone
      exact absurd stands gone
  | none =>
      cases control : m.control with
      | run =>
          rw [control] at suits
          obtain ⟨outer, index, steps, below, block⟩ := suits
          rw [← top, block] at on
          cases on
      | complete c =>
          rw [control] at suits
          rw [← top] at on
          cases stack : m.stack with
          | nil =>
              rw [stack] at on
              cases on
          | cons f below =>
              rw [stack] at on suits
              cases on.symm.trans suits
      | enter n args slots =>
          rw [step_enter aborted control] at gone
          exact absurd (stands.trans (suffix_enter m n args slots)) gone
      | engine r => exact ⟨r, rfl⟩
      | halted ending =>
          have step : m.step = m := by
            unfold Machine.step
            rw [aborted, control]
            rfl
          rw [step] at gone
          exact absurd stands gone

/-! ## Along a run -/

/-- A host body has started with a transition, and is on the stack for some transitions after. -/
structure Running (run : Nat → Machine) (n k : Nat) (a : Activation) : Prop where
  enters : ∃ callee f s env, (run n).Enters a callee f s env
  begins : (run (n + 1)).context = .body a
  stays : Stays run (n + 1) k (.activation (run n).context :: (run n).stack)

section

variable {run : Nat → Machine} (steps : ∀ n, run (n + 1) = (run n).step)
variable (inOrder : ∀ n, (run n).InOrder)

include steps inOrder

/-- Frames that stay on the stack for some transitions belong to the context that they belonged to. -/
theorem Stays.above {n k : Nat} {above base : List Frame} (stays : Stays run n k base)
    (stack : (run n).stack = above ++ base) : ∃ above', (run (n + k)).stack = above' ++ base ∧
      ∃ t, Frame.context (run (n + k)).context above' =
        (Frame.context (run n).context above).withLocals t := by
  induction k with
  | zero => exact ⟨above, stack, Context.withLocals_kept _⟩
  | succ k ih =>
      obtain ⟨between, placed, t, context⟩ := ih fun j le => stays j (by omega)
      have next : run (n + (k + 1)) = (run (n + k)).step := steps (n + k)
      have suffix := stays (k + 1) (Nat.le_refl _)
      rw [next] at suffix ⊢
      obtain ⟨above', placed', t', context'⟩ := (inOrder (n + k)).turn.above placed suffix
      refine ⟨above', placed', t', ?_⟩
      rw [context', context, Context.withLocals_withLocals]

/-- When the frames on top of a stack are gone again, the same callbacks are running. -/
theorem Stays.callbacks {n k : Nat} (stays : Stays run n k (run n).stack)
    (back : (run (n + k)).stack = (run n).stack) : (run (n + k)).callbacks = (run n).callbacks := by
  have bare : (run n).stack = [] ++ (run n).stack := rfl
  obtain ⟨above, stack, t, context⟩ := stays.above steps inOrder bare
  obtain rfl : above = [] := List.append_left_eq_self.mp (stack.symm.trans back)
  have same : (run (n + k)).context = (run n).context.withLocals t := context
  unfold Machine.callbacks
  rw [back, same, Frame.callbacks_withLocals]

/-- A host body that is on the stack has started, and has stayed there since. -/
theorem started {i : Nat} {saved : Context} {below : List Frame}
    (idle : ¬ .activation saved :: below <:+ (run 0).stack)
    (stands : .activation saved :: below <:+ (run i).stack) :
    ∃ n k a, i = n + 1 + k ∧ Running run n k a ∧ saved = (run n).context ∧ below = (run n).stack ∧
      (run (n + 1)).stack = [.block true 0 a.steps] ++ .activation saved :: below := by
  induction i with
  | zero => exact absurd stands idle
  | succ i ih =>
      rw [steps] at stands
      rcases (inOrder i).turn.stood stands with
        stood | ⟨rfl, rfl, a, n, f, s, env, enters, context, stack⟩
      · obtain ⟨n, k, a, rfl, running, rfl, rfl, stack⟩ := ih stood
        refine ⟨n, k + 1, a, rfl, ⟨running.enters, running.begins, fun j le => ?_⟩, rfl, rfl, stack⟩
        rcases Nat.lt_or_eq_of_le le with less | rfl
        · exact running.stays j (Nat.le_of_lt_succ less)
        · rw [← steps] at stands
          exact stands
      · rw [← steps] at context stack
        refine ⟨i, 0, a, rfl, ⟨⟨n, f, s, env, enters⟩, context, fun j le => ?_⟩, rfl, rfl, stack⟩
        rw [Nat.le_zero.mp le]
        exact ⟨_, stack.symm⟩

/-- The running body has started; since then only its locals have changed. -/
theorem body_started (idle : ∀ saved below, ¬ .activation saved :: below <:+ (run 0).stack) {i : Nat}
    {a : Activation} (context : (run i).context = .body a) :
    ∃ n k b locals, i = n + 1 + k ∧ Running run n k b ∧ a = { b with locals := locals } := by
  have nested := (inOrder i).nested
  rw [context] at nested
  obtain ⟨above, saved, below, stack, same⟩ := nested.exists_activation
  obtain ⟨n, k, b, rfl, running, rfl, rfl, placed⟩ :=
    started steps inOrder (idle saved below) ⟨above, stack.symm⟩
  obtain ⟨above', stack', t, kept⟩ := running.stays.above steps inOrder placed
  obtain rfl : above' = above := List.append_cancel_right (stack'.symm.trans stack)
  rw [context, same, running.begins] at kept
  exact ⟨n, k, b, t, rfl, running, Context.body.inj kept⟩

end

/-- What a body that was given its caller is told of its depth. -/
theorem reports {g : Guard} {name : Option VarName} (begins : m.AtStep g (.plain (.depth name)))
    {a : Activation} (caller : m.caller? = some a) :
    m.step.control = .complete (.done (.nat a.depth.toNat)) := by
  rw [begins.step_eq]
  show (m.callerDepth name).control = _
  unfold Machine.callerDepth
  rw [caller]
  cases name <;> rfl

/-! ## Every run -/

/-- The next transition makes a store with a configuration: that of the engine in which it is made, or the
standard one. -/
inductive MakesStore (m : Machine) (config : Config) : Prop
  | standard (g : Guard) (name : VarName) (begins : m.AtStep g (.plain (.store name none)))
      (same : config = .standard)
  | engine (g : Guard) (name v : VarName) (begins : m.AtStep g (.plain (.store name (some v))))
      (held : m.lookup v = some (.engine config))
  | pointer (g : Guard) (name p : Option VarName) (begins : m.AtStep g (.native name (.storeNew p)))
      (n : NativeId) (named : m.objectNamed? p = some (n, .engine config))

theorem Added.makesStore {s : NativeStore} (added : m.Added (.store s)) : m.MakesStore s.config := by
  cases added with
  | step g s begins adds =>
      cases adds with
      | store name => exact .standard g name begins rfl
      | storeIn name v config held => exact .engine g name v begins held
      | storeNew name p n config named => exact .pointer g name p begins n named
  | trap t control same => cases same

/-- How calls are counted on a run. -/
structure CallDepth (run : Nat → Machine) : Prop where
  /-- A store is made with the configuration of its engine, and with it the limit of its calls. -/
  created : ∀ i store s, (run i).world.nativeObject? store = none →
    (run (i + 1)).world.nativeObject? store = some (.store s) → (run i).MakesStore s.config
  /-- It never gets another one. -/
  kept : ∀ i store s t, (run i).world.nativeObject? store = some (.store s) →
    (run (i + 1)).world.nativeObject? store = some (.store t) → t.config = s.config
  /-- At every moment the counter of a store is the number of callbacks of its functions that are
  running. -/
  counter : ∀ i store, (run i).world.depthOf store = (run i).callbacks.count store
  /-- It never exceeds the limit. -/
  bounded : ∀ i store s, (run i).world.nativeObject? store = some (.store s) →
    s.depth.toNat ≤ s.config.maxCallDepth.toNat
  /-- Only a call on a store changes its counter. -/
  apart : ∀ i store, ¬ (run i).Concerns store →
    (run (i + 1)).world.depthOf store = (run i).world.depthOf store
  /-- A call stays on the stack until the engine returns to it. -/
  ends : ∀ i k, (∃ n args slots, (run i).control = .enter n args slots) →
    Stays run i k (run i).stack → ¬ (run i).stack <:+ (run (i + k + 1)).stack →
    (run (i + k)).stack = (run i).stack ∧ ∃ r, (run (i + k)).control = .engine r
  /-- When the frames of a call or of any other step are gone again, every counter is what it was. -/
  balanced : ∀ i k, Stays run i k (run i).stack → (run (i + k)).stack = (run i).stack →
    ∀ store, (run (i + k)).world.depthOf store = (run i).world.depthOf store
  /-- The running body keeps the number of calls on its store that were active when it was entered,
  itself among them. -/
  told : ∀ i a, (run i).context = .body a → ∃ n k b locals, i = n + 1 + k ∧ Running run n k b ∧
    a = { b with locals := locals } ∧ a.depth.toNat = (run (n + 1)).callbacks.count a.native
  /-- That is what its caller reports. -/
  reports : ∀ i g name a, (run i).AtStep g (.plain (.depth name)) → (run i).caller? = some a →
    (run (i + 1)).control = .complete (.done (.nat a.depth.toNat))
  /-- A call that passes the other checks is refused exactly when as many calls as the limit allows are
  active on its store. -/
  limit : ∀ i n args slots f s, (run i).Passes n args slots f s →
    ((run (i + 1)).control = .engine (.error (.ofCode .stackOverflow)) ↔
      s.config.maxCallDepth.toNat ≤ (run i).callbacks.count f.store)
  /-- Then nothing runs and nothing changes. -/
  refused : ∀ i n args slots f s, (run i).Passes n args slots f s →
    s.config.maxCallDepth.toNat ≤ (run i).callbacks.count f.store →
    run (i + 1) = (run i).refused (.ofCode .stackOverflow)
  /-- Otherwise its callback runs, one deeper. -/
  runs : ∀ i n args slots f s, (run i).Passes n args slots f s →
    (run i).callbacks.count f.store < s.config.maxCallDepth.toNat →
    (run i).Runs f args slots ((run i).callbacks.count f.store + 1) (run (i + 1))

/-- On every run of every script, over the public interface or the native one. -/
theorem callDepth_after (level : Option LogLevel) (script : Block) :
    CallDepth (after level script) := by
  have steps := after_succ level script
  have inOrder := inOrder_after level script
  have counted := counted_after level script
  have idle (saved : Context) (below : List Frame) :
      ¬ .activation saved :: below <:+ (after level script 0).stack := by
    rintro ⟨above, start⟩
    cases above with
    | nil => cases start
    | cons f above => cases above <;> cases (List.cons.inj start).2
  constructor
  case created =>
      intro i store s absent found
      exact ((becomes_step _).added store _ absent (steps i ▸ found)).makesStore
  case kept =>
      intro i store s t before after
      have known := (becomes_step _).known store _ before
      rw [← steps, after] at known
      obtain ⟨s', same, config⟩ := Deed.store_on (Option.some.inj known).symm
      cases same
      exact config
  case counter =>
      intro i store
      exact (counted i).counter store
  case bounded =>
      intro i store s found
      exact (counted i).bounded store s found
  case apart =>
      intro i store apart
      rw [steps]
      exact (becomes_step _).depthOf (fun _ => Added.fresh) (fun entered => apart (concerns_of_enter entered))
        fun left => apart (concerns_of_leave left)
  case ends =>
      intro i k enters stays gone
      obtain ⟨n, args, slots, control⟩ := enters
      have on := (inOrder i).suits
      rw [control] at on
      rw [steps] at gone
      exact (inOrder (i + k)).returns_to on (stays k (Nat.le_refl k)) gone
  case balanced =>
      intro i k stays back store
      rw [(counted (i + k)).counter, (counted i).counter, stays.callbacks steps inOrder back]
  case told =>
      intro i a context
      obtain ⟨n, k, b, locals, rfl, running, rfl⟩ := body_started steps inOrder idle context
      refine ⟨n, k, b, locals, rfl, running, rfl, ?_⟩
      obtain ⟨callee, f, s, env, enters⟩ := running.enters
      rw [steps]
      exact enters.told (steps n ▸ counted (n + 1))
  case reports =>
      intro i g name a begins caller
      rw [steps]
      exact reports begins caller
  case limit =>
      intro i n args slots f s passes
      rw [steps]
      exact passes.overflow_iff (counted i)
  case refused =>
      intro i n args slots f s passes exhausted
      rw [steps]
      exact passes.refused (counted i) exhausted
  case runs =>
      intro i n args slots f s passes room
      rw [steps]
      exact passes.runs (counted i) room

/-- A function that calls itself, in a store that allows two calls. -/
def endlessCalls : Block :=
  [(⟨false, false⟩, .plain (.engine (.scoped "e") none (some 2))),
    (⟨false, false⟩, .plain (.store (.scoped "s") (some (.scoped "e")))),
    (⟨false, false⟩, .func (.scoped "f") (.scoped "s") (.generic ⟨[], []⟩) "f" false []
      [(⟨true, false⟩, .call (.global "f") [] [])]),
    (⟨false, false⟩, .call (.scoped "f") [] [])]

/-- The third call finds two active; when all calls have ended none is. -/
example : (after none endlessCalls 11).callbacks = [⟨0⟩, ⟨0⟩] ∧
    (after none endlessCalls 12).world.depthOf ⟨0⟩ = 2 ∧
      (after none endlessCalls 20).world.depthOf ⟨0⟩ = 0 := by
  decide +kernel

end Machine

end HostEmbedding
