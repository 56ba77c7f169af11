import HostEmbedding.Proofs.Slots.Moves
import HostEmbedding.Proofs.Native.Steps

/-!
# Entering the engine

What the gate says to a call, and what follows from it: the call is refused and nothing is left of it,
or a native callback or a host body runs and is counted in its store until it leaves.
-/

namespace HostEmbedding

/-- Why a store that is not interrupted refuses a call of a function. -/
def NativeFunc.refusal? (f : NativeFunc) (s : NativeStore) (args : List (Slot ObjId)) (slots : Nat) :
    Option NativeTrap :=
  if args.length ≠ f.type.params.length ∨ slots ≠ f.type.results.length then
    some (.wrongArity f.type.params.length f.type.results.length args.length slots)
  else match firstWrongKind f.type.params args with
    | some i => some (.wrongKind i)
    | none => if s.config.maxCallDepth ≤ s.depth then some (.ofCode .stackOverflow) else none

/-- An admitted call has the declared numbers of arguments and result slots. -/
theorem NativeFunc.arity_of_admitted (f : NativeFunc) {s : NativeStore} {args : List (Slot ObjId)}
    {slots : Nat} (admitted : f.refusal? s args slots = none) :
    args.length = f.type.params.length ∧ slots = f.type.results.length := by
  unfold refusal? at admitted
  split at admitted
  · cases admitted
  · next arity =>
      push Not at arity
      exact arity

namespace World

variable {w v : World} {n : NativeId} {f : NativeFunc} {s : NativeStore}

/-! ## The gate -/

structure Reaches (w : World) (n : NativeId) (f : NativeFunc) (s : NativeStore) : Prop where
  func : w.nativeFunc? n = some f
  store : w.nativeStore? f.store = some s

/-- A call by pointer finds at most one function. -/
theorem Reaches.unique {f' : NativeFunc} {s' : NativeStore} (first : w.Reaches n f s)
    (second : w.Reaches n f' s') : f = f' ∧ s = s' := by
  obtain rfl : f = f' := Option.some.inj (first.func.symm.trans second.func)
  exact ⟨rfl, Option.some.inj (first.store.symm.trans second.store)⟩

/-- What the gate says to a call that finds its function. -/
theorem Reaches.tryEnter (reaches : w.Reaches n f s) (args : List (Slot ObjId)) (slots : Nat) :
    w.tryEnter n args slots =
      if s.interrupt then
        (.error (.ofCode .interrupt),
          w.modifyNativeStore f.store fun s => { s with interrupt := false })
      else match f.refusal? s args slots with
        | some t => (.error t, w)
        | none => (.ok ⟨f, s.depth + 1⟩, w.count f.store) := by
  unfold World.tryEnter NativeFunc.refusal?
  rw [reaches.func]
  dsimp only
  rw [reaches.store]
  dsimp only
  by_cases pending : s.interrupt
  · rw [if_pos pending, if_pos pending]
  · rw [if_neg pending, if_neg pending]
    by_cases arity : args.length ≠ f.type.params.length ∨ slots ≠ f.type.results.length
    · rw [if_pos arity, if_pos arity]
    · rw [if_neg arity, if_neg arity]
      cases firstWrongKind f.type.params args with
      | some i => rfl
      | none =>
          dsimp only
          split
          · rw [leave_count]
          · rfl

/-- A call that finds no function is refused. -/
theorem tryEnter_of_missing (missing : ∀ f s, ¬ w.Reaches n f s) (args : List (Slot ObjId))
    (slots : Nat) : ∃ t, w.tryEnter n args slots = (.error t, w) := by
  unfold World.tryEnter
  cases func : w.nativeFunc? n with
  | none => exact ⟨_, rfl⟩
  | some f =>
      dsimp only
      cases store : w.nativeStore? f.store with
      | none => exact ⟨_, rfl⟩
      | some s => exact absurd ⟨func, store⟩ (missing f s)

/-! ## Behind the gate -/

/-- The object at an address after a native store is changed. -/
theorem nativeObject?_modifyNativeStore (w : World) (n : NativeId) (f : NativeStore → NativeStore)
    (x : NativeId) : (w.modifyNativeStore n f).nativeObject? x =
      if x = n then (w.nativeObject? n).map (fun
        | .store s => .store (f s)
        | o => o)
      else w.nativeObject? x := by
  refine nativeObject?_modifyNative w n (fun e => ?_) x
  obtain ⟨o, deletions, finalized, tag⟩ := e
  cases o <;> exact ⟨rfl, rfl⟩

/-- A call that was counted and leaves again leaves nothing behind. -/
theorem Inert.left {store : NativeId} (inert : Inert (w.count store) v) : Inert w (v.leave store) where
  natives := by
    have back : ((w.count store).leave store).nativeObject? = w.nativeObject? := by
      rw [leave_count]
    rw [← back]
    funext x
    unfold World.leave
    rw [nativeObject?_modifyNativeStore, nativeObject?_modifyNativeStore, inert.natives]
  entries := inert.entries
  attached := inert.attached

/-- A body that starts holds its store, its closure, its parameters and its locals, and is counted at
the depth that it is told. -/
structure Starts (w : World) (env : ObjId) (native : NativeId) (depth : UInt32) (a : Activation)
    (v : World) : Prop where
  native : a.native = native
  depth : a.depth = depth
  attached : w.attached? env = some a.closure
  inert : Inert w v

/-- Host code starts, even if it panics at once, or it is gone and nothing happens. -/
theorem enterHost_spec (w : World) (env : ObjId) (native : NativeId) (args : List (Slot ObjId))
    (depth : UInt32) (slots : Nat) :
    (∃ message, (w.enterHost env native args depth slots).1 = .error (.ofMessage message) ∧
      Inert w (w.enterHost env native args depth slots).2) ∨
    ∃ a, (w.enterHost env native args depth slots).1 = .ok a ∧
      w.Starts env native depth a (w.enterHost env native args depth slots).2 := by
  unfold World.enterHost
  split
  · next k callback type store found =>
      split
      · exact .inl ⟨_, rfl, .refl w⟩
      · have counted := inert_retain w store
        dsimp only
        split
        · exact .inl ⟨_, rfl, counted.trans (drains_release _ store).inert⟩
        · next closure code running =>
            obtain ⟨c, attached, running⟩ := Option.bind_eq_some_iff.mp running
            obtain ⟨p, _, same⟩ := Option.map_eq_some_iff.mp running
            cases same
            have held : w.attached? env = some closure := by
              rw [attached?_eq, found]
              exact attached
            have given : Inert w (((w.retain store).retain closure).decodeBorrowed type.params args).2 :=
              (counted.trans (inert_retain _ closure)).trans (inert_retainAll _ _)
            split
            · exact .inr ⟨_, rfl, rfl, rfl, held, given⟩
            · next scalars _ =>
                have started := given.trans (inert_retainAll _ (Scalar.refs scalars))
                refine .inr ⟨_, rfl, rfl, rfl, held, ?_⟩
                dsimp only
                split
                · exact started
                · exact started.trans (same_emit _ rfl).inert
  · exact .inl ⟨_, rfl, .refl w⟩

end World

namespace Machine

variable {m : Machine}

def callbackEvent (code : NativeCode) (depth : UInt32) (args : List (Slot ObjId)) (slots : Nat) : Event :=
  .callback code.label depth (shownSlots args) slots

/-- A native callback raises no trap of a store itself. -/
theorem replyOf_ne_code (c : CallbackRun) {code : TrapCode} :
    replyOf c ≠ .error (.ofCode code) := by
  intro same
  unfold replyOf at same
  split at same
  · cases congrArg NativeTrap.code (Except.error.inj same)
  · split at same <;> cases same

/-- What entering the engine comes to. Unless the gate refuses the call, it is counted in the store of
the function for as long as what it runs is on the stack. -/
inductive Entry (m : Machine) (n : NativeId) (args : List (Slot ObjId)) (slots : SlotArray)
    (next : Machine) : Prop
  | missing (none : ∀ f s, ¬ m.world.Reaches n f s) (t : NativeTrap) (same : next = m.refused t)
  /-- The interrupt that was pending is taken. -/
  | interrupted (f : NativeFunc) (s : NativeStore) (reaches : m.world.Reaches n f s)
      (pending : s.interrupt = true) (same : next = (m.withWorld (m.world.modifyNativeStore f.store
        fun s => { s with interrupt := false })).refused (.ofCode .interrupt))
  | refused (f : NativeFunc) (s : NativeStore) (reaches : m.world.Reaches n f s)
      (calm : s.interrupt = false) (t : NativeTrap)
      (refusal : f.refusal? s args slots.count = some t) (same : next = m.refused t)
  /-- The host code of the function is gone. -/
  | released (f : NativeFunc) (s : NativeStore) (reaches : m.world.Reaches n f s)
      (calm : s.interrupt = false) (admitted : f.refusal? s args slots.count = none) (env : ObjId)
      (callback : f.callback = .host env) (message : String) (w : World)
      (inert : World.Inert m.world w) (same : next = (m.withWorld w).refused (.ofMessage message))
  /-- A native callback calls nothing and has ended. -/
  | replied (f : NativeFunc) (s : NativeStore) (reaches : m.world.Reaches n f s)
      (calm : s.interrupt = false) (admitted : f.refusal? s args slots.count = none) (code : NativeCode)
      (callback : f.callback = .native code)
      (same : next = { m.withWorld (m.world.emit (callbackEvent code (s.depth + 1) args slots.available))
        with control := .engine (replyOf ⟨code, f.store, args, slots.available⟩) })
  /-- A native callback calls on. -/
  | callsOn (f : NativeFunc) (s : NativeStore) (reaches : m.world.Reaches n f s)
      (calm : s.interrupt = false) (admitted : f.refusal? s args slots.count = none) (code : NativeCode)
      (callback : f.callback = .native code) (callee : NativeId) (results : Nat)
      (same : next = { m with
        world := (m.world.count f.store).emit (callbackEvent code (s.depth + 1) args slots.available)
        stack := .callback ⟨code, f.store, args, slots.available⟩ :: m.stack
        control := .enter callee args ⟨results, false⟩ })
  | starts (f : NativeFunc) (s : NativeStore) (reaches : m.world.Reaches n f s)
      (calm : s.interrupt = false) (admitted : f.refusal? s args slots.count = none) (env : ObjId)
      (callback : f.callback = .host env) (a : Activation) (w : World)
      (starts : (m.world.count f.store).Starts env f.store (s.depth + 1) a w)
      (same : next = { m with
        world := w
        context := .body a
        stack := .block true 0 a.steps :: .activation m.context :: m.stack
        control := startOf a })

/-- The host code of an admitted call starts or is gone. -/
theorem entry_host {n : NativeId} {args : List (Slot ObjId)} {slots : SlotArray} {f : NativeFunc}
    {s : NativeStore} (reaches : m.world.Reaches n f s) (calm : s.interrupt = false)
    (admitted : f.refusal? s args slots.count = none) {env : ObjId} (callback : f.callback = .host env) :
    m.Entry n args slots
      (match (m.world.count f.store).enterHost env f.store args (s.depth + 1) slots.available with
        | (.error t, w) => { m with world := w.leave f.store, control := .engine (.error t) }
        | (.ok a, w) =>
            { m with
              world := w
              context := .body a
              stack := .block true 0 a.steps :: .activation m.context :: m.stack
              control := startOf a }) := by
  have spec := (m.world.count f.store).enterHost_spec env f.store args (s.depth + 1) slots.available
  generalize (m.world.count f.store).enterHost env f.store args (s.depth + 1) slots.available = entered
    at spec ⊢
  obtain ⟨outcome, w⟩ := entered
  rcases spec with ⟨message, gone, inert⟩ | ⟨a, runs, starts⟩
  · obtain rfl : outcome = .error (.ofMessage message) := gone
    exact .released f s reaches calm admitted env callback message _ inert.left rfl
  · obtain rfl : outcome = .ok a := runs
    exact .starts f s reaches calm admitted env callback a w starts rfl

/-- The native callback of an admitted call ends or calls on. -/
theorem entry_native {n : NativeId} {args : List (Slot ObjId)} {slots : SlotArray} {f : NativeFunc}
    {s : NativeStore} (reaches : m.world.Reaches n f s) (calm : s.interrupt = false)
    (admitted : f.refusal? s args slots.count = none) {code : NativeCode}
    (callback : f.callback = .native code) :
    m.Entry n args slots ((m.withWorld (m.world.count f.store)).startCallback
      ⟨code, f.store, args, slots.available⟩ (s.depth + 1)) := by
  unfold Machine.startCallback
  dsimp only
  split
  · exact .callsOn f s reaches calm admitted code callback _ _ rfl
  · refine .replied f s reaches calm admitted code callback ?_
    -- What is shown has no part in the count, so the call can be taken back over it.
    let shown := m.world.emit (callbackEvent code (s.depth + 1) args slots.available)
    have left : (shown.count f.store).leave f.store = shown := World.leave_count shown f.store
    exact congrArg (fun w => { m.withWorld w with
      control := .engine (replyOf ⟨code, f.store, args, slots.available⟩) }) left

/-- Every way to enter the engine. -/
theorem entry (m : Machine) (n : NativeId) (args : List (Slot ObjId)) (slots : SlotArray) :
    m.Entry n args slots (m.enter n args slots) := by
  unfold Machine.enter
  by_cases missing : ∀ f s, ¬ m.world.Reaches n f s
  · obtain ⟨t, refused⟩ := World.tryEnter_of_missing missing args slots.count
    rw [refused]
    exact .missing missing t rfl
  · push Not at missing
    obtain ⟨f, s, reaches⟩ := missing
    rw [reaches.tryEnter]
    cases calm : s.interrupt with
    | true => exact .interrupted f s reaches calm rfl
    | false =>
        rw [if_neg Bool.false_ne_true]
        cases admitted : f.refusal? s args slots.count with
        | some t => exact .refused f s reaches calm t admitted rfl
        | none =>
            dsimp only
            cases callback : f.callback with
            | native code => exact entry_native reaches calm admitted callback
            | host env => exact entry_host reaches calm admitted callback

end Machine

end HostEmbedding
