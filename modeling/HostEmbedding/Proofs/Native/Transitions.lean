import HostEmbedding.Proofs.Native.Entries

/-!
# What a transition does to native objects

Every transition does one deed, which is read off from the state: a step that begins does its own, a
call that enters the engine takes the interrupt of its store or is counted in it, and a native callback
or a host body that ends leaves its store.
-/

namespace HostEmbedding

/-- A deed that a step does on its own, and not the engine for it. -/
def Deed.Direct : Deed → Prop
  | .take _ | .enter _ | .leave _ => False
  | _ => True

namespace World

variable {w : World} {a : Activation} {made : Native → Prop}

/-- What has happened has no part in the tables. -/
theorem inert_events (w : World) (events : List Event) : Inert w { w with events := events } :=
  inert_of_tables rfl rfl

theorem becomes_leaveHost (w : World) (a : Activation) (c : Completion) :
    Becomes made (.leave a.native) w (w.leaveHost a c).2 := by
  obtain ⟨v, upkeep, left⟩ := Upkeep.leaveHost w a c
  rw [left]
  exact (becomes_leave v a.native).after upkeep.inert

end World

namespace Machine

variable {m : Machine} {made : Native → Prop}

/-! ## Every transition -/

def entryDeed (m : Machine) (n : NativeId) (args : List (Slot ObjId)) (slots : SlotArray) : Deed :=
  match m.world.nativeFunc? n with
  | none => .idle
  | some f =>
      match m.world.nativeStore? f.store with
      | none => .idle
      | some s =>
          if s.interrupt then .take f.store
          else match (m.enter n args slots).control with
            | .engine _ => .idle
            | _ => .enter f.store

def deed (m : Machine) : Deed :=
  if m.world.aborted.isSome then .idle
  else match m.control, m.stack with
    | .run, .block _ _ ((_, s) :: _) :: _ => m.stepDeed s
    | .enter n args slots, _ => m.entryDeed n args slots
    | .complete _, .activation _ :: _ =>
        match m.context with
        | .body a => .leave a.native
        | _ => .idle
    | .engine _, .callback c :: _ => .leave c.store
    | _, _ => .idle

theorem deed_of_alive (alive : m.world.aborted = none) :
    m.deed = match m.control, m.stack with
      | .run, .block _ _ ((_, s) :: _) :: _ => m.stepDeed s
      | .enter n args slots, _ => m.entryDeed n args slots
      | .complete _, .activation _ :: _ =>
          match m.context with
          | .body a => .leave a.native
          | _ => .idle
      | .engine _, .callback c :: _ => .leave c.store
      | _, _ => .idle := by
  unfold Machine.deed
  rw [alive]
  rfl

structure AtStep (m : Machine) (g : Guard) (s : Step) : Prop where
  alive : m.world.aborted = none
  control : m.control = .run
  stack : ∃ outer index rest below, m.stack = .block outer index ((g, s) :: rest) :: below

namespace AtStep

variable {g : Guard} {s : Step} (begins : m.AtStep g s)

include begins

theorem step_eq : m.step = m.begin g s := by
  obtain ⟨outer, index, rest, below, stack⟩ := begins.stack
  exact step_run begins.alive begins.control stack

theorem deed : m.deed = m.stepDeed s := by
  obtain ⟨outer, index, rest, below, stack⟩ := begins.stack
  rw [deed_of_alive begins.alive, begins.control, stack]

end AtStep

/-- The next transition may add a native object: a step that begins does, or a call by pointer that ended
in a trap, which is kept. -/
inductive Added (m : Machine) (o : Native) : Prop
  | step (g : Guard) (s : Step) (begins : m.AtStep g s) (adds : m.Adds s o)
  | trap (t : NativeTrap) (control : m.control = .engine (.error t)) (same : o = .trap t)

section

variable {n : NativeId} {args : List (Slot ObjId)} {slots : SlotArray} {f : NativeFunc} {s : NativeStore}

theorem entryDeed_of_missing (missing : ∀ f s, ¬ m.world.Reaches n f s) :
    m.entryDeed n args slots = .idle := by
  unfold entryDeed
  split
  · rfl
  · next f func =>
      split
      · rfl
      · next s store => exact absurd ⟨func, store⟩ (missing f s)

theorem entryDeed_of_pending (reaches : m.world.Reaches n f s) (pending : s.interrupt = true) :
    m.entryDeed n args slots = .take f.store := by
  unfold entryDeed
  rw [reaches.func]
  dsimp only
  rw [reaches.store]
  exact if_pos pending

/-- A call that is not interrupted is counted unless it has already ended. -/
theorem entryDeed_of_calm (reaches : m.world.Reaches n f s) (calm : s.interrupt = false) :
    m.entryDeed n args slots =
      match (m.enter n args slots).control with
      | .engine _ => .idle
      | _ => .enter f.store := by
  unfold entryDeed
  rw [reaches.func]
  dsimp only
  rw [reaches.store]
  exact if_neg (by simp [calm])

/-- A body that starts is counted, even if it panics at once. -/
theorem entryDeed_of_starts (reaches : m.world.Reaches n f s) (calm : s.interrupt = false)
    {a : Activation} (control : (m.enter n args slots).control = startOf a) :
    m.entryDeed n args slots = .enter f.store := by
  rw [entryDeed_of_calm reaches calm, control]
  rcases startOf_cases a with start | ⟨g, start⟩
  · rw [start]
  · rw [start]

end

theorem becomes_enter (m : Machine) (n : NativeId) (args : List (Slot ObjId)) (slots : SlotArray) :
    World.Becomes made (m.entryDeed n args slots) m.world (m.enter n args slots).world := by
  cases m.entry n args slots with
  | missing none t same =>
      rw [entryDeed_of_missing none, same]
      exact .refl m.world
  | interrupted f s reaches pending same =>
      rw [entryDeed_of_pending reaches pending, same]
      exact World.becomes_take m.world f.store
  | refused f s reaches calm t refusal same =>
      rw [entryDeed_of_calm reaches calm, same]
      exact .refl m.world
  | released f s reaches calm admitted env callback message w inert same =>
      rw [entryDeed_of_calm reaches calm, same]
      exact inert.becomes
  | replied f s reaches calm admitted code callback same =>
      rw [entryDeed_of_calm reaches calm, same]
      exact (World.inert_events _ _).becomes
  | callsOn f s reaches calm admitted code callback callee results same =>
      rw [entryDeed_of_calm reaches calm, same]
      exact (World.becomes_count m.world f.store).trans (World.inert_events _ _).becomes
  | starts f s reaches calm admitted env callback a w starts same =>
      rw [entryDeed_of_starts reaches calm (congrArg Machine.control same), same]
      exact (World.becomes_count m.world f.store).trans starts.inert.becomes

theorem becomes_deliver (alive : m.world.aborted = none) {c : Completion}
    (control : m.control = .complete c) : World.Becomes made m.deed m.world (m.deliver c).world := by
  have self : World.Becomes made .idle m.world m.world := .refl m.world
  rw [deed_of_alive alive, control]
  cases stack : m.stack with
  | nil => exact (ordinary_deliver m c (by simp [stack])).becomes
  | cons f below =>
      cases f with
      | activation saved =>
          unfold Machine.deliver
          rw [stack]
          dsimp only
          cases m.context with
          | body a => exact World.becomes_leaveHost m.world a c
          | top | thread | finalizer => exact self
      | thread saved state =>
          unfold Machine.deliver
          rw [stack]
          exact (World.inert_modifyThread m.world fun _ => state).becomes
      | finalizer saved =>
          unfold Machine.deliver
          rw [stack]
          exact (World.inert_modifyThread m.world fun t => { t with finalizing := t.finalizing - 1 }).becomes
      | _ => exact (ordinary_deliver m c (by simp [stack, Frame.isInner])).becomes

theorem becomes_resumeCallback (m : Machine) (c : CallbackRun) (r : EngineResult) :
    World.Becomes made (.leave c.store) m.world (m.resumeCallback c r).world := by
  cases r with
  | error t => exact World.becomes_leave m.world c.store
  | ok results => exact (World.becomes_leave _ c.store).after (World.inert_events m.world _)

theorem becomes_deliverEngine (alive : m.world.aborted = none) {r : EngineResult}
    (control : m.control = .engine r) : World.Becomes m.Added m.deed m.world (m.deliverEngine r).world := by
  have new (t : NativeTrap) (same : r = .error t) : m.Added (.trap t) := .trap t (same ▸ control) rfl
  rw [deed_of_alive alive, control]
  cases stack : m.stack with
  | nil => exact (ordinary_deliverEngine m new (by simp [stack])).becomes
  | cons f below =>
      cases f with
      | callback c =>
          unfold Machine.deliverEngine
          rw [stack]
          exact becomes_resumeCallback { m with stack := below } c r
      | _ => exact (ordinary_deliverEngine m new (by simp [stack])).becomes

/-- Every transition does its deed. -/
theorem becomes_step (m : Machine) : World.Becomes m.Added m.deed m.world m.step.world := by
  have self : World.Becomes m.Added .idle m.world m.world := .refl m.world
  cases aborted : m.world.aborted with
  | some op =>
      unfold Machine.deed Machine.step
      rw [aborted]
      exact self
  | none =>
      cases control : m.control with
      | run =>
          rw [deed_of_alive aborted, control]
          unfold Machine.step
          rw [aborted, control]
          cases stack : m.stack with
          | nil => exact self
          | cons f below =>
              cases f with
              | block outer index steps =>
                  cases steps with
                  | nil => exact self
                  | cons first rest =>
                      have begins : m.AtStep first.1 first.2 :=
                        ⟨aborted, control, outer, index, rest, below, stack⟩
                      exact (becomes_begin m first.1 first.2).mono fun o => .step first.1 first.2 begins
              | _ => exact self
      | complete c =>
          rw [step_complete aborted control]
          exact becomes_deliver aborted control
      | enter n args slots =>
          rw [step_enter aborted control, deed_of_alive aborted, control]
          exact becomes_enter m n args slots
      | engine r =>
          rw [step_engine aborted control]
          exact becomes_deliverEngine aborted control
      | halted ending =>
          rw [deed_of_alive aborted, control]
          unfold Machine.step
          rw [aborted, control]
          exact self

/-- Nothing has been done yet to an object that a transition adds. -/
theorem Added.fresh {o : Native} (added : m.Added o) : o.Fresh := by
  cases added with
  | step g s begins adds => exact adds.fresh
  | trap t control same =>
      rw [same]
      trivial

/-- An object that nothing is done to is there from then on, as it is. -/
theorem settled_persists {run : Nat → Machine} (steps : ∀ k, run (k + 1) = (run k).step) {n : NativeId}
    {o : Native} (settled : o.Settled) {j k : Nat} (le : j ≤ k)
    (found : (run j).world.nativeObject? n = some o) : (run k).world.nativeObject? n = some o := by
  induction k, le using Nat.le_induction with
  | base => exact found
  | succ k _ ih => rw [steps, (run k).becomes_step.known n o ih, Deed.on_settled _ n settled]

/-! ## What a deed tells of a transition -/

theorem stepDeed_direct (m : Machine) (s : Step) : (m.stepDeed s).Direct := by
  have does := m.stepDoes s
  generalize m.stepDeed s = d at does ⊢
  cases does <;> trivial

inductive Does (m : Machine) (d : Deed) : Prop
  | idle (same : d = .idle)
  | begins (g : Guard) (s : Step) (begins : m.AtStep g s) (same : d = m.stepDeed s)
  | takes (alive : m.world.aborted = none) (n : NativeId) (args : List (Slot ObjId)) (slots : SlotArray)
      (f : NativeFunc) (s : NativeStore) (control : m.control = .enter n args slots)
      (reaches : m.world.Reaches n f s) (same : d = .take f.store)
  | enters (alive : m.world.aborted = none) (n : NativeId) (args : List (Slot ObjId)) (slots : SlotArray)
      (f : NativeFunc) (s : NativeStore) (control : m.control = .enter n args slots)
      (reaches : m.world.Reaches n f s) (admitted : f.refusal? s args slots.count = none)
      (same : d = .enter f.store)
  | leaves (a : Activation) (saved : Context) (below : List Frame) (c : Completion)
      (control : m.control = .complete c) (stack : m.stack = .activation saved :: below)
      (context : m.context = .body a) (same : d = .leave a.native)
  | replies (c : CallbackRun) (below : List Frame) (r : EngineResult) (control : m.control = .engine r)
      (stack : m.stack = .callback c :: below) (same : d = .leave c.store)

theorem does_enter (alive : m.world.aborted = none) {n : NativeId} {args : List (Slot ObjId)}
    {slots : SlotArray} (control : m.control = .enter n args slots) :
    m.Does (m.entryDeed n args slots) := by
  cases m.entry n args slots with
  | missing none t same => exact .idle (entryDeed_of_missing none)
  | interrupted f s reaches pending same =>
      exact .takes alive n args slots f s control reaches (entryDeed_of_pending reaches pending)
  | refused f s reaches calm t refusal same =>
      refine .idle ?_
      rw [entryDeed_of_calm reaches calm, same]
      rfl
  | released f s reaches calm admitted env callback message w inert same =>
      refine .idle ?_
      rw [entryDeed_of_calm reaches calm, same]
      rfl
  | replied f s reaches calm admitted code callback same =>
      refine .idle ?_
      rw [entryDeed_of_calm reaches calm, same]
  | callsOn f s reaches calm admitted code callback callee results same =>
      refine .enters alive n args slots f s control reaches admitted ?_
      rw [entryDeed_of_calm reaches calm, same]
  | starts f s reaches calm admitted env callback a w starts same =>
      exact .enters alive n args slots f s control reaches admitted
        (entryDeed_of_starts reaches calm (congrArg Machine.control same))

theorem does_deed (m : Machine) : m.Does m.deed := by
  cases aborted : m.world.aborted with
  | some op =>
      refine .idle ?_
      unfold Machine.deed
      rw [aborted]
      rfl
  | none =>
      have deed := deed_of_alive aborted
      cases control : m.control with
      | run =>
          rw [control] at deed
          cases stack : m.stack with
          | nil => exact .idle (deed.trans (by rw [stack]))
          | cons f below =>
              rw [stack] at deed
              cases f with
              | block outer index steps =>
                  cases steps with
                  | nil => exact .idle deed
                  | cons first rest =>
                      exact .begins _ _ ⟨aborted, control, outer, index, rest, below, stack⟩ deed
              | _ => exact .idle deed
      | complete c =>
          rw [control] at deed
          cases stack : m.stack with
          | nil => exact .idle (deed.trans (by rw [stack]))
          | cons f below =>
              rw [stack] at deed
              cases f with
              | activation saved =>
                  dsimp only at deed
                  cases context : m.context with
                  | body a =>
                      rw [context] at deed
                      exact .leaves a saved below c control stack context deed
                  | top | thread | finalizer =>
                      rw [context] at deed
                      exact .idle deed
              | _ => exact .idle deed
      | enter n args slots =>
          rw [control] at deed
          rw [deed]
          exact does_enter aborted control
      | engine r =>
          rw [control] at deed
          cases stack : m.stack with
          | nil => exact .idle (deed.trans (by rw [stack]))
          | cons f below =>
              rw [stack] at deed
              cases f with
              | callback c => exact .replies c below r control stack deed
              | _ => exact .idle deed
      | halted ending =>
          rw [control] at deed
          exact .idle deed

/-- Requests and what is done to memories are deeds of steps. -/
theorem atStep_of_direct (direct : m.deed.Direct) (done : m.deed ≠ .idle) :
    ∃ g s, m.AtStep g s ∧ m.stepDeed s = m.deed := by
  cases m.does_deed with
  | begins g s begins same => exact ⟨g, s, begins, same.symm⟩
  | idle same => exact absurd same done
  | takes alive n args slots f s control reaches same =>
      rw [same] at direct
      cases direct
  | enters alive n args slots f s control reaches admitted same =>
      rw [same] at direct
      cases direct
  | leaves a saved below c control stack context same =>
      rw [same] at direct
      cases direct
  | replies c below r control stack same =>
      rw [same] at direct
      cases direct

end Machine

end HostEmbedding
