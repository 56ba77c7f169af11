import HostEmbedding.Proofs.Native.Transitions
import HostEmbedding.Proofs.WrappedFunctions

/-!
# Access locks

A memory gets its access lock when it is created, and a view that is used as a memory gets the lock of the
owning handle. No other step makes such a view, so all handles on one memory share one lock.
-/

namespace HostEmbedding

namespace World

variable {w v u : World}

/-- Every view that is used as a memory has the lock of its owning handle. -/
def LocksShared (w : World) : Prop :=
  ∀ id h lock o, w.shapes.IsHandle id h → h.state = .memory lock → h.owner = some o →
    ∃ k, w.shapes.IsHandle o k ∧ k.state = .memory lock

/-- An operation that makes no view that is used as a memory. -/
def Unviewing (w v : World) : Prop := ∀ id h, v.shapes.IsHandle id h → h.ViewsMemory → w.shapes.IsHandle id h

/-! ## Operations -/

namespace Unviewing

theorem refl (w : World) : Unviewing w w := fun _ _ known _ => known

theorem trans (first : Unviewing w v) (second : Unviewing v u) : Unviewing w u :=
  fun id h known views => first id h (second id h known views) views

theorem of_shapes (same : v.shapes = w.shapes) : Unviewing w v := by
  unfold Unviewing
  rw [same]
  exact fun _ _ known _ => known

theorem of_heap (same : v.heap = w.heap) : Unviewing w v := by
  intro id h known _
  obtain ⟨k, entry⟩ := isHandle_iff.mp known
  rw [entry?_of_heap same] at entry
  exact isHandle_iff.mpr ⟨k, entry⟩

theorem drains (drains : Drains w v) : Unviewing w v := of_shapes drains.shapes

theorem alloc (w : World) {o : Object} (plain : ∀ h, o = .handle h → ¬ h.ViewsMemory) (strong : Nat) :
    Unviewing w (w.alloc o strong).2 := by
  intro id h known views
  rcases shapes_alloc_cases known with ⟨-, shape⟩ | before
  · exact absurd views (plain h (Object.shape_eq_handle.mp shape.symm))
  · exact before

theorem interrupt (w : World) (h : Handle) : Unviewing w (w.interrupt h) := by
  have logged := of_heap (same_logAbout w h.native .interruptRequested).heap
  unfold World.interrupt requestInterrupt
  split
  · exact logged
  · exact logged

theorem grow (w : World) (n : NativeId) (m : LinearMemory) (delta : UInt32) :
    Unviewing w (w.grow n m delta).2 := by
  unfold World.grow growNative
  cases m.grow? delta with
  | none => exact of_heap (same_logAbout w n _).heap
  | some m => exact of_heap rfl

theorem write (w : World) (n : NativeId) (m : LinearMemory) (offset : Nat) (data : Runs) :
    Unviewing w (w.write n m offset data).2 := by
  unfold World.write
  cases m.write? offset data with
  | none => exact refl w
  | some m => exact of_heap rfl

theorem setCell (w : World) (id : ObjId) (content : Option Item) :
    Unviewing w (w.setObject id (.cell content)) := by
  intro x h known _
  obtain ⟨k, entry⟩ := isHandle_iff.mp known
  unfold setObject at entry
  rw [entry?_modifyEntry] at entry
  split at entry
  · obtain ⟨e, -, same⟩ := Option.map_eq_some_iff.mp entry
    cases same
  · exact isHandle_iff.mpr ⟨k, entry⟩

end Unviewing

theorem Upkeep.unviewing (upkeep : Upkeep w v) : Unviewing w v := by
  induction upkeep with
  | refl w => exact .refl w
  | trans _ _ first second => exact first.trans second
  | same same => exact .of_heap same.heap
  | events | slots => exact .of_heap rfl
  | retain w id => exact .of_shapes (shapes_retain w id)
  | release w id => exact .drains (drains_release w id)
  | flush w store => exact .drains (drains_flush w store)
  | alloc w plain strong => exact .alloc w plain strong
  | setCell w id content => exact .setCell w id content
  | guard w op => exact .drains (drains_guard w op)
  | delete w op n => exact .drains ((drains_guard w op).trans (drains_deleteNative _ n))
  | deleteFunc w n => exact .drains (drains_deleteFunc w n)

theorem Ordinary.unviewing {made : Native → Prop} (ordinary : Ordinary made w v) : Unviewing w v := by
  induction ordinary with
  | upkeep upkeep => exact upkeep.unviewing
  | trans _ _ first second => exact first.trans second
  | create w op => exact (Unviewing.drains (drains_guard w op)).trans (.of_heap rfl)
  | allocNative => exact .of_heap rfl

theorem unviewing_leaveHost (w : World) (a : Activation) (c : Completion) :
    Unviewing w (w.leaveHost a c).2 := by
  obtain ⟨v, upkeep, left⟩ := Upkeep.leaveHost w a c
  rw [left]
  exact upkeep.unviewing.trans (.of_heap rfl)

theorem LocksShared.mono (shared : w.LocksShared) (unviewing : Unviewing w v)
    (grows : w.shapes.Grows v.shapes) : v.LocksShared := by
  intro id h lock o known memory owned
  have before := unviewing id h known ⟨by rw [owned]; exact Option.some_ne_none o, lock, memory⟩
  obtain ⟨k, isHandle, state⟩ := shared id h lock o before memory owned
  exact ⟨k, grows.object isHandle, state⟩

end World

namespace Machine

variable {m here : Machine}

/-! ## Steps -/

theorem Ordinary.unviewing {made : Native → Prop} (ordinary : m.Ordinary made here) : World.Unviewing m.world here.world :=
  World.Ordinary.unviewing ordinary.1

theorem unviewing_writeMemory (m : Machine) (g : Guard) (n : NativeId) (mem : LinearMemory) (offset : Nat)
    (data : HostEmbedding.Runs) : World.Unviewing m.world (m.writeMemory g n mem offset data).world := by
  have written := World.Unviewing.write m.world n mem offset data
  unfold Machine.writeMemory
  split
  · next w result =>
      rw [result] at written
      exact written
  · next e w result =>
      rw [result] at written
      exact written.trans ((Ordinary.start (m.withWorld w)).refuse g e).unviewing

/-- Only a view that is asked for as a memory becomes one. -/
theorem unviewing_perform (m : Machine) (g : Guard) {a : Action}
    (other : ∀ name v, a ≠ .intoMemory name v) : World.Unviewing m.world (m.perform g a).world := by
  let P (here : Machine) : Prop := World.Unviewing m.world here.world
  have self : P m := .refl m.world
  cases a with
  | intoMemory name v => exact absurd rfl (other name v)
  | interrupt => exact of_withHandle (P := P) (fun _ => self) fun i id h => .interrupt _ h
  | grow v delta => exact of_withMemory (P := P) (fun _ => self) fun n mem _ => .grow _ n mem delta
  | write =>
      exact of_withMemory (P := P) (fun _ => self) fun n mem _ => unviewing_writeMemory m g n mem _ _
  | poke =>
      refine of_withMemory (P := P) (fun _ => self) fun n mem _ =>
        of_withOperand (P := P) (fun _ => self) fun a => of_withOperand (P := P) (fun _ => self) fun s => ?_
      split
      · exact unviewing_writeMemory m g n mem _ _
      · exact self
  | _ => exact Ordinary.unviewing (ordinary_perform m g trivial)

/-- A view that is asked for as a memory gets the lock of its owning handle. -/
theorem locksShared_externToMemory {m : Machine} (shared : m.world.LocksShared) (name v : VarName) :
    (m.externToMemory name v).world.LocksShared := by
  refine of_withHandle (P := fun here => here.world.LocksShared) (fun _ => shared) fun i id h => ?_
  unfold World.intoMemory?
  split
  · next x w made =>
      split at made
      · next mem lock _ owned =>
          obtain ⟨rfl, rfl⟩ := Prod.mk.inj (Option.some.inj made)
          let viewed := m.world.borrow h.native h.store (World.ownerOf id h) (.memory lock)
          have retained : ((m.world.retain h.store).retain (World.ownerOf id h)).shapes = m.world.shapes :=
            (World.shapes_retain _ _).trans (World.shapes_retain _ _)
          have grows : m.world.shapes.Grows viewed.2.shapes := by
            have grows := World.shapes_alloc ((m.world.retain h.store).retain (World.ownerOf id h))
              (.handle ⟨h.native, h.store, some (World.ownerOf id h), .memory lock⟩) 1
            rwa [retained] at grows
          have owner : ∃ k, m.world.shapes.IsHandle (World.ownerOf id h) k ∧ k.state = .memory lock := by
            unfold World.sharedLock? at owned
            split at owned
            · next n s o l found =>
                cases owned
                exact ⟨_, (World.handle?_eq_some.mp found).1, rfl⟩
            · cases owned
          have shared' : viewed.2.LocksShared := by
            intro y k l o known memory held
            rcases World.shapes_alloc_cases known with ⟨-, same⟩ | before
            · cases Object.shape_eq_handle.mp same.symm
              cases memory
              cases held
              obtain ⟨j, isHandle, state⟩ := owner
              exact ⟨j, grows.object isHandle, state⟩
            · rw [retained] at before
              obtain ⟨j, isHandle, state⟩ := shared y k l o before memory held
              exact ⟨j, grows.object isHandle, state⟩
          show ((m.withWorld viewed.2).assign name (.memory viewed.1)).world.LocksShared
          unfold World.LocksShared
          rw [assign_shapes]
          exact shared'
      · cases made
  · exact shared

/-! ## Transitions -/

/-- A public step that begins makes no view that is used as a memory, unless it asks for one. -/
theorem unviewing_begin (m : Machine) (g : Guard) {s : Step} (isPublic : s.isPublic = true)
    (other : ∀ name v, s ≠ .plain (.intoMemory name v)) :
    World.Unviewing m.world (m.begin g s).world := by
  cases s with
  | plain a => exact unviewing_perform m g fun name v same => other name v (by rw [same])
  | thread body => exact .of_heap rfl
  | native | nativeFunc | nativeCall => cases isPublic
  | _ => exact Ordinary.unviewing (ordinary_begin m g trivial)

theorem unviewing_deliver (m : Machine) (c : Completion) : World.Unviewing m.world (m.deliver c).world := by
  by_cases inner : ∀ f ∈ m.stack.head?, f.isInner = true
  · have ordinary : m.Ordinary (fun _ => False) _ := ordinary_deliver m c inner
    exact ordinary.unviewing
  · unfold Machine.deliver
    cases stack : m.stack with
    | nil => exact absurd (by simp [stack]) inner
    | cons f below =>
        cases f with
        | activation saved =>
            dsimp only
            split
            · next a _ => exact World.unviewing_leaveHost m.world a c
            · exact .refl m.world
        | thread | finalizer => exact .of_heap rfl
        | _ => exact absurd (by simp [stack, Frame.isInner]) inner

theorem Coherent.unviewing_enter (coherent : m.Coherent) {n : NativeId} {args : List (Slot ObjId)}
    {slots : SlotArray} (control : m.control = .enter n args slots) :
    World.Unviewing m.world m.step.world := by
  obtain ⟨c, h, callee, s, entering⟩ := coherent.entering control
  rw [entering.step_eq coherent.world.aborted]
  split_ifs
  · exact .of_heap rfl
  · exact .refl m.world
  · have counted : World.Unviewing m.world
        (m.world.modifyNativeStore callee.native fun s => { s with depth := s.depth + 1 }) := .of_heap rfl
    exact counted.trans (.of_shapes (World.shapes_started _ h.store callee.closure callee.code c.request.args))

/-- A transition of a coherent machine leaves every lock shared. -/
theorem Coherent.locksShared (coherent : m.Coherent) (shared : m.world.LocksShared) :
    m.step.world.LocksShared := by
  cases control : m.control with
  | run =>
      obtain ⟨outer, index, steps, below, stack, isPublic⟩ := coherent.block control
      have begins := coherent.step_eq
      rw [control, stack] at begins
      cases steps with
      | nil =>
          rw [begins]
          exact shared
      | cons first rest =>
          obtain ⟨g, s⟩ := first
          by_cases asks : ∃ name v, s = .plain (.intoMemory name v)
          · obtain ⟨name, v, rfl⟩ := asks
            rw [begins]
            exact locksShared_externToMemory shared name v
          · have unviewing := unviewing_begin m g (Block.isPublic_cons isPublic).1
              fun name v same => asks ⟨name, v, same⟩
            rw [← show m.step = m.begin g s from begins] at unviewing
            exact shared.mono unviewing coherent.grows
  | complete c =>
      have unviewing := unviewing_deliver m c
      have delivers := coherent.step_eq
      rw [control] at delivers
      rw [← show m.step = m.deliver c from delivers] at unviewing
      exact shared.mono unviewing coherent.grows
  | enter n args slots => exact shared.mono (coherent.unviewing_enter control) coherent.grows
  | engine r =>
      obtain ⟨c, below, slots, slot, returning⟩ := coherent.returning control
      let popped : Machine := { m with stack := below }
      have unviewing := ((Ordinary.start popped).endCall c r).unviewing
      have ends := coherent.step_eq
      rw [control] at ends
      dsimp only at ends
      unfold Machine.deliverEngine at ends
      rw [returning.stack] at ends
      rw [← show m.step = popped.endCall c r from ends] at unviewing
      exact shared.mono unviewing coherent.grows
  | halted ending =>
      rw [coherent.step_eq, control]
      exact shared

/-- In every state that a public script leads to, all handles on one memory share its lock. -/
theorem locksShared_after (level : Option LogLevel) {script : Block}
    (isPublic : Block.isPublic script = true) (n : Nat) : (after level script n).world.LocksShared := by
  induction n with
  | zero =>
      intro id h lock o known
      obtain ⟨k, entry⟩ := World.isHandle_iff.mp known
      rw [show World.entry? (after level script 0).world id = none from rfl] at entry
      cases entry
  | succ n ih =>
      rw [after_succ]
      exact (coherent_after level isPublic n).locksShared ih

end Machine

end HostEmbedding
