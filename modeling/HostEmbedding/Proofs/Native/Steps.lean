import HostEmbedding.Proofs.Machine.Ordinary

/-!
# What a step does to native objects

A step that begins does one deed, which is read off from the step and its variables: it interrupts a
store, grows a memory or writes to one. All other steps leave the native objects as they are, though
they may add new ones.
-/

namespace HostEmbedding

namespace Machine

variable {m : Machine}

/-! ## What a step does -/

def actionDeed (m : Machine) : Action → Deed
  | .interrupt v =>
      match m.handleNamed? v with
      | some (_, h) => m.world.interruptDeed h.native
      | none => .idle
  | .grow v delta =>
      match m.memoryNamed? v with
      | some (n, _) => .grow n delta
      | none => .idle
  | .write v offset bytes times =>
      match m.memoryNamed? v with
      | some (n, _) => .write n offset (Runs.times times (Runs.ofBytes bytes))
      | none => .idle
  | .poke v address value =>
      match m.memoryNamed? v, (m.operand? address).bind Scalar.address?,
        (m.operand? value).bind Scalar.bytes? with
      | some (n, _), some offset, some bytes => .write n offset (Runs.ofBytes bytes)
      | _, _, _ => .idle
  | _ => .idle

def nativeDeed (m : Machine) : NativeStep → Deed
  | .interruptRequest p =>
      match m.objectNamed? p with
      | some (n, _) => m.world.interruptDeed n
      | none => .idle
  | .memoryGrow p delta =>
      match m.objectNamed? p with
      | some (n, .memory _) => .grow n delta
      | _ => .idle
  | .memoryPoke p offset bytes =>
      match m.objectNamed? p with
      | some (n, .memory _) => .poke n offset (Runs.ofBytes bytes)
      | _ => .idle
  | _ => .idle

def stepDeed (m : Machine) : Step → Deed
  | .plain a => m.actionDeed a
  | .native _ s => m.nativeDeed s
  | _ => .idle

inductive StepDoes (m : Machine) : Step → Deed → Prop
  | idle (s : Step) : StepDoes m s .idle
  | interrupt (v : VarName) (id : ObjId) (h : Handle) (store : NativeId)
      (named : m.handleNamed? v = some (id, h))
      (native : m.world.native? h.native = some (.interrupt store)) :
      StepDoes m (.plain (.interrupt v)) (.interrupt store)
  | grow (v : VarName) (delta : UInt32) (n : NativeId) (mem : LinearMemory)
      (named : m.memoryNamed? v = some (n, mem)) : StepDoes m (.plain (.grow v delta)) (.grow n delta)
  | write (v : VarName) (offset : Nat) (bytes : List UInt8) (times : Nat) (n : NativeId)
      (mem : LinearMemory) (named : m.memoryNamed? v = some (n, mem)) :
      StepDoes m (.plain (.write v offset bytes times))
        (.write n offset (Runs.times times (Runs.ofBytes bytes)))
  | poke (v : VarName) (address value : Operand) (offset : Nat) (bytes : List UInt8) (n : NativeId)
      (mem : LinearMemory) (named : m.memoryNamed? v = some (n, mem))
      (place : (m.operand? address).bind Scalar.address? = some offset)
      (content : (m.operand? value).bind Scalar.bytes? = some bytes) :
      StepDoes m (.plain (.poke v address value)) (.write n offset (Runs.ofBytes bytes))
  | interruptRequest (name p : Option VarName) (n store : NativeId)
      (named : m.objectNamed? p = some (n, .interrupt store)) :
      StepDoes m (.native name (.interruptRequest p)) (.interrupt store)
  | memoryGrow (name p : Option VarName) (delta : UInt32) (n : NativeId) (mem : LinearMemory)
      (named : m.objectNamed? p = some (n, .memory mem)) :
      StepDoes m (.native name (.memoryGrow p delta)) (.grow n delta)
  | memoryPoke (name p : Option VarName) (offset : Nat) (bytes : List UInt8) (n : NativeId)
      (mem : LinearMemory) (named : m.objectNamed? p = some (n, .memory mem)) :
      StepDoes m (.native name (.memoryPoke p offset bytes)) (.poke n offset (Runs.ofBytes bytes))

theorem StepDoes.of_action (m : Machine) (a : Action) : m.StepDoes (.plain a) (m.actionDeed a) := by
  cases a with
  | interrupt v =>
      unfold actionDeed
      dsimp only
      split
      · next id h named =>
          rcases m.world.interruptDeed_cases h.native with same | ⟨store, native, same⟩
          · rw [same]
            exact .idle _
          · rw [same]
            exact .interrupt v id h store named native
      · exact .idle _
  | grow v delta =>
      unfold actionDeed
      dsimp only
      split
      · next n mem named => exact .grow v delta n mem named
      · exact .idle _
  | write v offset bytes times =>
      unfold actionDeed
      dsimp only
      split
      · next n mem named => exact .write v offset bytes times n mem named
      · exact .idle _
  | poke v address value =>
      unfold actionDeed
      dsimp only
      split
      · next n mem offset bytes named place content =>
          exact .poke v address value offset bytes n mem named place content
      · exact .idle _
  | _ => exact .idle _

theorem StepDoes.of_native (m : Machine) (name : Option VarName) (s : NativeStep) :
    m.StepDoes (.native name s) (m.nativeDeed s) := by
  cases s with
  | interruptRequest p =>
      unfold nativeDeed
      dsimp only
      split
      · next n o named =>
          rcases m.world.interruptDeed_cases n with same | ⟨store, native, same⟩
          · rw [same]
            exact .idle _
          · obtain rfl : o = .interrupt store :=
              Option.some.inj ((native?_of_named named).symm.trans native)
            rw [same]
            exact .interruptRequest name p n store named
      · exact .idle _
  | memoryGrow p delta =>
      unfold nativeDeed
      dsimp only
      split
      · next n mem named => exact .memoryGrow name p delta n mem named
      · exact .idle _
  | memoryPoke p offset bytes =>
      unfold nativeDeed
      dsimp only
      split
      · next n mem named => exact .memoryPoke name p offset bytes n mem named
      · exact .idle _
  | _ => exact .idle _

theorem stepDoes (m : Machine) (s : Step) : m.StepDoes s (m.stepDeed s) := by
  cases s with
  | plain a => exact .of_action m a
  | native name s => exact .of_native m name s
  | _ => exact .idle _

end Machine

/-! ## Ordinary steps -/

namespace World

variable {w v : World}

/-- Upkeep does nothing to native objects. -/
theorem Upkeep.inert (upkeep : Upkeep w v) : Inert w v := by
  induction upkeep with
  | refl w => exact .refl w
  | trans _ _ first second => exact first.trans second
  | same same => exact same.inert
  | events => exact inert_of_tables rfl rfl
  | slots w => exact inert_modifyThread w _
  | retain w id => exact inert_retain w id
  | release w id => exact (drains_release w id).inert
  | flush w store => exact (drains_flush w store).inert
  | alloc w => exact inert_alloc w _ _
  | setCell w id content => exact inert_setCell w id content
  | guard w op => exact (drains_guard w op).inert
  | delete w op n => exact ((drains_guard w op).trans (drains_deleteNative _ n)).inert
  | deleteFunc w n => exact (drains_deleteFunc w n).inert

/-- Ordinary operations do nothing to the native objects that there are. -/
theorem Ordinary.becomes {made : Native → Prop} (ordinary : Ordinary made w v) : Becomes made .idle w v := by
  induction ordinary with
  | upkeep upkeep => exact upkeep.inert.becomes
  | trans _ _ first second => exact first.trans second
  | create w op new => exact (becomes_allocNative _ new).after (drains_guard w op).inert
  | allocNative w new => exact becomes_allocNative w new

end World

namespace Machine

variable {m : Machine} {made : Native → Prop}

theorem Ordinary.becomes {here : Machine} (ordinary : m.Ordinary made here) :
    World.Becomes made .idle m.world here.world := World.Ordinary.becomes ordinary.1

/-! ## Actions -/

theorem becomes_writeMemory (g : Guard) {n : NativeId} {mem : LinearMemory}
    (found : m.world.nativeMemory? n = some mem) (offset : Nat) (data : Runs) :
    World.Becomes made (.write n offset data) m.world (m.writeMemory g n mem offset data).world := by
  have written : World.Becomes made _ _ _ := World.becomes_write found offset data
  unfold Machine.writeMemory
  split
  · next w result =>
      rw [result] at written
      exact written
  · next e w result =>
      rw [result] at written
      unfold Machine.refuse
      split
      · exact written
      · exact written

theorem becomes_pokeMemory (m : Machine) (g : Guard) (v : VarName) (address value : Operand) :
    World.Becomes made (m.actionDeed (.poke v address value)) m.world
      (m.pokeMemory g v address value).world := by
  have self : World.Becomes made .idle m.world m.world := .refl m.world
  unfold Machine.pokeMemory
  rw [withMemory_eq]
  cases named : m.memoryNamed? v with
  | none =>
      simp only [actionDeed, named]
      exact self
  | some p =>
      obtain ⟨n, mem⟩ := p
      simp only [actionDeed, named, Machine.withOperand]
      cases m.operand? address with
      | none => cases address <;> exact self
      | some a =>
          cases m.operand? value with
          | none =>
              simp only [Option.bind_none, Option.bind_some]
              cases a.address? <;> cases value <;> exact self
          | some s =>
              simp only [Option.bind_some]
              cases a.address? with
              | none => exact self
              | some offset =>
                  cases s.bytes? with
                  | none => exact self
                  | some bytes => exact becomes_writeMemory g (nativeMemory?_of_named named) offset _

/-- A view that is used as a memory does nothing to the memory. -/
theorem becomes_externToMemory (m : Machine) (name v : VarName) :
    World.Becomes made .idle m.world (m.externToMemory name v).world := by
  have self : World.Becomes made .idle m.world m.world := .refl m.world
  refine of_withHandle (P := fun here => World.Becomes made .idle m.world here.world) (fun _ => self)
    fun i id h => ?_
  unfold World.intoMemory?
  split
  · next x w made =>
      split at made
      · next mem lock _ _ =>
          obtain ⟨rfl, rfl⟩ := Prod.mk.inj (Option.some.inj made)
          have borrowed := World.inert_borrow m.world h.native h.store (World.ownerOf id h) (.memory lock)
          exact borrowed.becomes.trans ((Ordinary.refl (m.withWorld _)).assign name _).becomes
      · cases made
  · exact self

/-- An action does its deed. -/
theorem becomes_perform (m : Machine) (g : Guard) (a : Action) :
    World.Becomes (m.Adds (.plain a)) (m.actionDeed a) m.world (m.perform g a).world := by
  have self : World.Becomes (m.Adds (.plain a)) .idle m.world m.world := .refl m.world
  cases a with
  | interrupt v =>
      show World.Becomes _ (m.actionDeed (.interrupt v)) m.world
        (m.withHandle v fun _ _ h => (m.withWorld (m.world.interrupt h)).finish .ok).world
      rw [withHandle_eq]
      cases named : m.handleNamed? v with
      | none =>
          simp only [actionDeed, named]
          exact self
      | some p =>
          simp only [actionDeed, named]
          exact World.becomes_interrupt m.world p.2
  | grow v delta =>
      show World.Becomes _ (m.actionDeed (.grow v delta)) m.world (m.withMemory v fun n mem =>
        (m.withWorld (m.world.grow n mem delta).2).finish (.bool (m.world.grow n mem delta).1)).world
      rw [withMemory_eq]
      cases named : m.memoryNamed? v with
      | none =>
          simp only [actionDeed, named]
          exact self
      | some p =>
          simp only [actionDeed, named]
          exact World.becomes_grow (nativeMemory?_of_named named) delta
  | write v offset bytes times =>
      show World.Becomes _ (m.actionDeed (.write v offset bytes times)) m.world
        (m.withMemory v fun n mem => m.writeMemory g n mem offset _).world
      rw [withMemory_eq]
      cases named : m.memoryNamed? v with
      | none =>
          simp only [actionDeed, named]
          exact self
      | some p =>
          simp only [actionDeed, named]
          exact becomes_writeMemory g (nativeMemory?_of_named named) offset _
  | poke v address value => exact becomes_pokeMemory m g v address value
  | intoMemory name v => exact becomes_externToMemory m name v
  | _ => exact Ordinary.becomes (ordinary_perform m g trivial)

/-! ## Steps of the native interface -/

theorem becomes_interruptRequest (m : Machine) (p : Option VarName) :
    World.Becomes made (m.nativeDeed (.interruptRequest p)) m.world
      (m.native none (.interruptRequest p)).world := by
  obtain ⟨a, eq⟩ := m.withObject_eq p
  show World.Becomes made _ m.world (m.withObject p fun n _ =>
    (m.withWorld (m.world.requestInterrupt n)).finish .ok).world
  rw [eq]
  cases named : m.objectNamed? p with
  | none =>
      simp only [nativeDeed, named]
      exact World.Becomes.refl m.world
  | some q =>
      simp only [nativeDeed, named]
      exact World.becomes_requestInterrupt m.world q.1

/-- What a step makes of the memory that a pointer names is its deed. -/
theorem becomes_withNativeMemory {p : Option VarName} {k : NativeId → LinearMemory → Machine}
    {d : NativeId → Deed} (next : ∀ n mem, m.world.nativeMemory? n = some mem →
      World.Becomes made (d n) m.world (k n mem).world) :
    World.Becomes made
      (match m.objectNamed? p with
        | some (n, .memory _) => d n
        | _ => .idle)
      m.world (m.withNativeMemory p k).world := by
  obtain ⟨a, eq⟩ := m.withObject_eq p
  unfold Machine.withNativeMemory
  rw [eq]
  cases named : m.objectNamed? p with
  | none => exact World.Becomes.refl m.world
  | some q =>
      obtain ⟨n, o⟩ := q
      cases o with
      | memory mem =>
          have live := native?_of_named named
          exact next n mem (World.nativeMemory?_eq_some.mpr live)
      | _ => exact World.Becomes.refl m.world

/-- Deleting a function does nothing to the objects that are left. -/
theorem Deletion.becomes {here : Machine} (deletion : m.Deletion made here) :
    World.Becomes made .idle m.world here.world := by
  cases deletion with
  | ordinary ordinary => exact ordinary.becomes
  | finalizes n code same =>
      rw [same]
      have entered := World.inert_enterFinalizer (m.world.deleteFunc n) n
      have shown := World.inert_of_tables (w := (m.world.deleteFunc n).enterFinalizer n)
        (v := ((m.world.deleteFunc n).enterFinalizer n).emit (.finalized code.label)) rfl rfl
      exact (((World.drains_deleteFunc m.world n).inert.trans entered).trans shown).becomes

theorem becomes_deleteUnguarded (m : Machine) (p : Option VarName) :
    World.Becomes made .idle m.world (m.withPointer p m.deleteUnguarded).world := by
  have self : World.Becomes made .idle m.world m.world := .refl m.world
  refine of_withPointer (P := fun here => World.Becomes made .idle m.world here.world) (fun _ _ => self)
    fun n? => ?_
  cases n? with
  | none => exact self
  | some n => exact (World.drains_deleteNative m.world n).inert.becomes

/-- A step of the native interface does its deed. -/
theorem becomes_native (m : Machine) (name : Option VarName) (s : NativeStep) :
    World.Becomes (m.Adds (.native name s)) (m.nativeDeed s) m.world (m.native name s).world := by
  cases s with
  | interruptRequest p => exact becomes_interruptRequest m p
  | memoryGrow p delta =>
      exact becomes_withNativeMemory fun n mem found => World.becomes_growNative found delta
  | memoryPoke p offset bytes =>
      exact becomes_withNativeMemory fun n mem found => World.becomes_poke found offset _
  | engineDelete p | funcTypeDelete p | memoryTypeDelete p | trapDelete p =>
      exact becomes_deleteUnguarded m p
  | funcDelete p => exact (deletion_funcDelete m name p).becomes
  | externDelete p => exact (deletion_externDelete m name p).becomes
  | _ => exact Ordinary.becomes (ordinary_native m name trivial)

/-- A step that begins does its deed. -/
theorem becomes_begin (m : Machine) (g : Guard) (s : Step) :
    World.Becomes (m.Adds s) (m.stepDeed s) m.world (m.begin g s).world := by
  cases s with
  | plain a => exact becomes_perform m g a
  | thread body => exact (World.inert_modifyThread m.world fun _ => .fresh).becomes
  | native name s => exact becomes_native m name s
  | _ => exact Ordinary.becomes (ordinary_begin m g trivial)

end Machine

end HostEmbedding
