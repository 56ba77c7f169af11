import HostEmbedding.Proofs.FlushExactness
import HostEmbedding.Proofs.Memory.Bounds
import HostEmbedding.Proofs.ViewChains

/-!
# Making memories

A step that makes a memory leaves it under a name, with the minimum of its type as its size. Every handle
that reaches it later reaches a memory of that type.
-/

namespace HostEmbedding

namespace World

/-- A new memory stands behind the last entry of the table, and its handle owns it. -/
theorem openMemory_spec (w : World) (s : ObjId) (type : MemoryType) (mem : LinearMemory) :
    (∃ lock, (w.openMemory s type mem).2.shapes.IsHandle (w.openMemory s type mem).1
      ⟨⟨w.natives.size⟩, s, none, .memory lock⟩) ∧
    (w.openMemory s type mem).2.nativeObject? ⟨w.natives.size⟩ = some (.memory mem) := by
  let added := w.allocNative (.memory mem)
  let shown := added.2.logAbout added.1 (.createdMemory type)
  refine ⟨⟨shown.locks, shapes_alloc_self _ _ _⟩, ?_⟩
  have same : (w.openMemory s type mem).2.nativeObject? = shown.nativeObject? := rfl
  rw [same, (same_logAbout added.2 added.1 _).nativeObject?]
  exact (nativeObject?_allocNative w _ _).trans (if_pos rfl)

end World

namespace Machine

variable {m : Machine} {g : Guard} {name v : VarName} {type : MemoryType} {s : ObjId} {n : NativeId}
  {mem : LinearMemory}

/-- The running step makes a memory of a type in a store, and leaves it under a name. -/
structure Makes (m : Machine) (name : VarName) (type : MemoryType) (s : ObjId) (n : NativeId) : Prop where
  begins : ∃ g v, m.AtStep g (.plain (.memory name v type)) ∧ m.lookup v = some (.store s)
  absent : m.world.nativeObject? n = none
  answer : m.step.control = .complete (.done .ok)
  made : m.step.memoryNamed? name = some (n, .fresh (m.world.storeConfig s).maxMemoryPages type)

/-- A variable that holds a memory reaches it. -/
theorem Coherent.memoryNamed (coherent : m.Coherent) (idle : m.control.refs = []) {id : ObjId} {h : Handle}
    (holds : m.lookup v = some (.memory id)) (known : m.world.shapes.IsHandle id h)
    (found : m.world.nativeObject? h.native = some (.memory mem)) :
    m.memoryNamed? v = some (h.native, mem) := by
  have busy := coherent.busy idle
  have alive := busy.alive (busy.lookup holds) id (List.mem_singleton_self id)
  have handle := World.handle?_eq_some.mpr ⟨known, alive⟩
  have live : m.world.nativeMemory? h.native = some mem := by
    rw [World.nativeMemory?_eq_some, World.native?_eq, if_pos (coherent.world.handle_live handle), found]
  unfold memoryNamed? World.memoryOf?
  rw [holds]
  dsimp only
  rw [handle]
  dsimp only
  rw [live]
  rfl

/-- A memory is made exactly when its type fits the page cap of its store. -/
theorem Coherent.makes_or_refuses (coherent : m.Coherent) (begins : m.AtStep g (.plain (.memory name v type)))
    (held : m.lookup v = some (.store s)) :
    (type.Fits (m.world.storeConfig s).maxMemoryPages ∧ ∃ n, m.Makes name type s n) ∨
      (¬ type.Fits (m.world.storeConfig s).maxMemoryPages ∧
        m.step = (m.withWorld (m.world.flush s)).refuse g (.invalidMemoryType type)) := by
  rcases coherent.flushes_memory begins held with ⟨fits, first⟩ | ⟨unfit, first⟩
  case inr => exact .inr ⟨unfit, first.step⟩
  let cap := (m.world.storeConfig s).maxMemoryPages
  let w := m.world.flush s
  let made := w.openMemory s type (.fresh cap type)
  obtain ⟨⟨lock, isHandle⟩, native⟩ := w.openMemory_spec s type (.fresh cap type)
  have step : m.step = ((m.withWorld made.2).assign name (.memory made.1)).finish .ok := first.step
  have known : ((m.withWorld made.2).assign name (.memory made.1)).world.shapes.IsHandle made.1
      ⟨⟨w.natives.size⟩, s, none, .memory lock⟩ := by
    rw [assign_shapes]
    exact isHandle
  have found : ((m.withWorld made.2).assign name (.memory made.1)).world.nativeObject? ⟨w.natives.size⟩ =
      some (.memory (.fresh cap type)) := by
    rw [assign_nativeObject?]
    exact native
  have later := coherent.step
  rw [step] at later
  have absent : m.world.nativeObject? ⟨w.natives.size⟩ = none := by
    rw [← (World.drains_flush m.world s).natives, ← Option.not_isSome_iff_eq_none, World.nativeObject?_isSome]
    exact Nat.lt_irrefl _
  have reached := later.memoryNamed rfl (lookup_assign (m.withWorld made.2) name (.memory made.1)) known found
  exact .inl ⟨fits, _, ⟨g, v, begins, held⟩, absent, by rw [step]; rfl, by rw [step]; exact reached⟩

theorem Makes.fits (makes : m.Makes name type s n) (coherent : m.Coherent) :
    type.Fits (m.world.storeConfig s).maxMemoryPages := by
  obtain ⟨g, v, begins, held⟩ := makes.begins
  rcases coherent.makes_or_refuses begins held with ⟨fits, -⟩ | ⟨-, refused⟩
  · exact fits
  · have answer := makes.answer
    rw [refused] at answer
    unfold refuse at answer
    split at answer <;> cases answer

/-- A memory of a type was made before some moment of a run, under a page cap. -/
def MadeBefore (run : Nat → Machine) (k : Nat) (type : MemoryType) (cap : UInt32) (n : NativeId) : Prop :=
  ∃ i name s, i < k ∧ (run i).Makes name type s n ∧ ((run i).world.storeConfig s).maxMemoryPages = cap

/-- What is found later where a memory was made is a memory of its type. -/
theorem MadeBefore.memory {level : Option LogLevel} {script : Block} (isPublic : Block.isPublic script = true)
    {k : Nat} {cap : UInt32} (made : MadeBefore (after level script) k type cap n) :
    ∃ mem, (after level script k).world.nativeObject? n = some (.memory mem) ∧ mem.OfType type cap := by
  obtain ⟨i, name, s, less, makes, rfl⟩ := made
  have fits := makes.fits (coherent_after level isPublic i)
  have reached := makes.made
  rw [← after_succ] at reached
  obtain ⟨d, rfl⟩ := Nat.exists_eq_add_of_le (Nat.succ_le_of_lt less)
  obtain ⟨mem, found, ofType, -⟩ := ofType_later isPublic (memory_of_named reached) (.fresh fits) d
  exact ⟨mem, found, ofType⟩

theorem MadeBefore.ofType {level : Option LogLevel} {script : Block} (isPublic : Block.isPublic script = true)
    {k : Nat} {cap : UInt32} (made : MadeBefore (after level script) k type cap n)
    (found : (after level script k).world.nativeObject? n = some (.memory mem)) : mem.OfType type cap := by
  obtain ⟨mem', found', ofType⟩ := made.memory isPublic
  cases found.symm.trans found'
  exact ofType

/-- An operation on the memory that a variable reaches. -/
theorem AtStep.memoryOp (op : MemoryOp) (begins : m.AtStep g (.plain (op.on v)))
    (named : m.memoryNamed? v = some (n, mem)) : m.step = op.effect m g n mem := by
  rw [begins.step_eq]
  show m.perform g (op.on v) = _
  rw [op.perform_on, withMemory_eq, named]

end Machine

end HostEmbedding
