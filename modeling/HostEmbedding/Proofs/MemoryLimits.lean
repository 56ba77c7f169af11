import HostEmbedding.Proofs.Memory.Making

/-!
# The limits of memories

A memory is made exactly when its minimum is at most its maximum, if it has one, and at most the page cap of
its engine. From then on its size lies between the minimum and the smaller of the maximum and the cap, it
grows by exactly what is asked for whenever there is room, and its bytes are as many as its pages make up.
-/

namespace HostEmbedding

structure LinearMemory.Bounded (type : MemoryType) (cap : UInt32) (m : LinearMemory) : Prop where
  least : type.minimum.toNat ≤ m.pages.toNat
  most : m.pages.toNat ≤ type.mostPages cap
  bytes : m.dataSize = m.pages.toNat * 65536
  /-- The number of bytes is a position in the address space. -/
  addressed : m.pages.toNat * 65536 < addressSpace
  /-- The number of pages fits its 32 bits before it is cut to them. -/
  counted : m.dataSize / 65536 < UInt32.size

theorem LinearMemory.OfType.bounded {type : MemoryType} {cap : UInt32} {m : LinearMemory}
    (ofType : m.OfType type cap) : m.Bounded type cap := by
  have few : m.pages.toNat < 4294967296 := m.pages.toNat_lt
  have bytes : m.dataSize = m.pages.toNat * 65536 := ofType.paged.dataSize_eq
  refine ⟨ofType.least, ofType.most, bytes, ?_, ?_⟩
  · have space : addressSpace = 18446744073709551616 := rfl
    omega
  · rw [bytes, Nat.mul_div_cancel _ (by decide)]
    exact few

namespace World

/-- Growth that is granted replaces the memory, and growth that is refused is logged. -/
theorem grow_eq (w : World) (n : NativeId) (mem : LinearMemory) (delta : UInt32) : w.grow n mem delta =
    match mem.grow? delta with
    | some mem' => (true, w.setNative n (.memory mem'))
    | none => (false, w.logAbout n fun t => .refusedGrow t delta) := by
  unfold World.grow growNative
  cases mem.grow? delta <;> rfl

end World

namespace Machine

/-- The limits of memories on a run. -/
structure MemoryLimits (run : Nat → Machine) : Prop where
  /-- A store that is made in an engine has the page cap of that engine from then on. -/
  engine : ∀ {k g name v config}, (run k).AtStep g (.plain (.store name (some v))) →
    (run k).lookup v = some (.engine config) → ∃ s, (run (k + 1)).lookup name = some (.store s) ∧
      ∀ j, k < j → (run j).world.storeConfig s = config
  accepted : ∀ {k g name v type s}, (run k).AtStep g (.plain (.memory name v type)) →
    (run k).lookup v = some (.store s) → type.Fits ((run k).world.storeConfig s).maxMemoryPages →
      ∃ n, (run k).Makes name type s n
  refused : ∀ {k g name v type s}, (run k).AtStep g (.plain (.memory name v type)) →
    (run k).lookup v = some (.store s) → ¬ type.Fits ((run k).world.storeConfig s).maxMemoryPages →
      run (k + 1) = ((run k).withWorld ((run k).world.flush s)).refuse g (.invalidMemoryType type)
  /-- A memory that was made stays, and its size stays in its bounds. -/
  bounded : ∀ {k type cap n}, MadeBefore run k type cap n →
    ∃ mem, (run k).world.nativeObject? n = some (.memory mem) ∧ mem.Bounded type cap
  /-- It never gets smaller. -/
  grows : ∀ {k type cap n}, MadeBefore run k type cap n → ∀ {mem mem' d},
    (run k).world.nativeObject? n = some (.memory mem) →
      (run (k + d)).world.nativeObject? n = some (.memory mem') → mem.pages.toNat ≤ mem'.pages.toNat
  size : ∀ {k g v n mem}, (run k).AtStep g (.plain (.size v)) → (run k).memoryNamed? v = some (n, mem) →
    run (k + 1) = (run k).finish (.nat mem.pages.toNat)
  dataSize : ∀ {k g v n mem}, (run k).AtStep g (.plain (.dataSize v)) →
    (run k).memoryNamed? v = some (n, mem) → run (k + 1) = (run k).finish (.nat mem.dataSize)
  /-- Growth is granted to any handle as long as there is room, and then it is exact. -/
  granted : ∀ {k type cap n}, MadeBefore run k type cap n → ∀ {g v delta mem},
    (run k).AtStep g (.plain (.grow v delta)) → (run k).memoryNamed? v = some (n, mem) →
      mem.pages.toNat + delta.toNat ≤ type.mostPages cap →
        (run (k + 1)).control = .complete (.done (.bool true)) ∧ ∃ mem',
          (run (k + 1)).world.nativeObject? n = some (.memory mem') ∧
            mem'.pages.toNat = mem.pages.toNat + delta.toNat
  /-- Otherwise it is refused: a record is logged, and nothing is changed. -/
  denied : ∀ {k type cap n}, MadeBefore run k type cap n → ∀ {g v delta mem},
    (run k).AtStep g (.plain (.grow v delta)) → (run k).memoryNamed? v = some (n, mem) →
      type.mostPages cap < mem.pages.toNat + delta.toNat →
        run (k + 1) = ((run k).withWorld ((run k).world.logAbout n fun t => .refusedGrow t delta)).finish
          (.bool false) ∧ (run (k + 1)).world.nativeObject? = (run k).world.nativeObject?
  /-- Growth by nothing is always granted. -/
  zero : ∀ {k type cap n}, MadeBefore run k type cap n → ∀ {g v mem},
    (run k).AtStep g (.plain (.grow v 0)) → (run k).memoryNamed? v = some (n, mem) →
      (run (k + 1)).control = .complete (.done (.bool true)) ∧ ∃ mem',
        (run (k + 1)).world.nativeObject? n = some (.memory mem') ∧ mem'.pages.toNat = mem.pages.toNat

variable {m : Machine} {g : Guard} {name v : VarName} {n : NativeId} {mem : LinearMemory} {delta : UInt32}

/-- A store that is made in an engine has the configuration of the engine. -/
theorem store_of_engine {config : Config} (begins : m.AtStep g (.plain (.store name (some v))))
    (held : m.lookup v = some (.engine config)) :
    ∃ s n, m.step.lookup name = some (.store s) ∧
      m.step.world.shapes.object? s = some (.store n config {}) := by
  let made := m.world.createStore config
  have step : m.step = ((m.withWorld made.2).assign name (.store made.1)).finish (.config config) := by
    rw [begins.step_eq]
    show m.newStore name (some v) = _
    unfold newStore
    dsimp only
    rw [held]
  refine ⟨made.1, ⟨m.world.natives.size⟩, ?_, ?_⟩
  · rw [step]
    exact lookup_assign _ _ _
  · rw [step]
    show ((m.withWorld made.2).assign name (.store made.1)).world.shapes.object? made.1 = _
    rw [assign_shapes]
    exact World.shapes_alloc_self _ _ _

theorem step_granted (begins : m.AtStep g (.plain (.grow v delta))) (named : m.memoryNamed? v = some (n, mem))
    {mem' : LinearMemory} (grown : mem.grow? delta = some mem') :
    m.step.control = .complete (.done (.bool true)) ∧ m.step.world.nativeObject? n = some (.memory mem') := by
  have after := memory_of_grow (memory_of_named named) (Grows.handle g v mem begins named).deed
  rw [grown] at after
  refine ⟨?_, after⟩
  rw [AtStep.memoryOp (.grow delta) begins named]
  unfold MemoryOp.effect
  dsimp only
  rw [World.grow_eq, grown]
  rfl

theorem step_denied (begins : m.AtStep g (.plain (.grow v delta))) (named : m.memoryNamed? v = some (n, mem))
    (refused : mem.grow? delta = none) :
    m.step = (m.withWorld (m.world.logAbout n fun t => .refusedGrow t delta)).finish (.bool false) := by
  rw [AtStep.memoryOp (.grow delta) begins named]
  unfold MemoryOp.effect
  dsimp only
  rw [World.grow_eq, refused]

/-- On every run of a public script, for every memory that it makes. -/
theorem memoryLimits_after (level : Option LogLevel) {script : Block}
    (isPublic : Block.isPublic script = true) : MemoryLimits (after level script) := by
  have steps := after_succ level script
  have coherent := coherent_after level isPublic
  have granted {k : ℕ} {type : MemoryType} {cap : UInt32} {n : NativeId}
      (made : MadeBefore (after level script) k type cap n) {g : Guard} {v : VarName} {delta : UInt32}
      {mem : LinearMemory} (begins : (after level script k).AtStep g (.plain (.grow v delta)))
      (named : (after level script k).memoryNamed? v = some (n, mem))
      (room : mem.pages.toNat + delta.toNat ≤ type.mostPages cap) :
      (after level script (k + 1)).control = .complete (.done (.bool true)) ∧ ∃ mem',
        (after level script (k + 1)).world.nativeObject? n = some (.memory mem') ∧
          mem'.pages.toNat = mem.pages.toNat + delta.toNat := by
    have ofType := made.ofType isPublic (memory_of_named named)
    obtain ⟨mem', grown⟩ := Option.isSome_iff_exists.mp ((ofType.grow?_isSome delta).mpr room)
    obtain ⟨answer, after⟩ := step_granted begins named grown
    rw [steps]
    exact ⟨answer, mem', after, ofType.paged.pages_grow? grown⟩
  constructor
  case engine =>
      intro k g name v config begins held
      obtain ⟨s, n, named, known⟩ := store_of_engine begins held
      rw [← steps] at named known
      refine ⟨s, named, fun j less => ?_⟩
      obtain ⟨d, rfl⟩ := Nat.exists_eq_add_of_le (Nat.succ_le_of_lt less)
      -- What a store is configured with is part of its shape.
      have kept : (after level script (k + 1 + d)).world.shapes.object? s = some (.store n config {}) := by
        induction d with
        | zero => exact known
        | succ d ih =>
            have grows := (coherent (k + 1 + d)).grows
            rw [← steps] at grows
            exact grows.object (ih (by omega))
      exact World.storeConfig_of_known kept
  case accepted =>
      intro k g name v type s begins held fits
      rcases (coherent k).makes_or_refuses begins held with ⟨-, makes⟩ | ⟨unfit, -⟩
      · exact makes
      · exact absurd fits unfit
  case refused =>
      intro k g name v type s begins held unfit
      rcases (coherent k).makes_or_refuses begins held with ⟨fits, -⟩ | ⟨-, refused⟩
      · exact absurd fits unfit
      · rw [steps]
        exact refused
  case bounded =>
      intro k type cap n made
      obtain ⟨mem, found, ofType⟩ := made.memory isPublic
      exact ⟨mem, found, ofType.bounded⟩
  case grows =>
      intro k type cap n made mem mem' d found found'
      obtain ⟨mem'', later, -, grown⟩ := ofType_later isPublic found (made.ofType isPublic found) d
      cases found'.symm.trans later
      exact grown
  case size =>
      intro k g v n mem begins named
      rw [steps]
      exact AtStep.memoryOp .size begins named
  case dataSize =>
      intro k g v n mem begins named
      rw [steps]
      exact AtStep.memoryOp .dataSize begins named
  case granted =>
      intro k type cap n made g v delta mem begins named room
      exact granted made begins named room
  case denied =>
      intro k type cap n made g v delta mem begins named full
      have ofType := made.ofType isPublic (memory_of_named named)
      have refused : mem.grow? delta = none := by
        rw [← Option.not_isSome_iff_eq_none, ofType.grow?_isSome]
        exact Nat.not_le.mpr full
      have step := step_denied begins named refused
      rw [steps, step]
      exact ⟨rfl, (World.same_logAbout _ _ _).nativeObject?⟩
  case zero =>
      intro k type cap n made g v mem begins named
      have ofType := made.ofType isPublic (memory_of_named named)
      exact granted made begins named ofType.most

/-- A memory of one to three pages in an engine with a cap of two, which grows by one page and then asks for
another one. -/
def grownToCap : Block :=
  [(⟨false, false⟩, .plain (.engine (.scoped "e") (some 2) none)),
    (⟨false, false⟩, .plain (.store (.scoped "s") (some (.scoped "e")))),
    (⟨false, false⟩, .plain (.memory (.scoped "m") (.scoped "s") ⟨1, some 3⟩)),
    (⟨false, false⟩, .plain (.grow (.scoped "m") 1)),
    (⟨false, false⟩, .plain (.grow (.scoped "m") 1))]

/-- The memory is made, the first growth is granted, and the second one is refused. -/
theorem memoryLimits_after_grownToCap : Block.isPublic grownToCap = true ∧
    MadeBefore (after none grownToCap) 6 ⟨1, some 3⟩ 2 ⟨1⟩ ∧
      (after none grownToCap 7).control = .complete (.done (.bool true)) ∧
        (after none grownToCap 9).world.nativeObject? = (after none grownToCap 8).world.nativeObject? := by
  have isPublic : Block.isPublic grownToCap = true := by decide
  have limits := memoryLimits_after none isPublic
  have begins : (after none grownToCap 4).AtStep ⟨false, false⟩
      (.plain (.memory (.scoped "m") (.scoped "s") ⟨1, some 3⟩)) := ⟨rfl, rfl, true, 2, _, [], rfl⟩
  have fits : MemoryType.Fits ⟨1, some 3⟩ 2 := ⟨fun max same => by cases same; decide, by decide⟩
  obtain ⟨n, makes⟩ := limits.accepted (s := ⟨0⟩) begins rfl fits
  have named : (after none grownToCap 4).step.memoryNamed? (.scoped "m") =
      some (⟨1⟩, .fresh 2 ⟨1, some 3⟩) := rfl
  obtain rfl : n = ⟨1⟩ := congrArg Prod.fst (Option.some.inj (makes.made.symm.trans named))
  have made (k : ℕ) (less : 4 < k) : MadeBefore (after none grownToCap) k ⟨1, some 3⟩ 2 ⟨1⟩ :=
    ⟨4, _, _, less, makes, rfl⟩
  have first : (after none grownToCap 6).AtStep ⟨false, false⟩ (.plain (.grow (.scoped "m") 1)) :=
    ⟨rfl, rfl, true, 3, _, [], rfl⟩
  have second : (after none grownToCap 8).AtStep ⟨false, false⟩ (.plain (.grow (.scoped "m") 1)) :=
    ⟨rfl, rfl, true, 4, _, [], rfl⟩
  refine ⟨isPublic, made 6 (by decide), ?_, ?_⟩
  · exact (limits.granted (made 6 (by decide)) first rfl (by decide +kernel)).1
  · exact (limits.denied (made 8 (by decide)) second rfl (by decide +kernel)).2

end Machine

end HostEmbedding
