import HostEmbedding.Proofs.Memory.Changes

/-!
# What memories hold

A memory is a plain byte array for every handle that reaches it and for its data pointer. Each byte is
the one that was last written there, or zero; an access succeeds exactly when it ends inside the array;
and what is refused, or done to another memory, changes nothing.
-/

namespace HostEmbedding

namespace Machine

variable {m : Machine} {n : NativeId} {g : Guard} {offset : Nat} {bytes : List UInt8} {delta : UInt32}

/-! ## Runs -/

/-- A byte is the one that was last written at a position of a memory, or it is zero and none was. -/
def LastPut (run : Nat → Machine) (k : Nat) (n : NativeId) (i : Nat) (b : UInt8) : Prop :=
  (∃ j < k, (run j).Puts n i b ∧ ∀ l, j < l → l < k → ∀ c, ¬ (run l).Puts n i c) ∨
    b = 0 ∧ ∀ j < k, ∀ c, ¬ (run j).Puts n i c

/-- What was put into a memory through its data pointer was put inside its bounds. -/
def Careful (run : Nat → Machine) (k : Nat) (n : NativeId) : Prop :=
  ∀ j < k, ∀ offset bytes, (run j).Pokes n offset bytes →
    offset + bytes.length ≤ ((run j).world.contents n).length

/-- A memory holds what was last written into it. -/
structure Tracked (run : Nat → Machine) (k : Nat) (n : NativeId) : Prop where
  bytes : ∀ i b, ((run k).world.contents n)[i]? = some b → LastPut run k n i b
  beyond : ∀ i, ((run k).world.contents n).length ≤ i → ∀ j < k, ∀ b, ¬ (run j).Puts n i b
  paged : ∀ mem, (run k).world.nativeObject? n = some (.memory mem) → mem.Paged

section

variable {run : Nat → Machine} {k : Nat} {i : Nat} {b : UInt8}

theorem LastPut.of_puts (puts : (run k).Puts n i b) : LastPut run (k + 1) n i b :=
  .inl ⟨k, Nat.lt_succ_self k, puts, fun l after before => by omega⟩

theorem LastPut.succ (last : LastPut run k n i b) (quiet : ∀ c, ¬ (run k).Puts n i c) :
    LastPut run (k + 1) n i b := by
  rcases last with ⟨j, less, puts, calm⟩ | ⟨zero, calm⟩
  · refine .inl ⟨j, by omega, puts, fun l after before => ?_⟩
    rcases Nat.lt_or_eq_of_le (Nat.le_of_lt_succ before) with before | rfl
    · exact calm l after before
    · exact quiet
  · refine .inr ⟨zero, fun l before => ?_⟩
    rcases Nat.lt_or_eq_of_le (Nat.le_of_lt_succ before) with before | rfl
    · exact calm l before
    · exact quiet

/-- A position that nothing was written at holds a zero. -/
theorem LastPut.of_quiet (before : ∀ j < k, ∀ c, ¬ (run j).Puts n i c)
    (quiet : ∀ c, ¬ (run k).Puts n i c) : LastPut run (k + 1) n i 0 :=
  LastPut.succ (.inr ⟨rfl, before⟩) quiet

/-- Nothing has been written beyond the end of a memory, and it never gets shorter. -/
theorem Tracked.beyond_succ (tracked : Tracked run k n)
    (longer : ((run k).world.contents n).length ≤ ((run (k + 1)).world.contents n).length)
    (out : ((run (k + 1)).world.contents n).length ≤ i) (j : Nat) (before : j < k + 1) (b : UInt8) :
    ¬ (run j).Puts n i b := by
  rcases Nat.lt_or_eq_of_le (Nat.le_of_lt_succ before) with before | rfl
  · exact tracked.beyond i (by omega) j before b
  · intro puts
    have := puts.inside
    omega

variable (steps : ∀ k, run (k + 1) = (run k).step)

include steps

theorem Tracked.succ_of_memory {mem : LinearMemory} (tracked : Tracked run k n)
    (found : (run k).world.nativeObject? n = some (.memory mem))
    (careful : ∀ offset bytes, (run k).Pokes n offset bytes →
      offset + bytes.length ≤ ((run k).world.contents n).length) : Tracked run (k + 1) n := by
  obtain ⟨changes, after, later, paged⟩ := changes found (tracked.paged mem found) careful
  rw [← steps] at later
  have paged (mem : LinearMemory)
      (here : (run (k + 1)).world.nativeObject? n = some (.memory mem)) : mem.Paged := by
    cases later.symm.trans here
    exact paged
  cases changes with
  | stays quiet same =>
      rw [← steps] at same
      refine ⟨fun i b byte => ?_, fun i => tracked.beyond_succ (by rw [same]), paged⟩
      rw [same] at byte
      exact (tracked.bytes i b byte).succ (quiet i)
  | takes offset bytes puts within same =>
      rw [← steps] at same
      refine ⟨fun i b byte => ?_, fun i => tracked.beyond_succ ?_, paged⟩
      case refine_2 => rw [same, length_putBytes within]
      rw [same, getElem?_putBytes within] at byte
      split at byte
      · next addressed => exact .of_puts ((puts i b).mpr ⟨addressed.1, byte⟩)
      · next elsewhere =>
          refine (tracked.bytes i b byte).succ fun c put => elsewhere ?_
          obtain ⟨reached, byte⟩ := (puts i c).mp put
          obtain ⟨inside, -⟩ := List.getElem?_eq_some_iff.mp byte
          exact ⟨reached, by omega⟩
  | grows delta quiet same =>
      rw [← steps] at same
      refine ⟨fun i b byte => ?_, fun i => tracked.beyond_succ ?_, paged⟩
      case refine_2 =>
          rw [same, List.length_append]
          omega
      rw [same] at byte
      by_cases old : i < ((run k).world.contents n).length
      · rw [List.getElem?_append_left old] at byte
        exact (tracked.bytes i b byte).succ (quiet i)
      · rw [List.getElem?_append_right (Nat.le_of_not_lt old)] at byte
        obtain rfl := List.eq_of_mem_replicate (List.mem_of_getElem? byte)
        exact .of_quiet (tracked.beyond i (Nat.le_of_not_lt old)) (quiet i)

theorem Tracked.succ_of_absent (tracked : Tracked run k n)
    (absent : ∀ mem, (run k).world.nativeObject? n ≠ some (.memory mem)) : Tracked run (k + 1) n := by
  obtain ⟨⟨size, zeros⟩, paged⟩ := contents_of_absent absent
  rw [← steps] at zeros paged
  have empty : (run k).world.contents n = [] := by
    unfold World.contents
    split
    · next mem found => exact absurd found (absent mem)
    · rfl
  have none (i : Nat) : ((run k).world.contents n).length ≤ i := by
    rw [empty]
    exact Nat.zero_le i
  refine ⟨fun i b byte => ?_, fun i => tracked.beyond_succ (none _), paged⟩
  rw [zeros] at byte
  obtain rfl := List.eq_of_mem_replicate (List.mem_of_getElem? byte)
  exact .of_quiet (tracked.beyond i (none i)) fun c puts => Nat.not_lt.mpr (none i) puts.inside

/-- As long as its data pointer is used inside its bounds, a memory holds what was last written. -/
theorem tracked (idle : (run 0).world.nativeObject? n = none) (careful : Careful run k n) :
    Tracked run k n := by
  induction k with
  | zero =>
      have empty : (run 0).world.contents n = [] := by
        unfold World.contents
        rw [idle]
      refine ⟨fun i b byte => ?_, fun i _ j before => by omega, fun mem found => ?_⟩
      · rw [empty] at byte
        cases byte
      · cases idle.symm.trans found
  | succ k ih =>
      have before := ih fun j less => careful j (Nat.lt_succ_of_lt less)
      by_cases found : ∃ mem, (run k).world.nativeObject? n = some (.memory mem)
      · obtain ⟨mem, found⟩ := found
        exact before.succ_of_memory steps found (careful k (Nat.lt_succ_self k))
      · exact before.succ_of_absent steps fun mem here => found ⟨mem, here⟩

end

/-! ## Answers -/

section

variable {v : VarName} {p : Option VarName} {mem : LinearMemory} {len : Nat}

theorem withMemory_of_named (named : m.memoryNamed? v = some (n, mem))
    (next : NativeId → LinearMemory → Machine) : m.withMemory v next = next n mem := by
  rw [withMemory_eq, named]

theorem withNativeMemory_of_named (named : m.objectNamed? p = some (n, .memory mem))
    (next : NativeId → LinearMemory → Machine) : m.withNativeMemory p next = next n mem := by
  unfold Machine.withNativeMemory
  rw [withObject_of_named named]

theorem refuse_world (m : Machine) (g : Guard) (e : ApiError) : (m.refuse g e).world = m.world := by
  unfold Machine.refuse
  split <;> rfl

/-- A read of the memory that a variable reaches. -/
theorem step_read (at_ : m.AtStep g (.plain (.read v offset len)))
    (named : m.memoryNamed? v = some (n, mem)) (paged : mem.Paged) : m.step =
      if offset + len ≤ mem.contents.length then m.finish (.runs (mem.bytes.slice offset len))
      else m.refuse g (.outOfBounds offset len mem.contents.length) := by
  rw [at_.step_eq]
  show m.withMemory v _ = _
  rw [withMemory_of_named named]
  unfold World.read
  rw [paged.read?, ← mem.length_contents]
  by_cases within : offset + len ≤ mem.contents.length
  · rw [if_pos within, if_pos within]
  · rw [if_neg within, if_neg within]

/-- Bytes that are written into the memory that a variable reaches. -/
theorem Writes.step_eq (writes : m.Writes g n offset bytes)
    (found : m.world.nativeObject? n = some (.memory mem)) (paged : mem.Paged) :
    (offset + bytes.length ≤ mem.contents.length → m.step.control = .complete (.done .ok)) ∧
      (mem.contents.length < offset + bytes.length →
        m.step = m.refuse g (.outOfBounds offset bytes.length mem.contents.length)) := by
  have written (data : Runs) (same : data.expand = bytes)
      (step : m.step = m.writeMemory g n mem offset data) :
      (offset + bytes.length ≤ mem.contents.length → m.step.control = .complete (.done .ok)) ∧
        (mem.contents.length < offset + bytes.length →
          m.step = m.refuse g (.outOfBounds offset bytes.length mem.contents.length)) := by
    rw [step]
    unfold Machine.writeMemory World.write
    rw [paged.write?, same]
    constructor
    · intro within
      rw [if_pos within]
      rfl
    · intro out
      rw [if_neg (Nat.not_le.mpr out), ← same, Runs.length_expand, mem.length_contents]
      rfl
  cases writes with
  | bytes v bs times mem' at_ named =>
      cases (memory_of_named named).symm.trans found
      refine written (Runs.times times (Runs.ofBytes bs)) ?_ ?_
      · rw [Runs.expand_times, Runs.expand_ofBytes]
      · rw [at_.step_eq]
        exact withMemory_of_named named _
  | integer v address value bs mem' at_ named place content =>
      cases (memory_of_named named).symm.trans found
      refine written (Runs.ofBytes bytes) (Runs.expand_ofBytes bytes) ?_
      obtain ⟨a, address?, place⟩ := Option.bind_eq_some_iff.mp place
      obtain ⟨s, value?, content⟩ := Option.bind_eq_some_iff.mp content
      rw [at_.step_eq]
      show m.withMemory v _ = _
      rw [withMemory_of_named named]
      simp only [Machine.withOperand, address?, value?, place, content]

/-- A memory that is asked to grow answers whether it did. -/
theorem Grows.step_eq (grows : m.Grows n delta) (found : m.world.nativeObject? n = some (.memory mem)) :
    m.step.control = .complete (.done (.bool (mem.grow? delta).isSome)) := by
  have granted : (m.world.growNative n mem delta).1 = (mem.grow? delta).isSome := by
    unfold World.growNative
    cases mem.grow? delta <;> rfl
  cases grows with
  | handle g v mem' at_ named =>
      cases (memory_of_named named).symm.trans found
      have same : (m.world.grow n mem delta).1 = (m.world.growNative n mem delta).1 := by
        unfold World.grow
        split
        · next grown => rw [grown]
        · next refused => rw [refused]
      rw [at_.step_eq, ← granted, ← same]
      show (m.withMemory v _).control = _
      rw [withMemory_of_named named]
      rfl
  | pointer g name p mem' at_ named =>
      cases (memory_of_pointer named).symm.trans found
      rw [at_.step_eq, ← granted]
      show (m.withNativeMemory p _).control = _
      rw [withNativeMemory_of_named named]
      rfl

end

/-! ## Every run -/

/-- What a memory answers to the next transition of a run, and what the transition makes of it. -/
structure PlainMemory (run : Nat → Machine) (k : Nat) (n : NativeId) : Prop where
  /-- Each byte is the one that was last written there, or zero. -/
  bytes : ∀ i b, ((run k).world.contents n)[i]? = some b → LastPut run k n i b
  /-- A read that ends inside the memory gives the addressed bytes. -/
  read : ∀ g v offset len mem, (run k).AtStep g (.plain (.read v offset len)) →
    (run k).memoryNamed? v = some (n, mem) → offset + len ≤ ((run k).world.contents n).length →
    ∃ data, run (k + 1) = (run k).finish (.runs data) ∧ data.expand.length = len ∧
      ∀ i b, data.expand[i]? = some b → LastPut run k n (offset + i) b
  /-- Any other read is refused. -/
  readRefused : ∀ g v offset len mem, (run k).AtStep g (.plain (.read v offset len)) →
    (run k).memoryNamed? v = some (n, mem) → ((run k).world.contents n).length < offset + len →
    run (k + 1) = (run k).refuse g (.outOfBounds offset len ((run k).world.contents n).length)
  /-- A write that ends inside the memory changes exactly the addressed bytes. -/
  write : ∀ g offset bytes, (run k).Writes g n offset bytes →
    offset + bytes.length ≤ ((run k).world.contents n).length →
    (run (k + 1)).control = .complete (.done .ok) ∧
      (run (k + 1)).world.contents n = putBytes ((run k).world.contents n) offset bytes
  /-- Any other write is refused and changes nothing. -/
  writeRefused : ∀ g offset bytes, (run k).Writes g n offset bytes →
    ((run k).world.contents n).length < offset + bytes.length →
    run (k + 1) = (run k).refuse g (.outOfBounds offset bytes.length ((run k).world.contents n).length) ∧
      (run (k + 1)).world = (run k).world
  /-- What is put through the data pointer changes exactly the addressed bytes. -/
  poke : ∀ offset bytes, (run k).Pokes n offset bytes →
    offset + bytes.length ≤ ((run k).world.contents n).length →
    (run (k + 1)).world.contents n = putBytes ((run k).world.contents n) offset bytes
  /-- Growth that is granted keeps the bytes and adds zeros; growth that is refused changes nothing. -/
  grow : ∀ delta, (run k).Grows n delta →
    ((run (k + 1)).control = .complete (.done (.bool true)) ∧ (run (k + 1)).world.contents n =
      (run k).world.contents n ++ List.replicate (delta.toNat * pageSize) 0) ∨
    ((run (k + 1)).control = .complete (.done (.bool false)) ∧
      (run (k + 1)).world.nativeObject? n = (run k).world.nativeObject? n)
  /-- The size that is reported is the length of the array. -/
  size : ∀ g v mem, (run k).AtStep g (.plain (.dataSize v)) → (run k).memoryNamed? v = some (n, mem) →
    run (k + 1) = (run k).finish (.nat ((run k).world.contents n).length)
  /-- What is read through the data pointer is the whole array. -/
  data : ∀ g v mem, (run k).AtStep g (.plain (.data v)) → (run k).memoryNamed? v = some (n, mem) →
    ∃ data, run (k + 1) = (run k).finish (.runs data) ∧ data.expand = (run k).world.contents n
  /-- It is the same for a raw pointer. -/
  pointer : ∀ g name p mem, (run k).objectNamed? p = some (n, .memory mem) →
    ((run k).AtStep g (.native name (.memoryDataSize p)) →
      run (k + 1) = (run k).finish (.nat ((run k).world.contents n).length)) ∧
    ((run k).AtStep g (.native name (.memoryData p)) →
      ∃ data, run (k + 1) = (run k).finish (.runs data) ∧ data.expand = (run k).world.contents n)

/-- The next transition makes a memory under the page cap of a store, with the limits of the type that is
asked for or of the native type that a pointer names. -/
inductive MakesMemory (m : Machine) (mem : LinearMemory) : Prop
  | type (g : Guard) (name v : VarName) (type : MemoryType) (s : ObjId) (n : NativeId) (st : NativeStore)
      (begins : m.AtStep g (.plain (.memory name v type))) (held : m.lookup v = some (.store s))
      (native : m.world.storeNative? s = some n) (object : m.world.nativeObject? n = some (.store st))
      (least : mem.limits.min = type.minimum) (most : mem.limits.max = type.maximum.getD Limits.unbounded)
      (capped : mem.cap = st.config.maxMemoryPages)
  | pointer (g : Guard) (name p q : Option VarName) (n k : NativeId) (st : NativeStore)
      (begins : m.AtStep g (.native name (.memoryNew p q))) (named : m.objectNamed? p = some (n, .store st))
      (typed : m.objectNamed? q = some (k, .memoryType mem.limits))
      (capped : mem.cap = st.config.maxMemoryPages)

theorem Added.makesMemory {mem : LinearMemory} (added : m.Added (.memory mem)) : m.MakesMemory mem := by
  cases added with
  | step g s begins adds =>
      cases adds with
      | memory name v type s n st limits mem held native object valid created =>
          obtain ⟨rfl, capped⟩ := LinearMemory.limits_create? created
          obtain ⟨least, most⟩ := type.toLimits?_eq_some valid
          exact .type g name v type s n st begins held native object least most capped
      | memoryNew name p q n k st limits mem named typed created =>
          obtain ⟨rfl, capped⟩ := LinearMemory.limits_create? created
          exact .pointer g name p q n k st begins named typed capped
  | trap t control same => cases same

/-- Memories on a run. -/
structure MemoryContents (run : Nat → Machine) : Prop where
  /-- A memory is made as it is asked for, and starts with the zeros of its minimum. -/
  created : ∀ k n mem, (run k).world.nativeObject? n = none →
    (run (k + 1)).world.nativeObject? n = some (.memory mem) →
    (run k).MakesMemory mem ∧
      (run (k + 1)).world.contents n = List.replicate (mem.limits.min.toNat * pageSize) 0
  /-- As long as its data pointer is used inside its bounds, it is a plain byte array. -/
  plain : ∀ k n, Careful run k n → PlainMemory run k n
  /-- A transition is about one memory at most. -/
  single : ∀ k n n', (run k).Touches n → (run k).Touches n' → n = n'
  /-- Nothing that is not about a memory changes it. -/
  apart : ∀ k n mem, (run k).world.nativeObject? n = some (.memory mem) → ¬ (run k).Touches n →
    (run (k + 1)).world.nativeObject? n = some (.memory mem)

theorem Tracked.plain {run : Nat → Machine} {k : Nat} (steps : ∀ k, run (k + 1) = (run k).step)
    (tracked : Tracked run k n) : PlainMemory run k n := by
  have paged {mem : LinearMemory} := tracked.paged mem
  constructor
  case bytes => exact tracked.bytes
  case read =>
      intro g v offset len mem at_ named within
      have found := memory_of_named named
      rw [World.contents_of_memory found] at within
      have sliced : (mem.bytes.slice offset len).expand = (mem.contents.drop offset).take len :=
        Runs.expand_slice _ _ _
      refine ⟨mem.bytes.slice offset len, ?_, ?_, fun i b byte => ?_⟩
      · rw [steps, step_read at_ named (paged found), if_pos within]
      · rw [sliced, List.length_take, List.length_drop, Nat.min_eq_left (by omega)]
      · apply tracked.bytes
        rw [World.contents_of_memory found, ← List.getElem?_drop]
        rw [sliced, List.getElem?_take] at byte
        split at byte
        · exact byte
        · cases byte
  case readRefused =>
      intro g v offset len mem at_ named out
      have found := memory_of_named named
      rw [World.contents_of_memory found] at out ⊢
      rw [steps, step_read at_ named (paged found), if_neg (Nat.not_le.mpr out)]
  case write =>
      intro g offset bytes writes within
      obtain ⟨mem, found⟩ := writes.memory
      have held := World.contents_of_memory found
      obtain ⟨data, deed, rfl⟩ := writes.deed
      rw [steps]
      rw [held] at within
      exact ⟨(writes.step_eq found (paged found)).1 within,
        (contents_of_deed found (paged found) (.inl deed) within).2⟩
  case writeRefused =>
      intro g offset bytes writes out
      obtain ⟨mem, found⟩ := writes.memory
      rw [World.contents_of_memory found] at out ⊢
      have refused := (writes.step_eq found (paged found)).2 out
      rw [steps, refused]
      exact ⟨rfl, refuse_world _ _ _⟩
  case poke =>
      intro offset bytes pokes within
      obtain ⟨mem, found⟩ := pokes.memory
      rw [World.contents_of_memory found, ← Runs.expand_ofBytes bytes] at within
      have taken := (contents_of_deed found (paged found) (.inr pokes.deed) within).2
      rwa [Runs.expand_ofBytes, ← steps] at taken
  case grow =>
      intro delta grows
      obtain ⟨mem, found⟩ := grows.memory
      have answer := grows.step_eq found
      have after := memory_of_grow found grows.deed
      rw [steps]
      cases grown : mem.grow? delta with
      | none =>
          rw [grown] at answer after
          exact .inr ⟨answer, after.trans found.symm⟩
      | some mem' =>
          rw [grown] at answer after
          refine .inl ⟨answer, ?_⟩
          rw [World.contents_of_memory after, World.contents_of_memory found]
          exact (paged found).contents_grow? grown
  case size =>
      intro g v mem at_ named
      rw [steps, at_.step_eq, World.contents_of_memory (memory_of_named named), mem.length_contents]
      exact withMemory_of_named named _
  case data =>
      intro g v mem at_ named
      refine ⟨mem.bytes, ?_, (World.contents_of_memory (memory_of_named named)).symm⟩
      rw [steps, at_.step_eq]
      exact withMemory_of_named named _
  case pointer =>
      intro g name p mem named
      have found := memory_of_pointer named
      refine ⟨fun at_ => ?_, fun at_ => ⟨mem.bytes, ?_, (World.contents_of_memory found).symm⟩⟩
      · rw [steps, at_.step_eq, World.contents_of_memory found, mem.length_contents]
        exact withNativeMemory_of_named named _
      · rw [steps, at_.step_eq]
        exact withNativeMemory_of_named named _

/-- On every run of every script, over the public interface or the native one. -/
theorem memoryContents_after (level : Option LogLevel) (script : Block) :
    MemoryContents (after level script) := by
  have steps := after_succ level script
  constructor
  case created =>
      intro k n mem absent found
      have added := (becomes_step (after level script k)).added n _ absent (steps k ▸ found)
      refine ⟨added.makesMemory, ?_⟩
      rw [World.contents_of_memory found]
      exact LinearMemory.contents_create? added.fresh
  case plain =>
      intro k n careful
      exact (tracked steps rfl careful).plain steps
  case single =>
      intro k n n' touches touches'
      exact Option.some.inj (touches.target.symm.trans touches'.target)
  case apart =>
      intro k n mem found apart
      rw [steps]
      exact memory_untouched found apart

/-- Two bytes at the end of the only page of a memory, which then grows. -/
def writtenAcross : Block :=
  [(⟨false, false⟩, .plain (.engine (.scoped "e") none none)),
    (⟨false, false⟩, .plain (.store (.scoped "s") (some (.scoped "e")))),
    (⟨false, false⟩, .plain (.memory (.scoped "m") (.scoped "s") ⟨1, none⟩)),
    (⟨false, false⟩, .plain (.write (.scoped "m") 65534 [7, 9] 1)),
    (⟨false, false⟩, .plain (.grow (.scoped "m") 1)),
    (⟨false, false⟩, .plain (.read (.scoped "m") 65533 5))]

/-- A read across the old end finds the bytes between zeros. -/
example : (match (after none writtenAcross 11).control with
    | .complete (.done (.runs data)) => data
    | _ => []) = [(0, 1), (7, 1), (9, 1), (0, 2)] := by
  decide +kernel

end Machine

end HostEmbedding
