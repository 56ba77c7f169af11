import HostEmbedding.Proofs.Memory.Plain
import HostEmbedding.Proofs.Native.Transitions

/-!
# What a transition does to a memory

A transition writes bytes into one memory, asks one to grow, or leaves all memories as they are. What
it makes of the bytes of a memory is read off from its deed.
-/

namespace HostEmbedding

def World.contents (w : World) (n : NativeId) : List UInt8 :=
  match w.nativeObject? n with
  | some (.memory mem) => mem.contents
  | _ => []

theorem World.contents_of_memory {w : World} {n : NativeId} {mem : LinearMemory}
    (found : w.nativeObject? n = some (.memory mem)) : w.contents n = mem.contents := by
  unfold World.contents
  rw [found]

namespace Machine

variable {m : Machine} {n : NativeId} {g : Guard} {offset : Nat} {bytes : List UInt8} {delta : UInt32}

/-! ## What is done to a memory -/

/-- The next transition asks a memory to take bytes, through a handle. -/
inductive Writes (m : Machine) (g : Guard) (n : NativeId) (offset : Nat) : List UInt8 → Prop
  | bytes (v : VarName) (bs : List UInt8) (times : Nat) (mem : LinearMemory)
      (at_ : m.AtStep g (.plain (.write v offset bs times)))
      (named : m.memoryNamed? v = some (n, mem)) : Writes m g n offset (List.replicate times bs).flatten
  /-- The bytes of an integer. -/
  | integer (v : VarName) (address value : Operand) (bs : List UInt8) (mem : LinearMemory)
      (at_ : m.AtStep g (.plain (.poke v address value))) (named : m.memoryNamed? v = some (n, mem))
      (place : (m.operand? address).bind Scalar.address? = some offset)
      (content : (m.operand? value).bind Scalar.bytes? = some bs) : Writes m g n offset bs

/-- The next transition puts bytes into a memory through its data pointer. -/
def Pokes (m : Machine) (n : NativeId) (offset : Nat) (bytes : List UInt8) : Prop :=
  ∃ g name p mem, m.AtStep g (.native name (.memoryPoke p offset bytes)) ∧
    m.objectNamed? p = some (n, .memory mem)

/-- The next transition asks a memory to grow, through a handle or its pointer. -/
inductive Grows (m : Machine) (n : NativeId) (delta : UInt32) : Prop
  | handle (g : Guard) (v : VarName) (mem : LinearMemory) (at_ : m.AtStep g (.plain (.grow v delta)))
      (named : m.memoryNamed? v = some (n, mem))
  | pointer (g : Guard) (name p : Option VarName) (mem : LinearMemory)
      (at_ : m.AtStep g (.native name (.memoryGrow p delta)))
      (named : m.objectNamed? p = some (n, .memory mem))

/-- The next transition writes a byte at a position of a memory, and the write succeeds. -/
def Puts (m : Machine) (n : NativeId) (i : Nat) (b : UInt8) : Prop :=
  ∃ offset bytes, ((∃ g, m.Writes g n offset bytes) ∨ m.Pokes n offset bytes) ∧
    offset + bytes.length ≤ (m.world.contents n).length ∧ offset ≤ i ∧ bytes[i - offset]? = some b

/-- What stands at the address that a variable reaches. -/
theorem memory_of_named {v : VarName} {mem : LinearMemory} (named : m.memoryNamed? v = some (n, mem)) :
    m.world.nativeObject? n = some (.memory mem) :=
  World.nativeObject?_of_nativeMemory? (nativeMemory?_of_named named)

theorem memory_of_pointer {p : Option VarName} {mem : LinearMemory}
    (named : m.objectNamed? p = some (n, .memory mem)) :
    m.world.nativeObject? n = some (.memory mem) :=
  World.nativeObject?_of_nativeMemory? (World.nativeMemory?_eq_some.mpr (native?_of_named named))

theorem Writes.deed (writes : m.Writes g n offset bytes) :
    ∃ data, m.deed = .write n offset data ∧ data.expand = bytes := by
  cases writes with
  | bytes v bs times mem at_ named =>
      refine ⟨Runs.times times (Runs.ofBytes bs), ?_, ?_⟩
      · rw [at_.deed]
        show m.actionDeed (.write v offset bs times) = _
        simp only [actionDeed, named]
      · rw [Runs.expand_times, Runs.expand_ofBytes]
  | integer v address value bs mem at_ named place content =>
      refine ⟨Runs.ofBytes bytes, ?_, Runs.expand_ofBytes bytes⟩
      rw [at_.deed]
      show m.actionDeed (.poke v address value) = _
      simp only [actionDeed, named, place, content]

theorem Pokes.deed (pokes : m.Pokes n offset bytes) : m.deed = .poke n offset (Runs.ofBytes bytes) := by
  obtain ⟨g, name, p, mem, at_, named⟩ := pokes
  rw [at_.deed]
  show m.nativeDeed (.memoryPoke p offset bytes) = _
  simp only [nativeDeed, named]

theorem Grows.deed (grows : m.Grows n delta) : m.deed = .grow n delta := by
  cases grows with
  | handle g v mem at_ named =>
      rw [at_.deed]
      show m.actionDeed (.grow v delta) = _
      simp only [actionDeed, named]
  | pointer g name p mem at_ named =>
      rw [at_.deed]
      show m.nativeDeed (.memoryGrow p delta) = _
      simp only [nativeDeed, named]

theorem Writes.memory (writes : m.Writes g n offset bytes) :
    ∃ mem, m.world.nativeObject? n = some (.memory mem) := by
  cases writes with
  | bytes v bs times mem at_ named => exact ⟨mem, memory_of_named named⟩
  | integer v address value bs mem at_ named place content => exact ⟨mem, memory_of_named named⟩

theorem Pokes.memory (pokes : m.Pokes n offset bytes) :
    ∃ mem, m.world.nativeObject? n = some (.memory mem) := by
  obtain ⟨g, name, p, mem, at_, named⟩ := pokes
  exact ⟨mem, memory_of_pointer named⟩

theorem Grows.memory (grows : m.Grows n delta) :
    ∃ mem, m.world.nativeObject? n = some (.memory mem) := by
  cases grows with
  | handle g v mem at_ named => exact ⟨mem, memory_of_named named⟩
  | pointer g name p mem at_ named => exact ⟨mem, memory_of_pointer named⟩

theorem writes_of_deed {data : Runs} (deed : m.deed = .write n offset data) :
    ∃ g, m.Writes g n offset data.expand := by
  obtain ⟨g, s, at_, same⟩ := m.atStep_of_direct (by rw [deed]; trivial) (by rw [deed]; nofun)
  have does := m.stepDoes s
  rw [same, deed] at does
  refine ⟨g, ?_⟩
  cases does with
  | write v offset bytes times n mem named =>
      rw [Runs.expand_times, Runs.expand_ofBytes]
      exact .bytes v bytes times mem at_ named
  | poke v address value offset bytes n mem named place content =>
      rw [Runs.expand_ofBytes]
      exact .integer v address value bytes mem at_ named place content

theorem pokes_of_deed {data : Runs} (deed : m.deed = .poke n offset data) :
    m.Pokes n offset data.expand := by
  obtain ⟨g, s, at_, same⟩ := m.atStep_of_direct (by rw [deed]; trivial) (by rw [deed]; nofun)
  have does := m.stepDoes s
  rw [same, deed] at does
  cases does with
  | memoryPoke name p offset bytes n mem named =>
      rw [Runs.expand_ofBytes]
      exact ⟨g, name, p, mem, at_, named⟩

theorem grows_of_deed (deed : m.deed = .grow n delta) : m.Grows n delta := by
  obtain ⟨g, s, at_, same⟩ := m.atStep_of_direct (by rw [deed]; trivial) (by rw [deed]; nofun)
  have does := m.stepDoes s
  rw [same, deed] at does
  cases does with
  | grow v delta n mem named => exact .handle g v mem at_ named
  | memoryGrow name p delta n mem named => exact .pointer g name p mem at_ named

/-- A byte is written by a deed that writes and succeeds. -/
theorem puts_iff {i : Nat} {b : UInt8} : m.Puts n i b ↔ ∃ offset data,
    (m.deed = .write n offset data ∨ m.deed = .poke n offset data) ∧
      offset + data.expand.length ≤ (m.world.contents n).length ∧
        offset ≤ i ∧ data.expand[i - offset]? = some b := by
  constructor
  · rintro ⟨offset, bytes, ⟨g, writes⟩ | pokes, within, reached, byte⟩
    · obtain ⟨data, deed, rfl⟩ := writes.deed
      exact ⟨offset, data, .inl deed, within, reached, byte⟩
    · refine ⟨offset, Runs.ofBytes bytes, .inr pokes.deed, ?_⟩
      rw [Runs.expand_ofBytes]
      exact ⟨within, reached, byte⟩
  · rintro ⟨offset, data, deed | deed, within, reached, byte⟩
    · exact ⟨offset, data.expand, .inl (writes_of_deed deed), within, reached, byte⟩
    · exact ⟨offset, data.expand, .inr (pokes_of_deed deed), within, reached, byte⟩

/-- A deed of another kind, or one that is done elsewhere, writes no byte. -/
theorem not_puts (writes : ∀ offset data, m.deed ≠ .write n offset data)
    (pokes : ∀ offset data, m.deed ≠ .poke n offset data) (i : Nat) (b : UInt8) : ¬ m.Puts n i b := by
  intro puts
  obtain ⟨offset, data, deed | deed, -⟩ := puts_iff.mp puts
  · exact writes offset data deed
  · exact pokes offset data deed

/-! ## One transition -/

/-- What the next transition makes of the bytes of a memory. -/
inductive Changes (m : Machine) (n : NativeId) : Prop
  | stays (quiet : ∀ i b, ¬ m.Puts n i b) (same : m.step.world.contents n = m.world.contents n)
  | takes (offset : Nat) (bytes : List UInt8)
      (puts : ∀ i b, m.Puts n i b ↔ offset ≤ i ∧ bytes[i - offset]? = some b)
      (within : offset + bytes.length ≤ (m.world.contents n).length)
      (same : m.step.world.contents n = putBytes (m.world.contents n) offset bytes)
  | grows (delta : UInt32) (quiet : ∀ i b, ¬ m.Puts n i b)
      (same : m.step.world.contents n =
        m.world.contents n ++ List.replicate (delta.toNat * pageSize) 0)

section

variable {mem : LinearMemory} (found : m.world.nativeObject? n = some (.memory mem))

include found

/-- What a transition leaves at the address of a memory. -/
theorem memory_step : m.step.world.nativeObject? n =
    some (.memory (if m.deed.target? = some n then m.deed.onMemory mem else mem)) := by
  rw [m.becomes_step.known n _ found]
  unfold Deed.on
  split <;> rfl

/-- A deed that writes a memory inside its bounds changes the addressed bytes. -/
theorem contents_of_deed {data : Runs} (paged : mem.Paged)
    (deed : m.deed = .write n offset data ∨ m.deed = .poke n offset data)
    (within : offset + data.expand.length ≤ mem.contents.length) :
    m.step.world.nativeObject? n = some (.memory (mem.overwrite offset data)) ∧
      m.step.world.contents n = putBytes (m.world.contents n) offset data.expand := by
  have after : m.step.world.nativeObject? n = some (.memory (mem.overwrite offset data)) := by
    rw [memory_step found]
    rcases deed with deed | deed
    · have acts : m.deed.onMemory mem = (mem.write? offset data).getD mem := by rw [deed]; rfl
      rw [paged.write?, if_pos within] at acts
      rw [if_pos (by rw [deed]; rfl), acts]
      rfl
    · rw [deed]
      exact congrArg _ (congrArg _ (if_pos rfl))
  refine ⟨after, ?_⟩
  rw [World.contents_of_memory after, LinearMemory.contents_overwrite, World.contents_of_memory found]

theorem takes_of_deed {data : Runs} (paged : mem.Paged)
    (deed : m.deed = .write n offset data ∨ m.deed = .poke n offset data)
    (within : offset + data.expand.length ≤ mem.contents.length) :
    m.Changes n ∧ ∃ after, m.step.world.nativeObject? n = some (.memory after) ∧ after.Paged := by
  have held := World.contents_of_memory found
  obtain ⟨after, becomes⟩ := contents_of_deed found paged deed within
  refine ⟨?_, _, after, paged.overwrite within⟩
  refine .takes offset data.expand (fun i b => ?_) (by rw [held]; exact within) becomes
  rw [puts_iff, held]
  constructor
  · rintro ⟨offset', data', deed', -, reached, byte⟩
    have same : offset = offset' ∧ data = data' := by
      rcases deed with deed | deed <;> rcases deed' with deed' | deed' <;>
        cases deed.symm.trans deed' <;> exact ⟨rfl, rfl⟩
    obtain ⟨rfl, rfl⟩ := same
    exact ⟨reached, byte⟩
  · rintro ⟨reached, byte⟩
    exact ⟨offset, data, deed, within, reached, byte⟩

/-- A memory that is asked to grow keeps its bytes and gets zeros after them, or stays as it is. -/
theorem memory_of_grow (deed : m.deed = .grow n delta) :
    m.step.world.nativeObject? n = some (.memory ((mem.grow? delta).getD mem)) := by
  rw [memory_step found, deed]
  exact congrArg _ (congrArg _ (if_pos rfl))

theorem changes (paged : mem.Paged) (careful : ∀ offset bytes, m.Pokes n offset bytes →
    offset + bytes.length ≤ (m.world.contents n).length) :
    m.Changes n ∧ ∃ after, m.step.world.nativeObject? n = some (.memory after) ∧ after.Paged := by
  have held := World.contents_of_memory found
  have stays (same : m.step.world.nativeObject? n = some (.memory mem)) (quiet : ∀ i b, ¬ m.Puts n i b) :
      m.Changes n ∧ ∃ after, m.step.world.nativeObject? n = some (.memory after) ∧ after.Paged :=
    ⟨.stays quiet ((World.contents_of_memory same).trans held.symm), mem, same, paged⟩
  have after := memory_step found
  by_cases target : m.deed.target? = some n
  · rw [if_pos target] at after
    cases deed : m.deed with
    | write k offset data =>
        rw [deed] at target
        obtain rfl : k = n := Option.some.inj target
        by_cases within : offset + data.expand.length ≤ mem.contents.length
        · exact takes_of_deed found paged (.inl deed) within
        · have acts : m.deed.onMemory mem = (mem.write? offset data).getD mem := by rw [deed]; rfl
          rw [paged.write?, if_neg within] at acts
          refine stays (after.trans (congrArg _ (congrArg _ acts))) fun i b puts => ?_
          obtain ⟨offset', data', deed' | deed', within', -⟩ := puts_iff.mp puts
          · cases deed.symm.trans deed'
            exact within (held ▸ within')
          · cases deed.symm.trans deed'
    | poke k offset data =>
        rw [deed] at target
        obtain rfl : k = n := Option.some.inj target
        have within := careful offset _ (pokes_of_deed deed)
        rw [held] at within
        exact takes_of_deed found paged (.inr deed) within
    | grow k delta =>
        rw [deed] at target
        obtain rfl : k = n := Option.some.inj target
        have quiet := m.not_puts (n := k) (by rw [deed]; nofun) (by rw [deed]; nofun)
        have after := memory_of_grow found deed
        cases grown : mem.grow? delta with
        | none =>
            rw [grown] at after
            exact stays after quiet
        | some mem' =>
            rw [grown] at after
            refine ⟨.grows delta quiet ?_, mem', after, paged.grow? grown⟩
            rw [World.contents_of_memory after, held]
            exact paged.contents_grow? grown
    | _ =>
        rw [deed] at after
        exact stays after (m.not_puts (by rw [deed]; nofun) (by rw [deed]; nofun))
  · rw [if_neg target] at after
    refine stays after (m.not_puts ?_ ?_)
    · intro offset data deed
      exact target (by rw [deed]; rfl)
    · intro offset data deed
      exact target (by rw [deed]; rfl)

end

/-- The next transition is about a memory: it writes into it or asks it to grow. -/
def Touches (m : Machine) (n : NativeId) : Prop :=
  (∃ g offset bytes, m.Writes g n offset bytes) ∨ (∃ offset bytes, m.Pokes n offset bytes) ∨
    ∃ delta, m.Grows n delta

theorem Touches.target (touches : m.Touches n) : m.deed.target? = some n := by
  rcases touches with ⟨g, offset, bytes, writes⟩ | ⟨offset, bytes, pokes⟩ | ⟨delta, grows⟩
  · obtain ⟨data, deed, -⟩ := writes.deed
    rw [deed]
    rfl
  · rw [pokes.deed]
    rfl
  · rw [grows.deed]
    rfl

/-- What is not about a memory leaves it as it is. -/
theorem memory_untouched {mem : LinearMemory} (found : m.world.nativeObject? n = some (.memory mem))
    (apart : ¬ m.Touches n) : m.step.world.nativeObject? n = some (.memory mem) := by
  rw [memory_step found]
  split
  · next target =>
      cases deed : m.deed with
      | write k offset data =>
          rw [deed] at target
          cases target
          obtain ⟨g, writes⟩ := writes_of_deed deed
          exact absurd (.inl ⟨g, offset, _, writes⟩) apart
      | poke k offset data =>
          rw [deed] at target
          cases target
          exact absurd (.inr (.inl ⟨offset, _, pokes_of_deed deed⟩)) apart
      | grow k delta =>
          rw [deed] at target
          cases target
          exact absurd (.inr (.inr ⟨delta, grows_of_deed deed⟩)) apart
      | _ => rfl
  · rfl

/-- Where there is no memory, one can only be created, with zeros. -/
theorem contents_of_absent (absent : ∀ mem, m.world.nativeObject? n ≠ some (.memory mem)) :
    (∃ size, m.step.world.contents n = List.replicate size 0) ∧
      ∀ mem, m.step.world.nativeObject? n = some (.memory mem) → mem.Paged := by
  have becomes := m.becomes_step
  have created (mem : LinearMemory) (found : m.step.world.nativeObject? n = some (.memory mem)) :
      LinearMemory.create? mem.cap mem.limits = some mem := by
    cases before : m.world.nativeObject? n with
    | none => exact (becomes.added n _ before found).fresh
    | some o =>
        have known := becomes.known n o before
        rw [found] at known
        unfold Deed.on at known
        split at known
        · cases o with
          | memory mem => exact absurd before (absent mem)
          | _ => cases known
        · cases known
          exact absurd before (absent mem)
  refine ⟨?_, fun mem found => LinearMemory.paged_create? (created mem found)⟩
  unfold World.contents
  split
  · next mem found => exact ⟨_, LinearMemory.contents_create? (created mem found)⟩
  · exact ⟨0, rfl⟩

/-- Only positions inside a memory are written. -/
theorem Puts.inside {i : Nat} {b : UInt8} (puts : m.Puts n i b) : i < (m.world.contents n).length := by
  obtain ⟨offset, bytes, -, within, reached, byte⟩ := puts
  obtain ⟨inside, -⟩ := List.getElem?_eq_some_iff.mp byte
  omega

end Machine

end HostEmbedding
