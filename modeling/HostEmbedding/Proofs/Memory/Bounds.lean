import HostEmbedding.Proofs.Machine.Running
import HostEmbedding.Proofs.Memory.Changes
import HostEmbedding.Proofs.Ownership.Openings

/-!
# Memories of a type

A memory keeps the limits of the type that it was made with and the page cap of its store. Its size stays
between the minimum and whatever is smaller of the maximum and the cap, and it never gets smaller.
-/

namespace HostEmbedding

/-- The greatest number of pages of a memory of a type under a page cap. -/
def MemoryType.mostPages (t : MemoryType) (cap : UInt32) : Nat :=
  match t.maximum with
  | none => cap.toNat
  | some max => Nat.min max.toNat cap.toNat

namespace LinearMemory

variable {m m' : LinearMemory} {type : MemoryType} {cap : UInt32} {n : NativeId} {delta : UInt32}

theorem maxPages_eq (m : LinearMemory) : m.maxPages.toNat = Nat.min m.limits.max.toNat m.cap.toNat := by
  unfold maxPages
  split
  · next less => exact (Nat.min_eq_right (Nat.le_of_lt (UInt32.lt_iff_toNat_lt.mp less))).symm
  · next not => exact (Nat.min_eq_left (UInt32.le_iff_toNat_le.mp (UInt32.not_lt.mp not))).symm

structure OfType (type : MemoryType) (cap : UInt32) (m : LinearMemory) : Prop where
  limits : type.toLimits? = some m.limits
  capped : m.cap = cap
  paged : m.Paged
  least : type.minimum.toNat ≤ m.pages.toNat
  most : m.pages.toNat ≤ type.mostPages cap

/-- The number of pages is determined by the number of bytes. -/
theorem Paged.pages_eq (paged : m.Paged) {p : Nat} (length : m.contents.length = p * pageSize) :
    m.pages.toNat = p := by
  rw [length_contents, paged.dataSize_eq] at length
  exact Nat.eq_of_mul_eq_mul_right (by decide) length

/-- A new memory has the minimum of its type as its size. -/
theorem OfType.fresh (fits : type.Fits cap) : (fresh cap type).OfType type cap := by
  have bounded := LinearMemory.create?_toLimits cap type
  rcases bounded with ⟨made, -⟩ | ⟨-, unfit⟩
  case inr => exact absurd fits unfit
  obtain ⟨limits, toLimits, created⟩ := Option.bind_eq_some_iff.mp made
  have kept := (limits_create? created).1
  have paged := paged_create? created
  have pages : (LinearMemory.fresh cap type).pages.toNat = type.minimum.toNat := by
    refine paged.pages_eq ?_
    show (Runs.replicate (type.minimum.toNat * pageSize) 0).expand.length = _
    rw [Runs.expand_replicate, List.length_replicate]
  refine ⟨by rw [kept]; exact toLimits, rfl, paged, Nat.le_of_eq pages.symm, ?_⟩
  rw [pages]
  have capped := UInt32.le_iff_toNat_le.mp fits.2
  unfold MemoryType.mostPages
  cases maximum : type.maximum with
  | none => exact capped
  | some max => exact Nat.le_min.mpr ⟨UInt32.le_iff_toNat_le.mp (fits.1 max maximum), capped⟩

namespace OfType

variable (ofType : m.OfType type cap)
include ofType

/-- The absent maximum is the greatest page number, which no cap exceeds. -/
theorem maxPages_eq : m.maxPages.toNat = type.mostPages cap := by
  obtain ⟨-, most⟩ := type.toLimits?_eq_some ofType.limits
  rw [m.maxPages_eq, most, ofType.capped]
  unfold MemoryType.mostPages
  cases type.maximum with
  | none => exact Nat.min_eq_right (Nat.le_of_lt_succ cap.toNat_lt)
  | some max => rfl

/-- Growth is granted as long as there is room. -/
theorem grow?_isSome (delta : UInt32) :
    (m.grow? delta).isSome ↔ m.pages.toNat + delta.toNat ≤ type.mostPages cap := by
  rw [m.grow?_isSome, ofType.maxPages_eq]

theorem grow? (grown : m.grow? delta = some m') : m'.OfType type cap := by
  obtain ⟨limits, capped⟩ := limits_grow? grown
  have pages := ofType.paged.pages_grow? grown
  have room := (ofType.grow?_isSome delta).mp (Option.isSome_of_mem grown)
  have least := ofType.least
  refine ⟨by rw [limits]; exact ofType.limits, capped.trans ofType.capped, ofType.paged.grow? grown, ?_, ?_⟩
  · omega
  · omega

theorem overwrite {offset : Nat} {data : Runs} (within : offset + data.expand.length ≤ m.contents.length) :
    (m.overwrite offset data).OfType type cap ∧ (m.overwrite offset data).pages = m.pages := by
  have paged := ofType.paged.overwrite within
  have pages : (m.overwrite offset data).pages.toNat = m.pages.toNat := by
    refine paged.pages_eq ?_
    rw [contents_overwrite, length_putBytes within, length_contents, ofType.paged.dataSize_eq]
  refine ⟨⟨ofType.limits, ofType.capped, paged, ?_, ?_⟩, UInt32.toNat_inj.mp pages⟩
  · rw [pages]
    exact ofType.least
  · rw [pages]
    exact ofType.most

/-- A memory keeps its type and does not get smaller, unless its data pointer is used. -/
theorem onMemory {d : Deed} (careful : ∀ n offset data, d ≠ .poke n offset data) :
    (d.onMemory m).OfType type cap ∧ m.pages.toNat ≤ (d.onMemory m).pages.toNat := by
  cases d with
  | grow n delta =>
      show ((m.grow? delta).getD m).OfType type cap ∧ m.pages.toNat ≤ ((m.grow? delta).getD m).pages.toNat
      cases grown : m.grow? delta with
      | none => exact ⟨ofType, Nat.le_refl _⟩
      | some m' =>
          refine ⟨ofType.grow? grown, ?_⟩
          show m.pages.toNat ≤ m'.pages.toNat
          rw [ofType.paged.pages_grow? grown]
          exact Nat.le_add_right _ _
  | write n offset data =>
      show ((m.write? offset data).getD m).OfType type cap ∧
        m.pages.toNat ≤ ((m.write? offset data).getD m).pages.toNat
      rw [ofType.paged.write?]
      split
      · next within =>
          obtain ⟨kept, same⟩ := ofType.overwrite within
          exact ⟨kept, Nat.le_of_eq (congrArg UInt32.toNat same.symm)⟩
      · exact ⟨ofType, Nat.le_refl _⟩
  | poke n offset data => exact absurd rfl (careful n offset data)
  | _ => exact ⟨ofType, Nat.le_refl _⟩

end OfType

end LinearMemory

namespace Machine

variable {m : Machine} {n : NativeId} {type : MemoryType} {cap : UInt32} {mem : LinearMemory} {s : ObjId}

/-! ## Public runs -/

/-- A step that begins is public. -/
theorem AtStep.isPublic (coherent : m.Coherent) {g : Guard} {st : Step} (begins : m.AtStep g st) :
    st.isPublic = true := by
  obtain ⟨outer, index, rest, below, stack⟩ := begins.stack
  obtain ⟨_, _, steps, _, stack', isPublic⟩ := coherent.block begins.control
  cases stack.symm.trans stack'
  exact (Block.isPublic_cons isPublic).1

theorem Coherent.not_poke (coherent : m.Coherent) (n : NativeId) (offset : Nat) (data : HostEmbedding.Runs) :
    m.deed ≠ .poke n offset data := by
  intro deed
  obtain ⟨g, name, p, mem, begins, -⟩ := pokes_of_deed deed
  cases begins.isPublic coherent

/-- A transition keeps a memory of a type, and makes it no smaller. -/
theorem Coherent.ofType_step (coherent : m.Coherent) (found : m.world.nativeObject? n = some (.memory mem))
    (ofType : mem.OfType type cap) : ∃ mem', m.step.world.nativeObject? n = some (.memory mem') ∧
      mem'.OfType type cap ∧ mem.pages.toNat ≤ mem'.pages.toNat := by
  refine ⟨_, memory_step found, ?_⟩
  split
  · exact ofType.onMemory fun k offset data => coherent.not_poke k offset data
  · exact ⟨ofType, Nat.le_refl _⟩

/-- On the run of a public script a memory stays a memory of its type, and never gets smaller. -/
theorem ofType_later {level : Option LogLevel} {script : Block} (isPublic : Block.isPublic script = true)
    {i : Nat} (found : (after level script i).world.nativeObject? n = some (.memory mem))
    (ofType : mem.OfType type cap) (d : Nat) :
    ∃ mem', (after level script (i + d)).world.nativeObject? n = some (.memory mem') ∧
      mem'.OfType type cap ∧ mem.pages.toNat ≤ mem'.pages.toNat := by
  induction d with
  | zero => exact ⟨mem, found, ofType, Nat.le_refl _⟩
  | succ d ih =>
      obtain ⟨mem', found', ofType', grown⟩ := ih
      obtain ⟨mem'', found'', ofType'', grown'⟩ :=
        (coherent_after level isPublic (i + d)).ofType_step found' ofType'
      rw [← after_succ] at found''
      exact ⟨mem'', found'', ofType'', Nat.le_trans grown grown'⟩

end Machine

end HostEmbedding
