import HostEmbedding.Memory.Linear
import Mathlib.Data.List.Basic

/-!
# Memories as plain byte arrays

A linear memory stands for a plain array of bytes. Writing replaces the addressed bytes, and growing
adds zeros. A memory consists of whole pages, fewer than a page number can count, so no position in it
comes near the end of the address space.
-/

namespace HostEmbedding

/-! ## Byte arrays -/

def putBytes (old : List UInt8) (offset : Nat) (new : List UInt8) : List UInt8 :=
  old.take offset ++ (new ++ old.drop (offset + new.length))

section

variable {old new : List UInt8} {offset : Nat} (within : offset + new.length ≤ old.length)

include within

theorem length_putBytes : (putBytes old offset new).length = old.length := by
  unfold putBytes
  rw [List.length_append, List.length_append, List.length_take, List.length_drop,
    Nat.min_eq_left (by omega)]
  omega

/-- An addressed byte is the new one, and every other byte is the old one. -/
theorem getElem?_putBytes (i : Nat) : (putBytes old offset new)[i]? =
    if offset ≤ i ∧ i < offset + new.length then new[i - offset]? else old[i]? := by
  have taken : (old.take offset).length = offset := by
    rw [List.length_take, Nat.min_eq_left (by omega)]
  unfold putBytes
  by_cases before : i < offset
  · rw [if_neg (by omega), List.getElem?_append_left (by omega), List.getElem?_take, if_pos before]
  · rw [List.getElem?_append_right (by omega), taken]
    by_cases inside : i < offset + new.length
    · rw [if_pos ⟨by omega, inside⟩, List.getElem?_append_left (by omega)]
    · rw [if_neg (by omega), List.getElem?_append_right (by omega), List.getElem?_drop]
      congr 1
      omega

end

namespace Runs

/-- A sequence that is repeated. -/
theorem expand_times (n : Nat) (rs : Runs) :
    (times n rs).expand = (List.replicate n rs.expand).flatten := by
  induction n with
  | zero => rfl
  | succ n ih =>
      show (append rs (times n rs)).expand = _
      rw [expand_append, ih, List.replicate_succ, List.flatten_cons]

end Runs

/-- The native limits of a type, with the greatest page number for an absent maximum. -/
theorem MemoryType.toLimits?_eq_some (t : MemoryType) {l : Limits} (native : t.toLimits? = some l) :
    l.min = t.minimum ∧ l.max = t.maximum.getD Limits.unbounded := by
  unfold toLimits? at native
  dsimp only at native
  split at native
  · cases native
  · cases native
    exact ⟨rfl, rfl⟩

namespace LinearMemory

variable {m m' : LinearMemory} {offset : Nat} {data : Runs} {delta : UInt32}

/-! ## What a memory stands for -/

def contents (m : LinearMemory) : List UInt8 := m.bytes.expand

/-- A memory consists of whole pages, and its number of pages is a page number. -/
def Paged (m : LinearMemory) : Prop := ∃ p < UInt32.size, m.contents.length = p * pageSize

theorem length_contents (m : LinearMemory) : m.contents.length = m.dataSize := Runs.length_expand _

theorem Paged.dataSize_eq (paged : m.Paged) : m.dataSize = m.pages.toNat * pageSize := by
  obtain ⟨p, few, length⟩ := paged
  have whole : m.dataSize / pageSize = p := by
    rw [← length_contents, length]
    exact Nat.mul_div_cancel p (by decide)
  have pages : m.pages.toNat = p := by
    unfold LinearMemory.pages
    rw [whole]
    exact Nat.mod_eq_of_lt few
  rw [pages, ← length_contents, length]

/-- The end of an access decides whether it is in bounds. -/
theorem Paged.inBounds_iff (paged : m.Paged) (offset len : Nat) :
    m.InBounds offset len ↔ offset + len ≤ m.contents.length := by
  have whole := paged.dataSize_eq
  have few : m.pages.toNat < 4294967296 := m.pages.toNat_lt
  have space : addressSpace = 18446744073709551616 := rfl
  have page : pageSize = 65536 := rfl
  rw [page] at whole
  unfold InBounds
  rw [length_contents]
  omega

/-! ## Operations -/

theorem limits_create? {cap : UInt32} {limits : Limits} (created : create? cap limits = some m) :
    m.limits = limits ∧ m.cap = cap := by
  unfold create? at created
  split at created
  · cases created
  · cases created
    exact ⟨rfl, rfl⟩

theorem contents_create? {cap : UInt32} {limits : Limits} (created : create? cap limits = some m) :
    m.contents = List.replicate (limits.min.toNat * pageSize) 0 := by
  unfold create? at created
  split at created
  · cases created
  · cases created
    exact Runs.expand_replicate _ _

theorem paged_create? {cap : UInt32} {limits : Limits} (created : create? cap limits = some m) :
    m.Paged := by
  refine ⟨limits.min.toNat, limits.min.toNat_lt, ?_⟩
  rw [contents_create? created, List.length_replicate]

theorem contents_overwrite (m : LinearMemory) (offset : Nat) (data : Runs) :
    (m.overwrite offset data).contents = putBytes m.contents offset data.expand := by
  show (Runs.splice m.bytes offset data).expand = _
  rw [Runs.expand_splice, ← Runs.length_expand data]
  rfl

theorem Paged.overwrite (paged : m.Paged) (within : offset + data.expand.length ≤ m.contents.length) :
    (m.overwrite offset data).Paged := by
  obtain ⟨p, few, length⟩ := paged
  refine ⟨p, few, ?_⟩
  rw [contents_overwrite, length_putBytes within, length]

/-- Growth is granted as long as the pages stay below the maximum. -/
theorem grow?_isSome (m : LinearMemory) (delta : UInt32) :
    (m.grow? delta).isSome ↔ m.pages.toNat + delta.toNat ≤ m.maxPages.toNat := by
  have few : m.maxPages.toNat < UInt32.size := m.maxPages.toNat_lt
  unfold grow?
  dsimp only
  split
  · next room => exact ⟨fun _ => room.2, fun _ => rfl⟩
  · next full => exact ⟨nofun, fun room => absurd ⟨Nat.lt_of_le_of_lt room few, room⟩ full⟩

/-- A memory that grows keeps its bytes and gets zeros after them. -/
theorem Paged.contents_grow? (paged : m.Paged) (grown : m.grow? delta = some m') :
    m'.contents = m.contents ++ List.replicate (delta.toNat * pageSize) 0 := by
  unfold grow? at grown
  dsimp only at grown
  split at grown
  · cases grown
    show (Runs.append _ _).expand = _
    rw [Runs.expand_append, Runs.expand_replicate, paged.dataSize_eq, Nat.add_mul,
      Nat.add_sub_cancel_left]
    rfl
  · cases grown

theorem Paged.grow? (paged : m.Paged) (grown : m.grow? delta = some m') : m'.Paged := by
  have room := (m.grow?_isSome delta).mp (Option.isSome_of_mem grown)
  have few : m.maxPages.toNat < UInt32.size := m.maxPages.toNat_lt
  refine ⟨m.pages.toNat + delta.toNat, by omega, ?_⟩
  rw [paged.contents_grow? grown, List.length_append, List.length_replicate, length_contents,
    paged.dataSize_eq, Nat.add_mul]

/-- A memory that grows has exactly the pages more that were asked for. -/
theorem Paged.pages_grow? (paged : m.Paged) (grown : m.grow? delta = some m') :
    m'.pages.toNat = m.pages.toNat + delta.toNat := by
  have before := paged.dataSize_eq
  have after := (paged.grow? grown).dataSize_eq
  rw [← length_contents, paged.contents_grow? grown, List.length_append, List.length_replicate,
    length_contents, before, ← Nat.add_mul] at after
  exact (Nat.eq_of_mul_eq_mul_right (by decide) after).symm

/-- Nothing but the bytes of a memory changes when it grows. -/
theorem limits_grow? (grown : m.grow? delta = some m') : m'.limits = m.limits ∧ m'.cap = m.cap := by
  unfold LinearMemory.grow? at grown
  dsimp only at grown
  split at grown
  · cases grown
    exact ⟨rfl, rfl⟩
  · cases grown

/-- What is read is the addressed part of the bytes. -/
theorem Paged.read? (paged : m.Paged) (offset len : Nat) : m.read? offset len =
    if offset + len ≤ m.contents.length then some (m.bytes.slice offset len) else none := by
  unfold LinearMemory.read?
  simp only [paged.inBounds_iff]

theorem Paged.write? (paged : m.Paged) (offset : Nat) (data : Runs) : m.write? offset data =
    if offset + data.expand.length ≤ m.contents.length then some (m.overwrite offset data) else none := by
  unfold LinearMemory.write?
  simp only [paged.inBounds_iff, Runs.length_expand]

end LinearMemory

end HostEmbedding
