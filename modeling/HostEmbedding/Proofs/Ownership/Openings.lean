import HostEmbedding.Proofs.Call.Callable
import HostEmbedding.Proofs.Ownership.FlushEffect

/-!
# What is made in a flushed store

Interrupt handles, memories and functions are made in two stages: their store is flushed, and then a native
object and its owning handle are made. The second stage is described here on its own. It takes nothing from
the queues of the store, and only a memory can be refused.
-/

namespace HostEmbedding

/-- A store with a page cap has room for memories of a type: the minimum is at most the maximum, if there is
one, and at most the cap. -/
def MemoryType.Fits (t : MemoryType) (cap : UInt32) : Prop :=
  (∀ max, t.maximum = some max → t.minimum ≤ max) ∧ t.minimum ≤ cap

/-- A new memory of a type: its limits, with the greatest page number for an absent maximum, and zeros. -/
def LinearMemory.fresh (cap : UInt32) (t : MemoryType) : LinearMemory :=
  ⟨⟨t.minimum, t.maximum.getD Limits.unbounded⟩, cap, Runs.replicate (t.minimum.toNat * pageSize) 0⟩

/-- A type has native limits and a memory of these limits is created exactly when the type fits. -/
theorem LinearMemory.create?_toLimits (cap : UInt32) (t : MemoryType) :
    (t.toLimits?.bind (create? cap) = some (fresh cap t) ∧ t.Fits cap) ∨
      (t.toLimits?.bind (create? cap) = none ∧ ¬ t.Fits cap) := by
  have bounded : t.maximum.getD Limits.unbounded < t.minimum ↔
      ¬ ∀ max, t.maximum = some max → t.minimum ≤ max := by
    cases t.maximum with
    | none =>
        have top : t.minimum ≤ Limits.unbounded :=
          UInt32.le_iff_toNat_le.mpr (Nat.le_of_lt_succ t.minimum.toNat_lt)
        simp [UInt32.not_lt.mpr top]
    | some max => simp
  unfold MemoryType.toLimits? MemoryType.Fits
  dsimp only
  by_cases high : t.maximum.getD Limits.unbounded < t.minimum
  · rw [if_pos high]
    exact .inr ⟨rfl, fun fits => bounded.mp high fits.1⟩
  · have low := not_not.mp (mt bounded.mpr high)
    rw [if_neg high, Option.bind_some]
    unfold create?
    dsimp only
    by_cases beyond : cap < t.minimum
    · rw [if_pos beyond]
      exact .inr ⟨rfl, fun fits => UInt32.not_le.mpr beyond fits.2⟩
    · rw [if_neg beyond]
      exact .inl ⟨rfl, low, UInt32.not_lt.mp beyond⟩

namespace World

variable {w : World} {held : List ObjId} {s : ObjId} {n : NativeId}

def openInterrupt (w : World) (store : ObjId) (native : NativeId) : ObjId × World :=
  let (n, w) := w.allocNative (.interrupt native)
  w.acquire n store .interrupt

/-- Make a memory of a type in a store; it gets an access lock of its own. -/
def openMemory (w : World) (store : ObjId) (type : MemoryType) (mem : LinearMemory) : ObjId × World :=
  let (n, w) := w.allocNative (.memory mem)
  let w := w.logAbout n (.createdMemory type)
  { w with locks := w.locks + 1 }.acquire n store (.memory w.locks)

/-- Make a function in a store, with an environment that it shares with its handle. -/
def openFunc (w : World) (store : ObjId) (native : NativeId) (code : HostCode) (captures : Scope) :
    ObjId × World :=
  let type := code.shape.funcType
  let (closure, w) := w.alloc (.closure code captures) 1
  let (env, w) := w.alloc (.env (some closure) type store) 2
  let (n, w) := w.allocNative (.func ⟨native, type.toNative, .host env⟩)
  (w.logAbout n (.registered type)).acquire n store (.func (some env))

/-- The native side of a live store obeys the configuration of the store. -/
theorem Balanced.store_config {moving : List NativeId} (bal : w.Balanced held moving)
    (isStore : w.shapes.IsStore s n) (alive : w.strong s ≠ 0) :
    ∃ st, w.nativeStore? n = some st ∧ st.config = w.storeConfig s := by
  obtain ⟨st, found⟩ := bal.store_live isStore alive
  obtain ⟨k, config, p, entry⟩ := isStore_iff.mp isStore
  obtain ⟨native, -⟩ : Object.Fits w.shapes s (.store n config p) := bal.objects entry
  have object := nativeObject?_of_nativeStore? found
  have shape : w.shapes.native? n = some (Native.store st).shape := by simp [World.shapes, object]
  have same : (Native.store st).shape = .store ⟨config, false, 0⟩ := Option.some.inj (shape.symm.trans native)
  refine ⟨st, found, ?_⟩
  unfold storeConfig
  rw [entry]
  cases same
  rfl

theorem storeConfig_of_known {config : Config} (known : w.shapes.object? s = some (.store n config {})) :
    w.storeConfig s = config := by
  obtain ⟨⟨k, o⟩, entry, shape⟩ := shapes_object?.mp known
  obtain ⟨-, q, rfl⟩ := Object.shape_eq_store.mp shape
  unfold storeConfig
  rw [entry]

theorem storeConfig_of_shapes {v : World} (shapes : v.shapes = w.shapes) (isStore : w.shapes.IsStore s n) :
    v.storeConfig s = w.storeConfig s := by
  obtain ⟨config, known⟩ := isStore
  rw [storeConfig_of_known known, storeConfig_of_known (w := v) (by rw [shapes]; exact known)]

section

variable (sound : w.Sound held) (isStore : w.shapes.IsStore s n)
include sound isStore

theorem Sound.createInterrupt_eq : w.createInterrupt s =
    (some ((w.flush s).openInterrupt s n).1, ((w.flush s).openInterrupt s n).2) := by
  have still : (w.flush s).storeNative? s = some n := by
    rw [storeNative?_eq_some, (drains_flush w s).shapes]
    exact isStore
  unfold World.createInterrupt
  dsimp only
  rw [guard_eq (sound.flush isStore).finalizing, still]
  rfl

/-- A function is made from captures that are counted before the store is flushed. -/
theorem Sound.register_eq (code : HostCode) (captures : Scope) : w.register s code captures =
    (some ((w.flush s).openFunc s n code captures).1, ((w.flush s).openFunc s n code captures).2) := by
  let inner := (w.flush s).alloc (.closure code captures) 1
  let outer := inner.2.alloc (.env (some inner.1) code.shape.funcType s) 2
  have grows : w.shapes.Grows outer.2.shapes :=
    ((drains_flush w s).evolves.shapes.trans (shapes_alloc _ _ _)).trans (shapes_alloc _ _ _)
  have still : outer.2.storeNative? s = some n := storeNative?_eq_some.mpr (isStore.mono grows)
  have quiet : outer.2.thread.finalizing = 0 := (sound.flush isStore).finalizing
  unfold World.register
  dsimp only
  rw [still, guard_eq quiet]
  rfl

/-- A memory is made if its type fits the page cap of the store; otherwise the type is given back, and
nothing but the flush has been done. -/
theorem Sound.createMemory_eq (alive : w.strong s ≠ 0) (type : MemoryType) :
    (type.Fits (w.storeConfig s).maxMemoryPages ∧ w.createMemory s type =
      (.ok ((w.flush s).openMemory s type (.fresh (w.storeConfig s).maxMemoryPages type)).1,
        ((w.flush s).openMemory s type (.fresh (w.storeConfig s).maxMemoryPages type)).2)) ∨
    (¬ type.Fits (w.storeConfig s).maxMemoryPages ∧
      w.createMemory s type = (.error (.invalidMemoryType type), w.flush s)) := by
  have flushed := sound.flush isStore
  have shapes := (drains_flush w s).shapes
  have isStore' : (w.flush s).shapes.IsStore s n := by rw [shapes]; exact isStore
  have still : (w.flush s).storeNative? s = some n := storeNative?_eq_some.mpr isStore'
  have alive' : (w.flush s).strong s ≠ 0 := by rw [(sound.flushed isStore).kept]; exact alive
  obtain ⟨st, native, config⟩ := flushed.store_config isStore' alive'
  rw [storeConfig_of_shapes shapes isStore] at config
  unfold World.createMemory
  dsimp only
  rw [still, guard_eq flushed.finalizing]
  rcases LinearMemory.create?_toLimits (w.storeConfig s).maxMemoryPages type with ⟨made, fits⟩ | ⟨none, unfit⟩
  · obtain ⟨limits, bounded, made⟩ := Option.bind_eq_some_iff.mp made
    rw [bounded]
    dsimp only
    unfold createNativeMemory
    rw [native, Option.bind_some, config, made]
    exact .inl ⟨fits, rfl⟩
  · refine .inr ⟨unfit, ?_⟩
    cases bounded : type.toLimits? with
    | none => rfl
    | some limits =>
        rw [bounded, Option.bind_some] at none
        dsimp only
        unfold createNativeMemory
        rw [native, Option.bind_some, config, none]

end

end World

end HostEmbedding
