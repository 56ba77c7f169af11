import HostEmbedding.Proofs.Views.Locks

/-!
# What handles denote

The native object of a handle decides what the handle denotes: the store, the owning handle and the access
lock of a handle all follow from it.
-/

namespace HostEmbedding

/-- The kind of extern that a handle is used as, if it is not a plain view. -/
def HandleState.kind? : HandleState → Option ExternKind
  | .memory _ => some .memory
  | .func _ => some .func
  | .view | .interrupt => none

theorem Native.externKind?_shape (o : Native) : o.shape.externKind? = o.externKind? := by
  cases o <;> rfl

/-- Native objects of one shape that are not functions or memories have no kind, so the kind of an extern
is known from its shape. -/
def Shapes.kind? (Γ : Shapes) (n : NativeId) : Option ExternKind := (Γ.native? n).bind Native.externKind?

namespace World

variable {w : World} {held : List ObjId} {moving : List NativeId} {original id : ObjId} {h k : Handle}

/-! ## What a handle denotes -/

/-- A live handle denotes what another handle, which may be dead by now, was used as: the same native object
in the same store, kept alive by the same owning handle, which is not a view, and under the same lock. -/
structure Denotes (w : World) (original : ObjId) (h : Handle) (id : ObjId) (k : Handle) : Prop where
  native : k.native = h.native
  store : k.store = h.store
  owner : ownerOf id k = ownerOf original h
  owning : ∃ o, w.handle? (ownerOf id k) = some o ∧ o.owner = none ∧ o.native = h.native
  lock : ∀ lock, k.state = .memory lock ∨ h.state = .memory lock →
    w.sharedLock? (ownerOf id k) = some lock

/-- What a handle is used as is the kind of its native object. -/
theorem Balanced.kind_of_state (bal : w.Balanced held moving) (known : w.shapes.IsHandle id h)
    {kind : ExternKind} (state : h.state.kind? = some kind) : w.shapes.kind? h.native = some kind := by
  obtain ⟨n, entry⟩ := isHandle_iff.mp known
  have fits : h.Fits w.shapes := bal.objects entry
  obtain ⟨s, -, fits⟩ := fits.state
  unfold Shapes.kind?
  cases form : h.state with
  | memory lock =>
      rw [form] at fits state
      obtain ⟨limits, cap, native⟩ := fits
      rw [native]
      exact state
  | func env =>
      rw [form] at fits state
      obtain ⟨e, type, native, -⟩ := fits
      rw [native]
      exact state
  | view | interrupt =>
      rw [form] at state
      cases state

/-- The owning handle of a live handle. -/
theorem Balanced.live_owner (bal : w.Balanced held moving) (found : w.handle? id = some k) :
    ∃ o, w.handle? (ownerOf id k) = some o ∧ o.owner = none ∧ o.native = k.native ∧ o.store = k.store := by
  obtain ⟨o, known, owner, native, store⟩ := bal.owner_known (handle?_eq_some.mp found).1
  exact ⟨o, handle?_eq_some.mpr ⟨known, (bal.keeps_alive found).2⟩, owner, native, store⟩

/-- Handles on one native object have one owning handle and one store. -/
theorem Balanced.same_owner (bal : w.Balanced held moving) (first : w.shapes.IsHandle original h)
    (second : w.shapes.IsHandle id k) (native : k.native = h.native) :
    ownerOf id k = ownerOf original h ∧ k.store = h.store := by
  obtain ⟨o, known, owner, same, store⟩ := bal.owner_known first
  obtain ⟨p, known', owner', same', store'⟩ := bal.owner_known second
  obtain ⟨address, rfl⟩ := bal.owner_unique (isOwner_iff.mpr ⟨known, owner, same⟩)
    (isOwner_iff.mpr ⟨known', owner', same'.trans native⟩)
  exact ⟨address, store'.symm.trans store⟩

/-- The owning handle of a memory has the lock of every handle that is used as that memory. -/
theorem LocksShared.owner_lock (shared : w.LocksShared) (known : w.shapes.IsHandle id k) {lock : Nat}
    (state : k.state = .memory lock) :
    ∃ o, w.shapes.IsHandle (ownerOf id k) o ∧ o.state = .memory lock := by
  unfold ownerOf
  cases owner : k.owner with
  | none => exact ⟨k, known, state⟩
  | some o => exact shared id k lock o known state owner

theorem sharedLock?_eq_some {lock : Nat} (found : w.handle? id = some k) (state : k.state = .memory lock) :
    w.sharedLock? id = some lock := by
  obtain ⟨n, s, owner, kind⟩ := k
  cases state
  unfold sharedLock?
  rw [found]

/-- The native object of a handle is all that decides what the handle denotes. -/
theorem Balanced.denotes (bal : w.Balanced held moving) (shared : w.LocksShared)
    (first : w.shapes.IsHandle original h) (found : w.handle? id = some k) (native : k.native = h.native) :
    w.Denotes original h id k := by
  have known := (handle?_eq_some.mp found).1
  obtain ⟨owner, store⟩ := bal.same_owner first known native
  obtain ⟨o, live, owning, same, -⟩ := bal.live_owner found
  have isOwner := (handle?_eq_some.mp live).1
  have owns {p : Handle} (other : w.shapes.IsHandle (ownerOf original h) p) : p = o := by
    rw [← owner] at other
    exact Object.handle.inj (Option.some.inj (other.symm.trans isOwner))
  refine ⟨native, store, owner, ⟨o, live, owning, same.trans native⟩, ?_⟩
  rintro lock (state | state)
  · obtain ⟨p, other, locked⟩ := shared.owner_lock known state
    rw [owner] at other
    rw [owns other] at locked
    exact sharedLock?_eq_some live locked
  · obtain ⟨p, other, locked⟩ := shared.owner_lock first state
    rw [owns other] at locked
    exact sharedLock?_eq_some live locked

/-! ## Kinds -/

/-- The native object of a live handle is there, with its kind. -/
theorem Balanced.live_kind (bal : w.Balanced held moving) (found : w.handle? id = some k)
    {kind : ExternKind} (known : w.shapes.kind? k.native = some kind) :
    ∃ o, w.native? k.native = some o ∧ o.externKind? = some kind := by
  obtain ⟨o, object, -⟩ := bal.handle_native (handle?_eq_some.mp found).1
  have live : w.native? k.native = some o := by
    rw [native?_eq, if_pos (bal.handle_live found)]
    exact object
  unfold Shapes.kind? at known
  rw [shapes_of_native? live, Option.bind_some, Native.externKind?_shape] at known
  exact ⟨o, live, known⟩

/-- The native object of a live memory, which shares the lock of its owner. -/
theorem Balanced.live_memory (bal : w.Balanced held moving) (found : w.handle? id = some k)
    (known : w.shapes.kind? k.native = some .memory) :
    ∃ mem lock, w.nativeMemory? k.native = some mem ∧ w.nativeFunc? k.native = none ∧
      w.sharedLock? (ownerOf id k) = some lock := by
  obtain ⟨o, live, kind⟩ := bal.live_kind found known
  obtain ⟨p, owner, owning, same, -⟩ := bal.live_owner found
  cases o with
  | memory mem =>
      have isOwner := (handle?_eq_some.mp owner).1
      have object : w.nativeObject? p.native = some (.memory mem) := by
        rw [same]
        exact nativeObject?_of_native? live
      have viewless := bal.owner_viewless isOwner owning
      have suits := (bal.handle_suits isOwner object viewless).1
      refine ⟨mem, ?_⟩
      cases state : p.state with
      | memory lock =>
          refine ⟨lock, nativeMemory?_eq_some.mpr live, ?_, sharedLock?_eq_some owner state⟩
          unfold nativeFunc?
          rw [live]
      | view => exact absurd state viewless
      | func | interrupt =>
          rw [state] at suits
          exact suits.elim
  | _ => cases kind

/-- The native object of a live function. -/
theorem Balanced.live_func (bal : w.Balanced held moving) (found : w.handle? id = some k)
    (known : w.shapes.kind? k.native = some .func) :
    ∃ f, w.nativeFunc? k.native = some f ∧ w.nativeMemory? k.native = none := by
  obtain ⟨o, live, kind⟩ := bal.live_kind found known
  cases o with
  | func f =>
      refine ⟨f, nativeFunc?_eq_some.mpr live, ?_⟩
      unfold nativeMemory?
      rw [live]
  | _ => cases kind

end World

end HostEmbedding
