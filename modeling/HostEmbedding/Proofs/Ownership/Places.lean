import HostEmbedding.Proofs.Ownership.Views

/-!
# The place of a native object

Every memory, function and interrupt handle was made for one owning handle. While that handle lives
it claims the object; afterwards the object stands in one queue of the store and kind of that handle,
until a flush deletes it.
-/

namespace HostEmbedding

def Native.isHandled : Native → Bool
  | .memory _ => true
  | .func _ => true
  | .interrupt _ => true
  | _ => false

def Native.home? : Native → Option NativeId
  | .func f => some f.store
  | .interrupt s => some s
  | _ => none

def HandleState.Suits : HandleState → Native → Prop
  | .memory _, .memory _ => True
  | .func _, .func _ => True
  | .interrupt, .interrupt _ => True
  | .view, _ => True
  | _, _ => False

theorem HandleState.erase_eq_view {s : HandleState} : s.erase = .view ↔ s = .view := by
  cases s <;> simp [HandleState.erase]

theorem Pending.ofKind_erase (p : Pending) {a b : HandleState} (same : a.erase = b.erase) :
    p.ofKind a = p.ofKind b := by
  cases a <;> cases b <;> first | rfl | cases same

theorem Pending.mem_inOrder {p : Pending} {n : NativeId} :
    n ∈ p.inOrder ↔ ∃ kind, n ∈ p.ofKind kind := by
  simp only [inOrder, List.mem_append]
  constructor
  · rintro (((mem | mem) | mem) | mem)
    · exact ⟨.memory 0, mem⟩
    · exact ⟨.view, mem⟩
    · exact ⟨.interrupt, mem⟩
    · exact ⟨.func none, mem⟩
  · rintro ⟨kind, mem⟩
    cases kind with
    | memory lock => exact .inl (.inl (.inl mem))
    | view => exact .inl (.inl (.inr mem))
    | interrupt => exact .inl (.inr mem)
    | func env => exact .inr mem

namespace World

variable {w : World} {held : List ObjId} {moving : List NativeId} {n : NativeId}

/-- The handle, dead or alive, that a native object was made for. -/
def IsOwner (w : World) (n : NativeId) (id : ObjId) (h : Handle) : Prop :=
  (∃ k, w.entry? id = some ⟨k, .handle h⟩) ∧ h.isOwning = true ∧ h.native = n

theorem isOwner_iff {id : ObjId} {h : Handle} :
    w.IsOwner n id h ↔ w.shapes.IsHandle id h ∧ h.owner = none ∧ h.native = n := by
  unfold IsOwner
  rw [isHandle_iff, Handle.isOwning, Option.isNone_iff_eq_none]

theorem IsOwner.claim {id : ObjId} {h : Handle} (owner : w.IsOwner n id h) :
    (Object.handle h).claim? = some n := by
  obtain ⟨-, owning, rfl⟩ := owner
  simp [Object.claim?, owning]

/-! ## The owner -/

/-- No native object is made for two handles. -/
theorem Balanced.owner_unique (bal : w.Balanced held moving) {i j : ObjId} {h k : Handle}
    (first : w.IsOwner n i h) (second : w.IsOwner n j k) : j = i ∧ k = h := by
  have known := (isOwner_iff.mp first).1
  have known' := (isOwner_iff.mp second).1
  obtain rfl := bal.claimsUnique known known' first.claim second.claim
  cases Option.some.inj (known.symm.trans known')
  exact ⟨rfl, rfl⟩

/-- Every memory, function and interrupt handle was made for a handle. -/
theorem Accounted.exists_owner (acc : w.Accounted held moving) {o : Native}
    (found : w.nativeObject? n = some o) (handled : o.isHandled = true) : ∃ id h, w.IsOwner n id h := by
  have shape : w.shapes.native? n = some o.shape := by simp [World.shapes, found]
  obtain ⟨i, p, known, claim⟩ := acc.claimsTotal shape
  obtain ⟨e, entry, rfl⟩ := shapes_object?.mp known
  rw [Object.claim?_shape] at claim
  obtain ⟨k, p⟩ := e
  cases p with
  | store native config pending =>
      cases claim
      obtain ⟨native, -⟩ : Object.Fits w.shapes i (.store n config pending) := acc.objects entry
      rw [shape] at native
      cases o <;> simp [Native.shape, Native.isHandled] at native handled
  | handle h =>
      unfold Object.claim? at claim
      dsimp only at claim
      split at claim
      · next owning =>
          cases claim
          exact ⟨i, h, ⟨k, entry⟩, owning, rfl⟩
      · cases claim
  | _ => cases claim

/-- A handle is of the kind of its native object, and in the store that the object names. -/
theorem Balanced.handle_suits (bal : w.Balanced held moving) {id : ObjId} {h : Handle} {o : Native}
    (known : w.shapes.IsHandle id h) (found : w.nativeObject? h.native = some o)
    (viewless : h.state ≠ .view) :
    h.state.Suits o ∧ o.isHandled = true ∧ ∀ s, o.home? = some s → w.storeNative? h.store = some s := by
  obtain ⟨k, entry⟩ := isHandle_iff.mp known
  have fits : h.Fits w.shapes := bal.objects entry
  have shape : w.shapes.native? h.native = some o.shape := by simp [World.shapes, found]
  obtain ⟨s, isStore, state⟩ := fits.state
  have native := storeNative?_eq_some.mpr isStore
  cases kind : h.state with
  | memory lock =>
      rw [kind] at state
      obtain ⟨limits, cap, memory⟩ := state
      rw [shape] at memory
      cases o with
      | memory m => exact ⟨trivial, rfl, fun s home => by cases home⟩
      | _ => cases memory
  | func env =>
      rw [kind] at state
      obtain ⟨e, type, func, -, -⟩ := state
      rw [shape] at func
      cases o with
      | func f =>
          cases func
          exact ⟨trivial, rfl, fun s home => by cases home; exact native⟩
      | _ => cases func
  | view => exact absurd kind viewless
  | interrupt =>
      rw [kind] at state
      have interrupt : w.shapes.native? h.native = some (.interrupt s) := state
      rw [shape] at interrupt
      cases o with
      | interrupt t =>
          cases interrupt
          exact ⟨trivial, rfl, fun s home => by cases home; exact native⟩
      | _ => cases interrupt

/-- An owning handle is not a view. -/
theorem Balanced.owner_viewless (bal : w.Balanced held moving) {id : ObjId} {h : Handle}
    (known : w.shapes.IsHandle id h) (owner : h.owner = none) : h.state ≠ .view := by
  intro kind
  obtain ⟨k, entry⟩ := isHandle_iff.mp known
  have fits : h.Fits w.shapes := bal.objects entry
  obtain ⟨s, -, state⟩ := fits.state
  rw [kind] at state
  have viewed : h.isOwning = false := state
  rw [Handle.isOwning, owner] at viewed
  cases viewed

/-- The native object of a handle is in the table, and is one that handles own. -/
theorem Balanced.handle_native (bal : w.Balanced held moving) {id : ObjId} {h : Handle}
    (known : w.shapes.IsHandle id h) :
    ∃ o, w.nativeObject? h.native = some o ∧ o.isHandled = true ∧ h.state.Suits o := by
  have found {i : ObjId} {k : Handle} (known : w.shapes.IsHandle i k) (viewless : k.state ≠ .view) :
      ∃ o, w.nativeObject? k.native = some o := by
    obtain ⟨n, entry⟩ := isHandle_iff.mp known
    have fits : k.Fits w.shapes := bal.objects entry
    obtain ⟨s, -, state⟩ := fits.state
    cases kind : k.state with
    | memory lock =>
        rw [kind] at state
        obtain ⟨limits, cap, native⟩ := state
        exact ⟨_, (nativeObject_of_shape native).choose_spec.1⟩
    | func env =>
        rw [kind] at state
        obtain ⟨e, type, native, -⟩ := state
        exact ⟨_, (nativeObject_of_shape native).choose_spec.1⟩
    | view => exact absurd kind viewless
    | interrupt =>
        rw [kind] at state
        exact ⟨_, (nativeObject_of_shape state).choose_spec.1⟩
  obtain ⟨k, known', owner, same, -⟩ := bal.owner_known known
  have viewless := bal.owner_viewless known' owner
  obtain ⟨o, object⟩ := found known' viewless
  have handled := (bal.handle_suits known' object viewless).2.1
  rw [same] at object
  by_cases kind : h.state = .view
  · exact ⟨o, object, handled, by rw [kind]; trivial⟩
  · exact ⟨o, object, handled, (bal.handle_suits known object kind).1⟩

/-- An object is claimed exactly as long as its owning handle lives. -/
theorem Balanced.mem_claimed_iff (bal : w.Balanced held moving) {id : ObjId} {h : Handle}
    (owner : w.IsOwner n id h) : n ∈ w.claimed ↔ w.strong id ≠ 0 := by
  have known := (isOwner_iff.mp owner).1
  constructor
  · intro mem
    obtain ⟨i, e, found, alive, claim⟩ := mem_claimed.mp mem
    have shape := shapes_of_entry found
    have claim' : e.object.shape.claim? = some n := by rw [Object.claim?_shape, claim]
    obtain rfl := bal.claimsUnique known shape owner.claim claim'
    rw [strong_eq found]
    exact alive
  · intro alive
    have claim := owner.claim
    obtain ⟨⟨k, entry⟩, -⟩ := owner
    rw [strong_eq entry] at alive
    exact mem_claimed.mpr ⟨id, _, entry, alive, claim⟩

/-! ## The place -/

/-- What is known is claimed, queued or deleted, in one way only. -/
theorem Balanced.place (bal : w.Balanced held []) (known : n.index < w.natives.size) :
    (n ∈ w.claimed ∧ n ∉ w.queued ∧ w.deletions n = 0) ∨
      (n ∉ w.claimed ∧ w.queued.count n = 1 ∧ w.deletions n = 0) ∨
      (n ∉ w.claimed ∧ n ∉ w.queued ∧ w.deletions n = 1) := by
  have place := bal.placed n
  rw [if_pos known, List.count_nil] at place
  rw [← List.count_eq_zero (a := n) (l := w.claimed), ← List.count_eq_zero (a := n) (l := w.queued),
    ← List.count_pos_iff]
  omega

/-- Whatever is queued in a store under a kind was made for a handle of that store and kind. -/
theorem Balanced.queued_owner (bal : w.Balanced held moving) {s : ObjId} {kind : HandleState}
    (mem : n ∈ (w.pending s).ofKind kind) :
    ∃ id h, w.IsOwner n id h ∧ h.store = s ∧ h.state.erase = kind.erase := by
  have fits : (w.pending s).Fits w.shapes s := by
    unfold World.pending
    split
    · next k native config p found =>
        have store : Object.Fits w.shapes s (.store native config p) := bal.objects found
        exact store.2
    · intro kind n mem
      cases kind <;> cases mem
  obtain ⟨id, h, known, owner, native, store, same⟩ := fits kind n mem
  exact ⟨id, h, isOwner_iff.mpr ⟨known, owner, native⟩, store, same⟩

/-- A reference to a live or dead object counts. -/
theorem Balanced.alive_of_mem_owned (bal : w.Balanced held moving) {id : ObjId} (mem : id ∈ w.owned) :
    w.strong id ≠ 0 := by
  have positive := List.count_pos_iff.mpr mem
  rw [bal.counted id]
  omega

/-- While a handle on an object lives, the owning handle of the object lives. -/
theorem Balanced.owner_alive (bal : w.Balanced held moving) {i id : ObjId} {h k : Handle}
    (owner : w.IsOwner h.native id k) (known : w.shapes.IsHandle i h) (alive : w.strong i ≠ 0) :
    w.strong id ≠ 0 := by
  obtain ⟨h', known', owning, native, -⟩ := bal.owner_known known
  obtain ⟨same, -⟩ := bal.owner_unique owner (isOwner_iff.mpr ⟨known', owning, native⟩)
  have kept := (bal.keeps_alive (handle?_eq_some.mpr ⟨known, alive⟩)).2
  rw [same] at kept
  exact kept

/-- No queue lists an object twice. -/
theorem Balanced.pending_nodup (bal : w.Balanced held []) (s : ObjId) :
    (w.pending s).inOrder.Nodup := by
  refine List.nodup_iff_count_le_one.mpr fun n => ?_
  have place := bal.placed n
  have within : (w.pending s).inOrder.count n ≤ w.queued.count n := by
    unfold World.pending
    split
    · next k native config p found =>
        obtain ⟨before, after, same⟩ := List.append_of_mem (List.mem_of_getElem? ((entry?_eq w s).symm.trans found))
        unfold queued gather
        rw [same, List.flatMap_append, List.flatMap_cons, List.count_append, List.count_append]
        show p.inOrder.count n ≤ _ + (p.inOrder.count n + _)
        omega
    · exact Nat.zero_le _
  split at place <;> omega

end World

end HostEmbedding
