import HostEmbedding.Proofs.Machine.Running
import HostEmbedding.Proofs.Ownership.Places

/-!
# The life of a native object

Every memory, function and interrupt handle is live with one owning handle, or queued once in its own
store, or deleted once. What is queued or deleted is referred to by nothing, so an operation on a
handle or a view always finds a live object.
-/

namespace HostEmbedding

namespace Machine

/-! ## The three conditions -/

/-- Something refers to a native object: a handle on it, owning or not, that is alive or that a
variable, a running call or a live object still names. -/
def Refers (m : Machine) (n : NativeId) : Prop :=
  ∃ id h k, World.entry? m.world id = some ⟨k, .handle h⟩ ∧ h.native = n ∧
    (k ≠ 0 ∨ id ∈ m.held ∨ id ∈ m.world.owned)

/-- A native object is live: one live handle owns it, and it stands in no queue. -/
def NativeLive (m : Machine) (n : NativeId) : Prop :=
  m.world.deletions n = 0 ∧ n ∉ m.world.queued ∧
    ∃! id, ∃ h, m.world.IsOwner n id h ∧ m.world.strong id ≠ 0

/-- A native object is queued once, in the store and under the kind of the handle it was made for, and
nothing refers to it. -/
def NativeQueued (m : Machine) (n : NativeId) : Prop :=
  m.world.deletions n = 0 ∧ m.world.queued.count n = 1 ∧
    (∃ id h, m.world.IsOwner n id h ∧ n ∈ (m.world.pending h.store).ofKind h.state) ∧ ¬ m.Refers n

/-- A native object is deleted once; it stands in no queue and nothing refers to it. -/
def NativeDeleted (m : Machine) (n : NativeId) : Prop :=
  m.world.deletions n = 1 ∧ n ∉ m.world.queued ∧ ¬ m.Refers n

/-- The store that a native object was made in. -/
def MadeIn (m : Machine) (n : NativeId) (s : ObjId) : Prop :=
  ∃ id h, m.world.IsOwner n id h ∧ h.store = s

/-- What holds of the native objects of a machine. -/
structure NativeLifecycle (m : Machine) : Prop where
  /-- Each object was made for one handle, of its kind and in the store that it names. -/
  owner : ∀ {n o}, m.world.nativeObject? n = some o → o.isHandled = true →
    (∃! p : ObjId × Handle, m.world.IsOwner n p.1 p.2) ∧
      ∀ id h, m.world.IsOwner n id h → h.state.Suits o ∧ h.state ≠ .view ∧
        ∀ s, o.home? = some s → m.world.storeNative? h.store = some s
  /-- Each object is in exactly one of the three conditions. -/
  condition : ∀ {n o}, m.world.nativeObject? n = some o → o.isHandled = true →
    (m.NativeLive n ∧ ¬ m.NativeQueued n ∧ ¬ m.NativeDeleted n) ∨
      (¬ m.NativeLive n ∧ m.NativeQueued n ∧ ¬ m.NativeDeleted n) ∨
      (¬ m.NativeLive n ∧ ¬ m.NativeQueued n ∧ m.NativeDeleted n)
  /-- Every handle that can be used stands for a live object of its kind. -/
  operation : ∀ {id h k}, World.entry? m.world id = some ⟨k, .handle h⟩ →
    k ≠ 0 ∨ id ∈ m.held ∨ id ∈ m.world.owned →
    ∃ o, m.world.native? h.native = some o ∧ o.isHandled = true ∧ h.state.Suits o
  /-- A call that enters the engine enters a live function. -/
  call : ∀ {n args slots}, m.control = .enter n args slots → ∃ f, m.world.nativeFunc? n = some f
  /-- A store has as many objects pending as were made in it and are queued. -/
  pending : ∀ s, (m.world.pending s).size = {n | m.NativeQueued n ∧ m.MadeIn n s}.ncard
  /-- Only dropped owning handles queue: what a store has queued under a kind was made for a dropped
  handle of that store and kind, and nothing is queued under the kind of views. -/
  queues : ∀ {s kind n}, n ∈ (m.world.pending s).ofKind kind → kind ≠ .view ∧
    ∃ id h, m.world.IsOwner n id h ∧ m.world.strong id = 0 ∧ h.store = s ∧
      h.state.erase = kind.erase

/-! ## Coherent machines -/

variable {m : Machine} {n : NativeId}

/-- What refers to a native object is alive. -/
theorem Coherent.refers_alive (coherent : m.Coherent) {id : ObjId} {h : Handle} {k : Nat}
    (found : World.entry? m.world id = some ⟨k, .handle h⟩)
    (used : k ≠ 0 ∨ id ∈ m.held ∨ id ∈ m.world.owned) : m.world.strong id ≠ 0 := by
  rcases used with alive | held | owned
  · rw [World.strong_eq found]
    exact alive
  · exact coherent.world.alive held
  · exact coherent.world.alive_of_mem_owned owned

/-- What something refers to is claimed. -/
theorem Coherent.claimed_of_refers (coherent : m.Coherent) (refers : m.Refers n) :
    n ∈ m.world.claimed := by
  obtain ⟨id, h, k, found, rfl, used⟩ := refers
  have alive := coherent.refers_alive found used
  have known := World.isHandle_iff.mpr ⟨k, found⟩
  obtain ⟨j, known', owner, native, -⟩ := coherent.world.owner_known known
  have owning : m.world.IsOwner h.native (World.ownerOf id h) j :=
    World.isOwner_iff.mpr ⟨known', owner, native⟩
  exact (coherent.world.mem_claimed_iff owning).mpr (coherent.world.owner_alive owning known alive)

/-- The owner of a queued object is the handle that it is queued for. -/
theorem Coherent.queued (coherent : m.Coherent) {id : ObjId} {h : Handle}
    (owner : m.world.IsOwner n id h) (count : m.world.queued.count n = 1) :
    n ∈ (m.world.pending h.store).ofKind h.state := by
  have mem : n ∈ m.world.queued := List.count_pos_iff.mp (by omega)
  obtain ⟨s, listed⟩ := World.mem_queued.mp mem
  obtain ⟨kind, place⟩ := Pending.mem_inOrder.mp listed
  obtain ⟨j, k, owner', rfl, same⟩ := coherent.world.queued_owner place
  obtain ⟨-, rfl⟩ := coherent.world.owner_unique owner owner'
  rw [Pending.ofKind_erase _ same]
  exact place

theorem Coherent.condition (coherent : m.Coherent) {id : ObjId} {h : Handle}
    (owner : m.world.IsOwner n id h) (known : n.index < m.world.natives.size) :
    (m.NativeLive n ∧ ¬ m.NativeQueued n ∧ ¬ m.NativeDeleted n) ∨
      (¬ m.NativeLive n ∧ m.NativeQueued n ∧ ¬ m.NativeDeleted n) ∨
      (¬ m.NativeLive n ∧ ¬ m.NativeQueued n ∧ m.NativeDeleted n) := by
  rcases coherent.world.place known with ⟨claimed, clear, kept⟩ | ⟨free, count, kept⟩ |
    ⟨free, clear, deleted⟩
  · have alive := (coherent.world.mem_claimed_iff owner).mp claimed
    refine .inl ⟨⟨kept, clear, id, ⟨h, owner, alive⟩, ?_⟩, ?_, ?_⟩
    · rintro j ⟨k, owner', -⟩
      exact (coherent.world.owner_unique owner owner').1
    · rintro ⟨-, count, -⟩
      exact clear (List.count_pos_iff.mp (by omega))
    · rintro ⟨deleted, -⟩
      omega
  · have unreferred : ¬ m.Refers n := fun refers => free (coherent.claimed_of_refers refers)
    refine .inr (.inl ⟨?_, ⟨kept, count, ⟨id, h, owner, coherent.queued owner count⟩, unreferred⟩, ?_⟩)
    · rintro ⟨-, clear, -⟩
      exact clear (List.count_pos_iff.mp (by omega))
    · rintro ⟨deleted, -⟩
      omega
  · have unreferred : ¬ m.Refers n := fun refers => free (coherent.claimed_of_refers refers)
    refine .inr (.inr ⟨?_, ?_, deleted, clear, unreferred⟩)
    · rintro ⟨kept, -⟩
      omega
    · rintro ⟨kept, -⟩
      omega

/-- A handle that can be used stands for a live object. -/
theorem Coherent.operation (coherent : m.Coherent) {id : ObjId} {h : Handle} {k : Nat}
    (found : World.entry? m.world id = some ⟨k, .handle h⟩)
    (used : k ≠ 0 ∨ id ∈ m.held ∨ id ∈ m.world.owned) :
    ∃ o, m.world.native? h.native = some o ∧ o.isHandled = true ∧ h.state.Suits o := by
  have known := World.isHandle_iff.mpr ⟨k, found⟩
  have usable := World.handle?_eq_some.mpr ⟨known, coherent.refers_alive found used⟩
  obtain ⟨o, object, handled, suits⟩ := coherent.world.handle_native known
  refine ⟨o, ?_, handled, suits⟩
  rw [World.native?_eq, if_pos (coherent.world.handle_live usable)]
  exact object

/-- The objects that a store has pending are those made in it that are queued. -/
theorem Coherent.mem_pending (coherent : m.Coherent) (s : ObjId) :
    n ∈ (m.world.pending s).inOrder ↔ m.NativeQueued n ∧ m.MadeIn n s := by
  constructor
  · intro mem
    obtain ⟨kind, place⟩ := Pending.mem_inOrder.mp mem
    obtain ⟨id, h, owner, rfl, -⟩ := coherent.world.queued_owner place
    have listed : n ∈ m.world.queued := World.mem_queued.mpr ⟨h.store, mem⟩
    have positive := List.count_pos_iff.mpr listed
    have place := coherent.world.placed n
    have known : n.index < m.world.natives.size := by
      split at place
      · next known => exact known
      · omega
    refine ⟨?_, id, h, owner, rfl⟩
    rcases coherent.condition owner known with ⟨live, -⟩ | ⟨-, queued, -⟩ | ⟨-, -, deleted⟩
    · exact absurd listed live.2.1
    · exact queued
    · exact absurd listed deleted.2.1
  · rintro ⟨⟨-, -, ⟨id, h, owner, place⟩, -⟩, j, k, owner', rfl⟩
    obtain ⟨-, rfl⟩ := coherent.world.owner_unique owner owner'
    exact Pending.mem_inOrder.mpr ⟨_, place⟩

/-- The lifecycle of the native objects of a coherent machine. -/
theorem Coherent.nativeLifecycle (coherent : m.Coherent) : m.NativeLifecycle where
  owner := by
    intro n o found handled
    obtain ⟨id, h, owner⟩ := coherent.world.exists_owner found handled
    refine ⟨⟨(id, h), owner, ?_⟩, ?_⟩
    · rintro ⟨j, k⟩ owner'
      obtain ⟨rfl, rfl⟩ := coherent.world.owner_unique owner owner'
      rfl
    · intro j k owner'
      obtain ⟨known, owning, rfl⟩ := World.isOwner_iff.mp owner'
      have viewless := coherent.world.owner_viewless known owning
      obtain ⟨suits, -, home⟩ := coherent.world.handle_suits known found viewless
      exact ⟨suits, viewless, home⟩
  condition := by
    intro n o found handled
    obtain ⟨id, h, owner⟩ := coherent.world.exists_owner found handled
    exact coherent.condition owner (World.nativeObject?_isSome.mp (by rw [found]; rfl))
  operation := coherent.operation
  call := by
    intro n args slots control
    obtain ⟨c, h, callee, s, entering⟩ := coherent.entering control
    have same := entering.control
    rw [control] at same
    cases same
    exact ⟨_, entering.callable.func⟩
  pending s := by
    have same : {n | m.NativeQueued n ∧ m.MadeIn n s} =
        ((m.world.pending s).inOrder.toFinset : Set NativeId) := by
      ext n
      rw [List.coe_toFinset]
      exact (coherent.mem_pending s).symm
    rw [same, Set.ncard_coe_finset, List.toFinset_card_of_nodup (coherent.world.pending_nodup s)]
    rfl
  queues := by
    intro s kind n mem
    obtain ⟨⟨-, -, -, unreferred⟩, -⟩ :=
      (coherent.mem_pending s).mp (Pending.mem_inOrder.mpr ⟨kind, mem⟩)
    obtain ⟨id, h, owner, store, same⟩ := coherent.world.queued_owner mem
    obtain ⟨known, owning, native⟩ := World.isOwner_iff.mp owner
    obtain ⟨k, found⟩ := World.isHandle_iff.mp known
    refine ⟨fun view => ?_, id, h, owner, ?_, store, same⟩
    · rw [view] at same
      exact coherent.world.owner_viewless known owning (HandleState.erase_eq_view.mp same)
    · by_contra alive
      rw [World.strong_eq found] at alive
      exact unreferred ⟨id, h, k, found, native, .inl alive⟩

/-- In every state that a public script leads to, every native memory, function and interrupt handle is
in exactly one of the three conditions. -/
theorem nativeLifecycle_after (level : Option LogLevel) {script : Block}
    (isPublic : Block.isPublic script = true) (k : Nat) : (after level script k).NativeLifecycle :=
  (coherent_after level isPublic k).nativeLifecycle

/-- A memory that is dropped before a view of it. -/
def viewedMemory : Block :=
  [(⟨false, false⟩, .plain (.store (.scoped "s") none)),
    (⟨false, false⟩, .plain (.memory (.scoped "m") (.scoped "s") ⟨1, some 2⟩)),
    (⟨false, false⟩, .plain (.asExtern (.scoped "x") (.scoped "m"))),
    (⟨false, false⟩, .plain (.drop (.scoped "m"))),
    (⟨false, false⟩, .plain (.drop (.scoped "x")))]

/-- The memory is queued once its view is dropped too. -/
theorem nativeLifecycle_after_viewedMemory : Block.isPublic viewedMemory = true ∧
    {n | (after none viewedMemory 10).NativeQueued n ∧
      (after none viewedMemory 10).MadeIn n ⟨0⟩}.ncard = 1 := by
  have isPublic : Block.isPublic viewedMemory = true := by decide
  have lifecycle := nativeLifecycle_after none isPublic 10
  refine ⟨isPublic, ?_⟩
  rw [← lifecycle.pending ⟨0⟩]
  decide

end Machine

end HostEmbedding
