import HostEmbedding.Proofs.Machine.Running
import HostEmbedding.Proofs.Ownership.Graph

/-!
# What lives is what is reached

As long as the ownership graph is acyclic, an object is alive exactly when a variable or a running
call reaches it, and a native object is neither queued nor deleted exactly when something reached
stands for it. When nothing is held any more, everything was dropped and deleted once.
-/

namespace HostEmbedding

/-- The native object that a host object stands for: a store for its native store, a handle for what
it is a handle on. -/
def Object.native? : Object → Option NativeId
  | .store native _ _ => some native
  | .handle h => some h.native
  | _ => none

/-- The drops that the end of every closure and every host value made so far would be. -/
def World.made (w : World) : List Drop := w.gather fun e => e.object.drop?.toList

namespace Machine

/-- The ownership graph is acyclic: a live object owns the references that it holds, and none owns
itself. -/
def Acyclic (m : Machine) : Prop := m.world.Acyclic

def Reached (m : Machine) (id : ObjId) : Prop := m.world.Reached m.held id

def NativeReached (m : Machine) (n : NativeId) : Prop :=
  ∃ id e, World.entry? m.world id = some e ∧ e.object.native? = some n ∧ m.Reached id

/-- What lives is what is reached. -/
structure OwnershipExact (m : Machine) : Prop where
  /-- A store, a handle, a closure, a host value or a cell is alive exactly when it is reached. -/
  objects : ∀ {id e}, World.entry? m.world id = some e → e.object.isEnv = false →
    (e.strong ≠ 0 ↔ m.Reached id)
  /-- A native object is undeleted and in no queue exactly when it is reached. -/
  natives : ∀ {n o}, m.world.nativeObject? n = some o →
    (m.world.deletions n = 0 ∧ n ∉ m.world.queued ↔ m.NativeReached n)
  /-- Closures and host values are reported as dropped once for each that is no longer alive. -/
  reports : ∀ d, m.reported.count d = m.world.fallen.count d
  /-- When nothing is held, everything was dropped once and deleted once. -/
  released : m.held = [] →
    (∀ id, m.world.strong id = 0) ∧
      (∀ {n o}, m.world.nativeObject? n = some o → m.world.deletions n = 1 ∧ n ∉ m.world.queued) ∧
      ∀ d, m.reported.count d = m.world.made.count d
  /-- Nothing is held once the variables of a script are dropped. -/
  halted : m.isHalted = true → m.held = []

/-! ## Coherent machines -/

variable {m : Machine}

theorem claim_of_native {o : Object} {n : NativeId} (claim : o.claim? = some n) :
    o.native? = some n ∧ o.isEnv = false := by
  cases o with
  | store native config p => exact ⟨claim, rfl⟩
  | handle h =>
      unfold Object.claim? at claim
      dsimp only at claim
      split at claim
      · exact ⟨claim, rfl⟩
      · cases claim
  | _ => cases claim

/-- What a live object stands for is claimed. -/
theorem Coherent.claimed_of_native (coherent : m.Coherent) {id : ObjId} {e : Entry} {n : NativeId}
    (found : World.entry? m.world id = some e) (stands : e.object.native? = some n)
    (alive : e.strong ≠ 0) : n ∈ m.world.claimed := by
  obtain ⟨k, o⟩ := e
  cases o with
  | store native config p => exact World.mem_claimed.mpr ⟨id, _, found, alive, stands⟩
  | handle h =>
      cases stands
      have known := World.isHandle_iff.mpr ⟨k, found⟩
      obtain ⟨j, known', owner, native, -⟩ := coherent.world.owner_known known
      have owning : m.world.IsOwner h.native (World.ownerOf id h) j :=
        World.isOwner_iff.mpr ⟨known', owner, native⟩
      have living : m.world.strong id ≠ 0 := by
        rw [World.strong_eq found]
        exact alive
      exact (coherent.world.mem_claimed_iff owning).mpr
        (coherent.world.owner_alive owning known living)
  | _ => cases stands

theorem Coherent.known (_ : m.Coherent) {n : NativeId} {o : Native}
    (found : m.world.nativeObject? n = some o) : n.index < m.world.natives.size :=
  World.nativeObject?_isSome.mp (by rw [found]; rfl)

theorem Coherent.objects (coherent : m.Coherent) (acyclic : m.Acyclic) {id : ObjId} {e : Entry}
    (found : World.entry? m.world id = some e) (plain : e.object.isEnv = false) :
    e.strong ≠ 0 ↔ m.Reached id := by
  constructor
  · exact coherent.world.reached acyclic found plain
  · intro reached
    have alive := coherent.world.alive_of_reached reached
    rw [World.strong_eq found] at alive
    exact alive

theorem Coherent.natives (coherent : m.Coherent) (acyclic : m.Acyclic) {n : NativeId} {o : Native}
    (found : m.world.nativeObject? n = some o) :
    m.world.deletions n = 0 ∧ n ∉ m.world.queued ↔ m.NativeReached n := by
  have place := coherent.world.place (coherent.known found)
  constructor
  · rintro ⟨kept, clear⟩
    have claimed : n ∈ m.world.claimed := by
      rcases place with ⟨claimed, -⟩ | ⟨-, count, -⟩ | ⟨-, -, deleted⟩
      · exact claimed
      · exact absurd (List.count_pos_iff.mp (by omega)) clear
      · omega
    obtain ⟨id, e, entry, alive, claim⟩ := World.mem_claimed.mp claimed
    obtain ⟨stands, plain⟩ := claim_of_native claim
    exact ⟨id, e, entry, stands, (coherent.objects acyclic entry plain).mp alive⟩
  · rintro ⟨id, e, entry, stands, reached⟩
    have alive := coherent.world.alive_of_reached reached
    rw [World.strong_eq entry] at alive
    have claimed := coherent.claimed_of_native entry stands alive
    rcases place with ⟨-, clear, kept⟩ | ⟨free, -⟩ | ⟨free, -⟩
    · exact ⟨kept, clear⟩
    · exact absurd claimed free
    · exact absurd claimed free

/-! ## Nothing is held -/

/-- When nothing is held, only environments can be alive. -/
theorem Coherent.dead (coherent : m.Coherent) (acyclic : m.Acyclic) (none : m.held = [])
    {id : ObjId} {e : Entry} (found : World.entry? m.world id = some e)
    (plain : e.object.isEnv = false) : e.strong = 0 := by
  by_contra alive
  obtain ⟨r, root, -⟩ := (coherent.objects acyclic found plain).mp alive
  rw [none] at root
  cases root

/-- When nothing is held, every native object was deleted. -/
theorem Coherent.deleted (coherent : m.Coherent) (acyclic : m.Acyclic) (none : m.held = [])
    {n : NativeId} {o : Native} (found : m.world.nativeObject? n = some o) :
    m.world.deletions n = 1 ∧ n ∉ m.world.queued := by
  rcases coherent.world.place (coherent.known found) with ⟨claimed, -⟩ | ⟨-, count, -⟩ |
    ⟨-, clear, deleted⟩
  · obtain ⟨id, e, entry, alive, claim⟩ := World.mem_claimed.mp claimed
    exact absurd (coherent.dead acyclic none entry (claim_of_native claim).2) alive
  · -- The store of a queue is dead as well, and a dead store has flushed its queues.
    have queued : n ∈ m.world.queued := List.count_pos_iff.mp (by omega)
    obtain ⟨s, listed⟩ := World.mem_queued.mp queued
    have dead : m.world.strong s = 0 := by
      cases entry : World.entry? m.world s with
      | none => exact World.strong_of_none entry
      | some e =>
          rw [World.strong_eq entry]
          refine coherent.dead acyclic none entry ?_
          obtain ⟨k, o⟩ := e
          cases o with
          | env c t s => simp [World.pending, entry, Pending.inOrder] at listed
          | _ => rfl
    rw [coherent.world.rested s dead] at listed
    cases listed
  · exact ⟨deleted, clear⟩

/-- When nothing is held, nothing is alive. -/
theorem Coherent.all_dead (coherent : m.Coherent) (acyclic : m.Acyclic) (none : m.held = [])
    (id : ObjId) : m.world.strong id = 0 := by
  have counted := coherent.world.counted id
  have unowned : id ∉ m.world.owned := fun mem => by
    obtain ⟨x, e, found, alive, owned⟩ := World.mem_owned.mp mem
    by_cases env : e.object.isEnv = true
    · obtain ⟨i, k, h, handle, living, -⟩ :=
        coherent.world.toAccounted.owner_of_attached found env alive owned
      exact living (coherent.dead acyclic none handle rfl)
    · exact alive (coherent.dead acyclic none found (by simpa using env))
  have unlent : id ∉ m.world.lent := fun mem => by
    obtain ⟨⟨o, d⟩, listed, lent⟩ := List.mem_flatMap.mp mem
    obtain ⟨i, entry⟩ := List.mem_iff_getElem?.mp listed
    have found : m.world.nativeObject? ⟨i⟩ = some o := by simp [World.nativeObject?, entry]
    have count : m.world.deletions ⟨i⟩ = d := by simp [World.deletions, entry]
    obtain ⟨deleted, -⟩ := coherent.deleted acyclic none found
    have kept : d ≠ 0 := by omega
    rw [Native.lent, if_neg kept] at lent
    cases lent
  rw [none, coherent.world.retired, List.count_eq_zero.mpr unowned,
    List.count_eq_zero.mpr unlent] at counted
  exact counted

/-- When nothing is alive, what was made is what was dropped. -/
theorem fallen_of_dead {w : World} (dead : ∀ id, w.strong id = 0) : w.fallen = w.made := by
  unfold World.fallen World.made World.gather
  refine List.flatMap_congr fun e mem => ?_
  obtain ⟨i, entry⟩ := List.mem_iff_getElem?.mp mem
  have found : w.entry? ⟨i⟩ = some e := by rw [World.entry?_eq]; exact entry
  have none := dead ⟨i⟩
  rw [World.strong_eq found] at none
  exact if_pos none

/-- Nothing is held at the end of a script. -/
theorem Coherent.held_nil (coherent : m.Coherent) (halted : m.isHalted = true) : m.held = [] := by
  unfold isHalted at halted
  split at halted
  · next ending control =>
      have cleared := coherent.cleared ending control
      have placed := coherent.placed
      rw [control] at placed
      unfold held owns
      rw [control, cleared]
      generalize m.stack = stack at placed ⊢
      generalize m.context = context at placed ⊢
      generalize m.world.thread.frames = frames at placed
      cases placed with
      | halted stacked =>
          cases stacked
          rfl
  · cases halted

theorem Coherent.ownershipExact (coherent : m.Coherent) (acyclic : m.Acyclic) :
    m.OwnershipExact where
  objects := coherent.objects acyclic
  natives := coherent.natives acyclic
  reports d := (coherent.ledger d).symm
  released none := by
    have dead := coherent.all_dead acyclic none
    refine ⟨dead, coherent.deleted acyclic none, fun d => ?_⟩
    rw [← coherent.ledger d, fallen_of_dead dead]
  halted := coherent.held_nil

/-- In every state that a public script leads to and whose ownership graph is acyclic, what lives is
what a variable or a running call reaches. -/
theorem ownershipExact_after (level : Option LogLevel) {script : Block}
    (isPublic : Block.isPublic script = true) (k : Nat) (acyclic : (after level script k).Acyclic) :
    (after level script k).OwnershipExact :=
  (coherent_after level isPublic k).ownershipExact acyclic

/-- A function that captures a memory, and a reference that wraps the function. -/
def capturingFunc : Block :=
  [(⟨false, false⟩, .plain (.store (.scoped "s") none)),
    (⟨false, false⟩, .plain (.memory (.scoped "m") (.scoped "s") ⟨1, none⟩)),
    (⟨false, false⟩, .func (.scoped "f") (.scoped "s") (.generic ⟨[], []⟩) "f" false [.scoped "m"] []),
    (⟨false, false⟩, .plain (.reference (.scoped "r") "r" (.func (.scoped "f")))),
    (⟨false, false⟩, .plain (.drop (.scoped "s")))]

/-- At the end of the script the closure was dropped once and the memory was deleted once. -/
theorem ownershipExact_after_capturingFunc :
    Block.isPublic capturingFunc = true ∧ (after none capturingFunc 12).Acyclic ∧
      (after none capturingFunc 12).reported.count (.closure "f") = 1 ∧
      (after none capturingFunc 12).world.deletions ⟨1⟩ = 1 := by
  have isPublic : Block.isPublic capturingFunc = true := by decide
  have acyclic : (after none capturingFunc 12).Acyclic := World.acyclic_of_isOrdered (by decide +kernel)
  have exactness := ownershipExact_after none isPublic 12 acyclic
  obtain ⟨-, deleted, dropped⟩ := exactness.released (exactness.halted (by decide +kernel))
  refine ⟨isPublic, acyclic, ?_, ?_⟩
  · rw [dropped]
    decide +kernel
  · obtain ⟨o, found⟩ : ∃ o, (after none capturingFunc 12).world.nativeObject? ⟨1⟩ = some o :=
      Option.isSome_iff_exists.mp (by decide +kernel)
    exact (deleted found).1

end Machine

end HostEmbedding
