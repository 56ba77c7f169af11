import HostEmbedding.Proofs.Machine.Running
import HostEmbedding.Proofs.Ownership.Flushing

/-!
# Finalizers and what they hand back

A finalizer hands the environment of its function back and does nothing else, so nothing that a drop
can bring up runs inside one. The engine's guards therefore never fail, each function is finalized
exactly when it is deleted, and the flush that deleted it drops its environment before it ends.
-/

namespace HostEmbedding

def Frame.thread? : Frame → Option ThreadState
  | .thread _ state => some state
  | _ => none

namespace World

variable {w : World} {held : List ObjId} {tasks : List Task}

/-- A function is deleted at most once, and its finalizer has run as often. -/
def FinalizedOnce (w : World) : Prop :=
  ∀ n f, w.nativeObject? n = some (.func f) → w.deletions n ≤ 1 ∧ w.finalizations n = w.deletions n

/-- The world between two tasks of some releasing work. -/
structure Releasing (w : World) (left : List Task) : Prop extends Orderly w left where
  once : w.FinalizedOnce
  round : ∀ {s total rest}, left = .flush s total :: rest → w.Round s total rest

theorem Balanced.deletions_le_one {moving : List NativeId} (bal : w.Balanced held moving)
    (n : NativeId) : w.deletions n ≤ 1 := by
  have place := bal.placed n
  split at place <;> omega

theorem Draining.finalizedOnce (draining : w.Draining held tasks) : w.FinalizedOnce :=
  fun n f function => ⟨draining.acc.deletions_le_one n, draining.finalized n f function⟩

/-- All that a task finds when its turn comes. -/
theorem Draining.releasing (draining : w.Draining held tasks) (orderly : w.Orderly tasks) (k : Nat) :
    (World.drain k tasks w).2.Releasing (World.drain k tasks w).1 := by
  have later : (World.drain k tasks w).2.Draining held (World.drain k tasks w).1 := draining.drain
  have calm : (World.drain k tasks w).2.Orderly (World.drain k tasks w).1 := orderly.drain
  refine ⟨calm, later.finalizedOnce, fun {s total rest} next => ?_⟩
  rw [next] at later calm
  exact later.round calm

/-- Releasing work that is done leaves nothing handed back. -/
theorem Orderly.complete (orderly : w.Orderly tasks) : (w.complete tasks).thread.retired = [] := by
  have done : (World.drain (w.effort tasks) tasks w).2.Orderly _ := orderly.drain
  rw [drain_done (Nat.le_refl _), ← complete_eq] at done
  by_contra busy
  obtain ⟨_, _, _, _, impossible⟩ := done.swept busy
  cases impossible

end World

namespace Machine

def threads (m : Machine) : List ThreadState := m.world.thread :: m.stack.filterMap Frame.thread?

/-- What holds of finalizers in a state and during the releasing work that a step can do in it. -/
structure FinalizerSafety (m : Machine) : Prop where
  /-- No guarded operation was attempted inside a finalizer. -/
  aborted : m.world.aborted = none
  /-- Outside releasing work no thread runs a finalizer or has an environment to drop. -/
  threads : ∀ t ∈ m.threads, t.finalizing = 0 ∧ t.retired = []
  /-- A function was finalized once if it was deleted and never otherwise. -/
  once : m.world.FinalizedOnce
  /-- Whatever is held can be dropped. -/
  drop : ∀ id rest, m.held.Perm (id :: rest) → m.world.Draining rest [.ref id]
  /-- Whatever store there is can be flushed. -/
  flush : ∀ s n, m.world.shapes.IsStore s n → m.world.Draining m.held [.flush s 0]
  /-- Before each task of releasing work no finalizer is running, no guard has failed, and what was
  handed back is dropped next; each round of a flush, however deep, drops what its batch handed back. -/
  releasing : ∀ {held tasks}, m.world.Draining held tasks → ∀ k,
    (World.drain k tasks m.world).2.Releasing (World.drain k tasks m.world).1
  /-- The work ends with nothing handed back. -/
  swept : ∀ tasks, (m.world.complete tasks).thread.retired = []

/-- The threads that wait have nothing pending. -/
theorem quiet_threads {Γ : Shapes} {ctx : Context} {stack : List Frame}
    {slots : List (Option Fault)} (stacked : Stacked Γ ctx stack slots) :
    ∀ t ∈ stack.filterMap Frame.thread?, t.finalizing = 0 ∧ t.retired = [] := by
  induction stacked with
  | top => exact fun t mem => nomatch mem
  | block _ _ _ ih => exact ih
  | branch _ _ ih => exact ih
  | loop _ _ _ ih => exact ih
  | hostCall _ _ _ ih => exact ih
  | activation _ _ _ ih => exact ih
  | thread _ _ retired finalizing ih =>
      intro t mem
      rcases List.mem_cons.mp mem with rfl | mem
      · exact ⟨finalizing, retired⟩
      · exact ih t mem

theorem Coherent.finalizerSafety {m : Machine} (coherent : m.Coherent) : m.FinalizerSafety := by
  have sound := coherent.world
  have orderly (tasks : List Task) : m.world.Orderly tasks :=
    ⟨sound.finalizing, sound.aborted, fun busy => absurd sound.retired busy⟩
  obtain ⟨slots, stacked⟩ := coherent.placed.stacked
  refine ⟨sound.aborted, fun t mem => ?_, fun n f function =>
    ⟨sound.deletions_le_one n, sound.finalized n f function⟩, fun id rest perm => ?_,
    fun s n isStore => ?_, fun draining k => draining.releasing (orderly _) k,
    fun tasks => (orderly tasks).complete⟩
  · rcases List.mem_cons.mp mem with rfl | mem
    · exact ⟨sound.finalizing, sound.retired⟩
    · exact quiet_threads stacked t mem
  · have held := sound.regroup fun x => (perm.count_eq x).symm
    exact held.draining held.toAccounted (fun t mem => by cases List.mem_singleton.mp mem; trivial)
      trivial
  · exact sound.draining sound.toAccounted
      (fun t mem => by cases List.mem_singleton.mp mem; exact ⟨n, isStore⟩) trivial

/-- A flush starts with a round over what its store has queued. -/
theorem FinalizerSafety.round {m : Machine} (safe : m.FinalizerSafety) {s : ObjId} {n : NativeId}
    (isStore : m.world.storeNative? s = some n) : m.world.Round s 0 [] :=
  (safe.releasing (safe.flush s n (World.storeNative?_eq_some.mp isStore)) 0).round rfl

/-- In every state that a public script leads to, on every thread and at every call depth. -/
theorem finalizerSafety_after (level : Option LogLevel) {script : Block}
    (isPublic : Block.isPublic script = true) (k : Nat) : (after level script k).FinalizerSafety :=
  (coherent_after level isPublic k).finalizerSafety

/-- A function that captures a memory and another function; both are only kept by it when it is dropped,
and the store is flushed. -/
def droppedCaptures : Block :=
  [(⟨false, false⟩, .plain (.store (.scoped "s") none)),
    (⟨false, false⟩, .plain (.memory (.scoped "m") (.scoped "s") ⟨1, none⟩)),
    (⟨false, false⟩, .func (.scoped "g") (.scoped "s") (.generic ⟨[], []⟩) "g" false [] []),
    (⟨false, false⟩, .func (.scoped "f") (.scoped "s") (.generic ⟨[], []⟩) "f" false
      [.scoped "m", .scoped "g"] []),
    (⟨false, false⟩, .plain (.drop (.scoped "m"))),
    (⟨false, false⟩, .plain (.drop (.scoped "g"))),
    (⟨false, false⟩, .plain (.drop (.scoped "f"))),
    (⟨false, false⟩, .plain (.flush (.scoped "s")))]

/-- The flush deletes the memory and both functions, whose finalizers hand their environments back; it
drops them, and each function was finalized once. -/
theorem finalizerSafety_after_droppedCaptures : Block.isPublic droppedCaptures = true ∧
    ((after none droppedCaptures 14).world.flushOnce ⟨0⟩).thread.retired = [⟨3⟩, ⟨6⟩] ∧
      (after none droppedCaptures 16).world.finalizations ⟨3⟩ = 1 := by
  have isPublic : Block.isPublic droppedCaptures = true := by decide
  have before := finalizerSafety_after none isPublic 14
  have later := finalizerSafety_after none isPublic 16
  refine ⟨isPublic, ?_, ?_⟩
  · obtain ⟨n, isStore⟩ : ∃ n, (after none droppedCaptures 14).world.storeNative? ⟨0⟩ = some n :=
      Option.isSome_iff_exists.mp (by decide +kernel)
    rw [(before.round isStore).handed]
    decide +kernel
  · obtain ⟨f, function⟩ := World.func_of_lentTo (show
      (after none droppedCaptures 16).world.lentTo ⟨3⟩ = some ⟨6⟩ by decide +kernel)
    rw [(later.once ⟨3⟩ f function).2]
    decide +kernel

end Machine

end HostEmbedding
