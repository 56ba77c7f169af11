import HostEmbedding.Proofs.Ownership.Places

/-!
# What the guards keep

While a finalizer runs, the guards end the process before a memory, a function or an interrupt handle is
created or deleted and before a store is deleted. Outside finalizers they let everything through, and
releasing work leaves as many finalizers running as there were.
-/

namespace HostEmbedding

def Native.isStore : Native → Bool
  | .store _ => true
  | _ => false

namespace World

variable {w v u : World}

/-- How often the native object at an address was deleted, if there is one of a kind. -/
def tally (w : World) (kind : Native → Bool) (n : NativeId) : Option Nat :=
  ((w.nativeObject? n).filter kind).map fun _ => w.deletions n

/-- No object that handles own was created or deleted, and no store was deleted. -/
structure Spares (w v : World) : Prop where
  handled : v.tally Native.isHandled = w.tally Native.isHandled
  stores : ∀ n k, w.tally Native.isStore n = some k → v.tally Native.isStore n = some k

/-- As many finalizers are running afterwards, and outside finalizers no guard has failed. -/
structure Scoped (w v : World) : Prop where
  finalizing : v.thread.finalizing = w.thread.finalizing
  aborted : w.thread.finalizing = 0 → v.aborted = w.aborted

/-- The guards are abided by: the operation that ended the process stays, and while a finalizer runs
nothing that a guard protects is created or deleted unless that ends the process. -/
structure Abides (w v : World) : Prop extends Scoped w v where
  ended : ∀ op, w.aborted = some op → v.aborted = some op
  spares : w.thread.finalizing ≠ 0 → v.aborted = none → Spares w v

/-! ## What is spared -/

theorem tally_of_bodies (bodies : v.bodies = w.bodies) (kind : Native → Bool) :
    v.tally kind = w.tally kind := by
  funext n
  simp only [tally, nativeObject?, deletions, bodies]

namespace Spares

theorem of_bodies (bodies : v.bodies = w.bodies) : Spares w v where
  handled := tally_of_bodies bodies _
  stores n k found := by rwa [tally_of_bodies bodies]

theorem trans (first : Spares w v) (second : Spares v u) : Spares w u where
  handled := second.handled.trans first.handled
  stores n k found := second.stores n k (first.stores n k found)

end Spares

/-! ## One after another -/

theorem Scoped.trans (first : Scoped w v) (second : Scoped v u) : Scoped w u where
  finalizing := second.finalizing.trans first.finalizing
  aborted quiet := (second.aborted (first.finalizing.trans quiet)).trans (first.aborted quiet)

namespace Abides

theorem trans (first : Abides w v) (second : Abides v u) : Abides w u where
  toScoped := first.toScoped.trans second.toScoped
  ended op failed := second.ended op (first.ended op failed)
  spares busy alive := by
    have between : v.aborted = none := by
      by_contra failed
      obtain ⟨op, failed⟩ := Option.ne_none_iff_exists'.mp failed
      rw [second.ended op failed] at alive
      cases alive
    exact (first.spares busy between).trans (second.spares (by rwa [first.finalizing]) alive)

/-- No guard is asked and nothing is created or deleted. -/
theorem of_bodies (bodies : v.bodies = w.bodies)
    (finalizing : v.thread.finalizing = w.thread.finalizing) (aborted : v.aborted = w.aborted) :
    Abides w v where
  finalizing := finalizing
  aborted _ := aborted
  ended _ failed := aborted.trans failed
  spares _ _ := .of_bodies bodies

theorem refl (w : World) : Abides w w := of_bodies rfl rfl rfl

/-- A guard is asked before anything is created or deleted. -/
theorem of_guard {op : GuardedOp} (finalizing : v.thread.finalizing = w.thread.finalizing)
    (aborted : v.aborted = (w.guard op).aborted) : Abides w v := by
  by_cases quiet : w.thread.finalizing = 0
  · rw [guard_eq quiet] at aborted
    exact ⟨⟨finalizing, fun _ => aborted⟩, fun _ failed => aborted.trans failed,
      fun busy => absurd quiet busy⟩
  · have fails : (w.guard op).aborted = some (w.aborted.getD op) := by
      rw [guard, if_neg quiet]
    rw [fails] at aborted
    refine ⟨⟨finalizing, fun calm => absurd calm quiet⟩, fun first failed => ?_, fun _ alive => ?_⟩
    · rw [aborted, failed, Option.getD_some]
    · rw [aborted] at alive
      cases alive

end Abides

theorem Same.abides (same : Same w v) : Abides w v :=
  .of_bodies same.bodies (by rw [same.thread]) same.aborted

/-! ## Deletions -/

theorem thread_guard (w : World) (op : GuardedOp) : (w.guard op).thread = w.thread := by
  unfold guard
  split <;> rfl

theorem abides_guard (w : World) (op : GuardedOp) : Abides w (w.guard op) :=
  .of_guard (by rw [thread_guard]) rfl

theorem abides_delete (w : World) (op : GuardedOp) (n : NativeId) :
    Abides w ((w.guard op).deleteNative n) :=
  .of_guard (congrArg ThreadState.finalizing (thread_guard w op)) rfl

/-- A finalizer that hands an environment back is over when the deletion of its function is. -/
theorem abides_deleteFunc (w : World) (n : NativeId) : Abides w (w.deleteFunc n) := by
  unfold deleteFunc
  dsimp only
  split
  · refine .of_guard ?_ (show _ = (w.guard .funcDelete).aborted from rfl)
    show (w.guard .funcDelete).thread.finalizing + 1 - 1 = w.thread.finalizing
    rw [Nat.add_sub_cancel, thread_guard]
  · exact abides_delete w .funcDelete n

theorem abides_releaseNative (w : World) (kind : HandleState) (n : NativeId) :
    Abides w (w.releaseNative kind n) := by
  have shown := (same_logAbout w n (.releasing kind.kindName)).abides
  unfold releaseNative
  cases kind with
  | memory _ => exact shown.trans (abides_delete _ _ n)
  | interrupt => exact shown.trans (abides_delete _ _ n)
  | func _ => exact shown.trans (abides_deleteFunc _ n)
  | view =>
      refine shown.trans ?_
      show Abides _ (deleteExtern _ n)
      unfold deleteExtern
      split
      · exact abides_deleteFunc _ n
      · exact abides_delete _ _ n
      · exact .refl _

theorem abides_releaseQueue (kind : HandleState) (ns : List NativeId) (w : World) :
    Abides w (w.releaseQueue kind ns) := by
  induction ns generalizing w with
  | nil => exact .refl w
  | cons n rest ih => exact (abides_releaseNative w kind n).trans (ih _)

theorem abides_releaseBatch (w : World) (p : Pending) : Abides w (w.releaseBatch p) :=
  (((abides_releaseQueue _ p.memories w).trans (abides_releaseQueue _ p.externs _)).trans
    (abides_releaseQueue _ p.interrupts _)).trans (abides_releaseQueue _ p.funcs _)

/-! ## Releasing work -/

theorem abides_perform (w : World) (t : Task) : Abides w (w.perform t).2 := by
  cases t with
  | ref id =>
      unfold perform
      dsimp only
      split
      · exact .refl w
      · exact .refl w
      · next o _ =>
          obtain ⟨heap, events, same⟩ := dispose_eq (w.modifyEntry id fun e => { e with strong := 0 }) id o
          rw [same]
          exact .of_bodies rfl rfl rfl
      · exact .of_bodies rfl rfl rfl
  | queue h =>
      have pushed : Abides w (w.modifyPending h.store fun p => p.push h.native h.state) :=
        .of_bodies rfl rfl rfl
      exact pushed.trans (same_logAbout _ _ _).abides
  | flush s total =>
      have emptied : Abides w (w.modifyPending s fun _ => {}) := .of_bodies rfl rfl rfl
      exact emptied.trans (abides_releaseBatch _ _)
  | sweep s total again =>
      unfold perform
      dsimp only
      split
      · split
        · exact .refl w
        · dsimp only
          split
          · exact .of_bodies rfl rfl rfl
          · have logged := same_log w (.released total)
            exact .of_bodies logged.bodies (congrArg ThreadState.finalizing logged.thread) logged.aborted
      · exact .of_bodies rfl rfl rfl
  | deleteStore n => exact (abides_delete w .storeDelete n).trans (same_logAbout _ _ _).abides

theorem abides_drain (fuel : Nat) (tasks : List Task) (w : World) : Abides w (drain fuel tasks w).2 := by
  induction fuel generalizing tasks w with
  | zero => cases tasks <;> exact .refl w
  | succ fuel ih =>
      cases tasks with
      | nil => exact .refl w
      | cons t rest => exact (abides_perform w t).trans (ih _ _)

theorem abides_complete (w : World) (tasks : List Task) : Abides w (w.complete tasks) := by
  unfold complete
  split
  · exact .refl w
  · exact abides_drain _ tasks w

theorem abides_release (w : World) (id : ObjId) : Abides w (w.release id) :=
  (abides_perform w (.ref id)).trans (abides_complete _ _)

theorem abides_flush (w : World) (store : ObjId) : Abides w (w.flush store) := abides_complete w _

end World

end HostEmbedding
