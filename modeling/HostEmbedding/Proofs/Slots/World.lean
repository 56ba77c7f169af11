import HostEmbedding.Call.HostCall
import HostEmbedding.Host.Function
import HostEmbedding.Host.Memory
import HostEmbedding.Host.View
import HostEmbedding.Script.Diagnostic
import Mathlib

/-!
# What does not see the slots

The slots of a thread matter only to the start of a host call, to its end and to a panic that is to be
parked. Every other operation on the world does with other slots what it does with these, and leaves
them alone.
-/

namespace HostEmbedding.World

def withSlots (w : World) (xs : List (Option Fault)) : World :=
  { w with thread := { w.thread with frames := xs } }

variable (w : World) (xs : List (Option Fault))

@[simp]
theorem withSlots_frames : w.withSlots w.thread.frames = w := rfl

@[simp]
theorem withSlots_finalizing : (w.withSlots xs).thread.finalizing = w.thread.finalizing := rfl

/-! ## Reading -/

section

variable (id : ObjId) (n : NativeId)

@[simp]
theorem entry?_withSlots : World.entry? (w.withSlots xs) id = World.entry? w id := rfl

@[simp]
theorem strong_withSlots : (w.withSlots xs).strong id = w.strong id := rfl

@[simp]
theorem object?_withSlots : (w.withSlots xs).object? id = w.object? id := rfl

@[simp]
theorem handle?_withSlots : (w.withSlots xs).handle? id = w.handle? id := rfl

@[simp]
theorem closure?_withSlots : (w.withSlots xs).closure? id = w.closure? id := rfl

@[simp]
theorem pending_withSlots : (w.withSlots xs).pending id = w.pending id := rfl

@[simp]
theorem storeNative?_withSlots : (w.withSlots xs).storeNative? id = w.storeNative? id := rfl

@[simp]
theorem native?_withSlots : (w.withSlots xs).native? n = w.native? n := rfl

@[simp]
theorem nativeStore?_withSlots : (w.withSlots xs).nativeStore? n = w.nativeStore? n := rfl

@[simp]
theorem nativeFunc?_withSlots : (w.withSlots xs).nativeFunc? n = w.nativeFunc? n := rfl

@[simp]
theorem nativeMemory?_withSlots : (w.withSlots xs).nativeMemory? n = w.nativeMemory? n := rfl

@[simp]
theorem externKind?_withSlots : (w.withSlots xs).externKind? n = w.externKind? n := rfl

@[simp]
theorem memoryOf?_withSlots : (w.withSlots xs).memoryOf? id = w.memoryOf? id := rfl

@[simp]
theorem shownVals_withSlots (vs : List (Val ObjId)) :
    (w.withSlots xs).shownVals vs = w.shownVals vs := rfl

end

/-! ## Writing -/

section

variable (id : ObjId) (n : NativeId)

@[simp]
theorem modifyEntry_withSlots (f : Entry → Entry) :
    (w.withSlots xs).modifyEntry id f = (w.modifyEntry id f).withSlots xs := rfl

@[simp]
theorem modifyPending_withSlots (f : Pending → Pending) :
    (w.withSlots xs).modifyPending id f = (w.modifyPending id f).withSlots xs := rfl

@[simp]
theorem setObject_withSlots (o : Object) :
    (w.withSlots xs).setObject id o = (w.setObject id o).withSlots xs := rfl

@[simp]
theorem alloc_withSlots (o : Object) (k : Nat) :
    (w.withSlots xs).alloc o k = ((w.alloc o k).1, (w.alloc o k).2.withSlots xs) := rfl

@[simp]
theorem retain_withSlots : (w.withSlots xs).retain id = (w.retain id).withSlots xs := rfl

@[simp]
theorem retainAll_withSlots (ids : List ObjId) (w : World) :
    (w.withSlots xs).retainAll ids = (w.retainAll ids).withSlots xs := by
  induction ids generalizing w with
  | nil => rfl
  | cons id rest ih => exact ih (w.retain id)

@[simp]
theorem allocNative_withSlots (o : Native) :
    (w.withSlots xs).allocNative o = ((w.allocNative o).1, (w.allocNative o).2.withSlots xs) := rfl

@[simp]
theorem modifyNativeStore_withSlots (f : NativeStore → NativeStore) :
    (w.withSlots xs).modifyNativeStore n f = (w.modifyNativeStore n f).withSlots xs := rfl

@[simp]
theorem guard_withSlots (op : GuardedOp) :
    (w.withSlots xs).guard op = (w.guard op).withSlots xs := by
  unfold guard
  rw [withSlots_finalizing]
  split <;> rfl

@[simp]
theorem deleteNative_withSlots :
    (w.withSlots xs).deleteNative n = (w.deleteNative n).withSlots xs := rfl

@[simp]
theorem emit_withSlots (e : Event) : (w.withSlots xs).emit e = (w.emit e).withSlots xs := rfl

@[simp]
theorem log_withSlots (r : LogRecord) : (w.withSlots xs).log r = (w.log r).withSlots xs := by
  have same : (w.withSlots xs).level = w.level := rfl
  unfold log
  rw [same]
  split
  · split <;> rfl
  · rfl

@[simp]
theorem tag_withSlots : (w.withSlots xs).tag n = ((w.tag n).1, (w.tag n).2.withSlots xs) := by
  have same : (w.withSlots xs).natives = w.natives := rfl
  unfold tag
  rw [same]
  split <;> rfl

@[simp]
theorem logAbout_withSlots (r : Nat → LogRecord) :
    (w.withSlots xs).logAbout n r = (w.logAbout n r).withSlots xs := by
  simp [logAbout]

end

/-! ## Releasing -/

@[simp]
theorem deleteMemory_withSlots (n : NativeId) :
    (w.withSlots xs).deleteMemory n = (w.deleteMemory n).withSlots xs := by
  simp [deleteMemory]

@[simp]
theorem deleteInterrupt_withSlots (n : NativeId) :
    (w.withSlots xs).deleteInterrupt n = (w.deleteInterrupt n).withSlots xs := by
  simp [deleteInterrupt]

@[simp]
theorem deleteFunc_withSlots (n : NativeId) :
    (w.withSlots xs).deleteFunc n = (w.deleteFunc n).withSlots xs := by
  unfold deleteFunc
  simp only [nativeFunc?_withSlots, guard_withSlots, deleteNative_withSlots]
  split <;> rfl

@[simp]
theorem deleteExtern_withSlots (n : NativeId) :
    (w.withSlots xs).deleteExtern n = (w.deleteExtern n).withSlots xs := by
  unfold deleteExtern
  rw [externKind?_withSlots]
  split <;> simp

@[simp]
theorem releaseNative_withSlots (kind : HandleState) (n : NativeId) :
    (w.withSlots xs).releaseNative kind n = (w.releaseNative kind n).withSlots xs := by
  cases kind <;> simp [releaseNative]

@[simp]
theorem releaseQueue_withSlots (kind : HandleState) (ns : List NativeId) (w : World) :
    (w.withSlots xs).releaseQueue kind ns = (w.releaseQueue kind ns).withSlots xs := by
  induction ns generalizing w with
  | nil => rfl
  | cons n rest ih =>
      show ((w.withSlots xs).releaseNative kind n).releaseQueue kind rest = _
      rw [releaseNative_withSlots, ih]
      rfl

@[simp]
theorem releaseBatch_withSlots (p : Pending) :
    (w.withSlots xs).releaseBatch p = (w.releaseBatch p).withSlots xs := by
  simp [releaseBatch]

@[simp]
theorem detach_withSlots (env : ObjId) :
    (w.withSlots xs).detach env = ((w.detach env).1, (w.detach env).2.withSlots xs) := by
  unfold detach
  rw [entry?_withSlots]
  split <;> rfl

@[simp]
theorem dispose_withSlots (id : ObjId) (o : Object) :
    (w.withSlots xs).dispose id o = ((w.dispose id o).1, (w.dispose id o).2.withSlots xs) := by
  cases o with
  | handle h =>
      unfold dispose
      dsimp only
      split
      · split
        · rw [detach_withSlots]
        · rfl
      · rfl
  | _ => rfl

@[simp]
theorem perform_withSlots (t : Task) :
    (w.withSlots xs).perform t = ((w.perform t).1, (w.perform t).2.withSlots xs) := by
  cases t with
  | ref id =>
      unfold perform
      dsimp only
      rw [entry?_withSlots]
      split
      · rfl
      · rfl
      · rw [modifyEntry_withSlots, dispose_withSlots]
      · rfl
  | queue h =>
      unfold perform
      simp
  | flush s total =>
      unfold perform
      simp only [pending_withSlots, modifyPending_withSlots, releaseBatch_withSlots]
      rfl
  | sweep s total again =>
      have same : (w.withSlots xs).thread.retired = w.thread.retired := rfl
      unfold perform
      dsimp only
      rw [same]
      split
      · split
        · rfl
        · dsimp only
          split
          · rfl
          · rw [log_withSlots]
            rfl
      · rfl
  | deleteStore n =>
      unfold perform
      simp

theorem drain_withSlots (fuel : Nat) (tasks : List Task) (w : World) :
    drain fuel tasks (w.withSlots xs) =
      ((drain fuel tasks w).1, (drain fuel tasks w).2.withSlots xs) := by
  induction fuel generalizing tasks w with
  | zero => cases tasks <;> rfl
  | succ fuel ih =>
      cases tasks with
      | nil => rfl
      | cons t rest =>
          show drain fuel (((w.withSlots xs).perform t).1 ++ rest) ((w.withSlots xs).perform t).2 = _
          rw [perform_withSlots]
          exact ih _ _

@[simp]
theorem complete_withSlots (tasks : List Task) :
    (w.withSlots xs).complete tasks = (w.complete tasks).withSlots xs := by
  have same : (w.withSlots xs).effort tasks = w.effort tasks := rfl
  unfold complete
  rw [same, drain_withSlots]
  split <;> rfl

@[simp]
theorem release_withSlots (id : ObjId) :
    (w.withSlots xs).release id = (w.release id).withSlots xs := by
  unfold release
  rw [perform_withSlots]
  exact complete_withSlots _ xs _

@[simp]
theorem releaseAll_withSlots (ids : List ObjId) (w : World) :
    (w.withSlots xs).releaseAll ids = (w.releaseAll ids).withSlots xs := by
  induction ids generalizing w with
  | nil => rfl
  | cons id rest ih =>
      show ((w.withSlots xs).release id).releaseAll rest = _
      rw [release_withSlots, ih]
      rfl

@[simp]
theorem flush_withSlots (store : ObjId) :
    (w.withSlots xs).flush store = (w.flush store).withSlots xs :=
  complete_withSlots w xs _

/-! ## Operations on handles -/

section

variable (store : ObjId)

@[simp]
theorem createEngine_withSlots (config : Config) :
    (w.withSlots xs).createEngine config = (w.createEngine config).withSlots xs :=
  log_withSlots w xs _

@[simp]
theorem createStore_withSlots (config : Config) : (w.withSlots xs).createStore config =
    ((w.createStore config).1, (w.createStore config).2.withSlots xs) := rfl

@[simp]
theorem acquire_withSlots (n : NativeId) (state : HandleState) :
    (w.withSlots xs).acquire n store state =
      ((w.acquire n store state).1, (w.acquire n store state).2.withSlots xs) := rfl

@[simp]
theorem createInterrupt_withSlots : (w.withSlots xs).createInterrupt store =
    ((w.createInterrupt store).1, (w.createInterrupt store).2.withSlots xs) := by
  unfold createInterrupt
  simp only [flush_withSlots, guard_withSlots, storeNative?_withSlots]
  split <;> rfl

@[simp]
theorem requestInterrupt_withSlots (n : NativeId) :
    (w.withSlots xs).requestInterrupt n = (w.requestInterrupt n).withSlots xs := by
  unfold requestInterrupt
  rw [native?_withSlots]
  split <;> rfl

@[simp]
theorem interrupt_withSlots (h : Handle) :
    (w.withSlots xs).interrupt h = (w.interrupt h).withSlots xs := by
  simp [interrupt]

@[simp]
theorem createNativeMemory_withSlots (n : NativeId) (limits : Limits) :
    (w.withSlots xs).createNativeMemory n limits =
      ((w.createNativeMemory n limits).1, (w.createNativeMemory n limits).2.withSlots xs) := by
  unfold createNativeMemory
  rw [nativeStore?_withSlots]
  split <;> rfl

@[simp]
theorem createMemory_withSlots (type : MemoryType) : (w.withSlots xs).createMemory store type =
    ((w.createMemory store type).1, (w.createMemory store type).2.withSlots xs) := by
  unfold createMemory
  simp only [flush_withSlots, guard_withSlots, storeNative?_withSlots, createNativeMemory_withSlots]
  split
  · next limits n _ _ =>
      obtain ⟨made, u⟩ := ((w.flush store).guard .memoryNew).createNativeMemory n limits
      cases made with
      | none => rfl
      | some n =>
          simp only [logAbout_withSlots]
          rfl
  · rfl

@[simp]
theorem growNative_withSlots (n : NativeId) (mem : LinearMemory) (delta : UInt32) :
    (w.withSlots xs).growNative n mem delta =
      ((w.growNative n mem delta).1, (w.growNative n mem delta).2.withSlots xs) := by
  unfold growNative
  split <;> rfl

@[simp]
theorem grow_withSlots (n : NativeId) (mem : LinearMemory) (delta : UInt32) :
    (w.withSlots xs).grow n mem delta =
      ((w.grow n mem delta).1, (w.grow n mem delta).2.withSlots xs) := by
  unfold grow
  rw [growNative_withSlots]
  obtain ⟨granted, u⟩ := w.growNative n mem delta
  cases granted with
  | true => rfl
  | false => simp

@[simp]
theorem write_withSlots (n : NativeId) (mem : LinearMemory) (offset : Nat) (data : Runs) :
    (w.withSlots xs).write n mem offset data =
      ((w.write n mem offset data).1, (w.write n mem offset data).2.withSlots xs) := by
  unfold write
  split <;> rfl

@[simp]
theorem register_withSlots (code : HostCode) (captures : Scope) :
    (w.withSlots xs).register store code captures =
      ((w.register store code captures).1, (w.register store code captures).2.withSlots xs) := by
  unfold register
  simp only [flush_withSlots, alloc_withSlots, storeNative?_withSlots, guard_withSlots,
    allocNative_withSlots, logAbout_withSlots, acquire_withSlots]
  split <;> rfl

@[simp]
theorem intoFunc?_withSlots (h : Handle) : (w.withSlots xs).intoFunc? store h =
    (w.intoFunc? store h).map fun p => (p.1, p.2.1, p.2.2.withSlots xs) := by
  unfold intoFunc?
  rw [nativeFunc?_withSlots]
  split <;> rfl

@[simp]
theorem intoMemory?_withSlots (h : Handle) : (w.withSlots xs).intoMemory? store h =
    (w.intoMemory? store h).map fun p => (p.1, p.2.withSlots xs) := by
  have lock (owner : ObjId) : (w.withSlots xs).sharedLock? owner = w.sharedLock? owner := rfl
  unfold intoMemory?
  rw [nativeMemory?_withSlots, lock]
  split <;> rfl

theorem debugHandle_withSlots (h : Handle) : (w.withSlots xs).debugHandle h =
    ((w.debugHandle h).1, (w.debugHandle h).2.withSlots xs) := by
  simp [debugHandle]

@[simp]
theorem debug?_withSlots (item : Item) : (w.withSlots xs).debug? item =
    (w.debug? item).map fun p => (p.1, p.2.withSlots xs) := by
  have func (h : Handle) (type : FuncType) : (w.withSlots xs).debugFunc h type =
      ((w.debugFunc h type).1, (w.debugFunc h type).2.withSlots xs) := by
    simp [debugFunc, debugHandle_withSlots]
  cases item <;> simp [debug?, debugHandle_withSlots, func, Option.map_bind, Function.comp_def]

end

/-! ## Through the engine -/

@[simp]
theorem tryEnter_withSlots (n : NativeId) (args : List (Slot ObjId)) (count : Nat) :
    (w.withSlots xs).tryEnter n args count =
      ((w.tryEnter n args count).1, (w.tryEnter n args count).2.withSlots xs) := by
  unfold tryEnter
  simp only [nativeFunc?_withSlots, nativeStore?_withSlots, modifyNativeStore_withSlots, leave_count]
  split
  · rfl
  · split
    · rfl
    · split
      · rfl
      · split
        · rfl
        · split
          · rfl
          · split <;> rfl

@[simp]
theorem leave_withSlots (n : NativeId) :
    (w.withSlots xs).leave n = (w.leave n).withSlots xs := rfl

@[simp]
theorem decodeBorrowed_withSlots (kinds : List Kind) (args : List (Slot ObjId)) :
    (w.withSlots xs).decodeBorrowed kinds args =
      ((w.decodeBorrowed kinds args).1, (w.decodeBorrowed kinds args).2.withSlots xs) := by
  simp [decodeBorrowed]

@[simp]
theorem encodeArgs_withSlots (args : List (Val ObjId)) : (w.withSlots xs).encodeArgs args =
    ((w.encodeArgs args).1, (w.encodeArgs args).2.withSlots xs) := by
  simp [encodeArgs]

@[simp]
theorem enterHost_withSlots (env : ObjId) (native : NativeId) (args : List (Slot ObjId))
    (depth : UInt32) (slots : Nat) : (w.withSlots xs).enterHost env native args depth slots =
      ((w.enterHost env native args depth slots).1,
        (w.enterHost env native args depth slots).2.withSlots xs) := by
  unfold enterHost
  simp only [entry?_withSlots, strong_withSlots, retain_withSlots, closure?_withSlots,
    decodeBorrowed_withSlots, retainAll_withSlots, release_withSlots, emit_withSlots]
  split
  · split
    · rfl
    · split
      · rfl
      · next closure code _ =>
          split
          · rfl
          · by_cases quiet : code.quiet = true
            · simp only [if_pos quiet]
            · simp only [if_neg quiet]
              rfl
  · rfl

end HostEmbedding.World
