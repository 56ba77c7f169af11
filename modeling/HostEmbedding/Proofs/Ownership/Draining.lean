import HostEmbedding.Proofs.Ownership.Account

/-!
# Releasing work

What every piece of releasing work does, whatever the state it starts in: it keeps the shapes and the
native objects, raises no count, takes back no deletion, leaves the slots of the thread alone, attaches
no closure, and reports every drop with one event. The effort of a list of tasks goes down with each task, so the
fuel of a drain is never spent.
-/

namespace HostEmbedding.World

/-- Releasing work leads from one world to another. -/
structure Drains (w v : World) : Prop where
  shapes : v.shapes = w.shapes
  strong_le : ∀ id, v.strong id ≤ w.strong id
  natives : v.nativeObject? = w.nativeObject?
  deletions_le : ∀ n, w.deletions n ≤ v.deletions n
  frames : v.thread.frames = w.thread.frames
  ledger : ∀ d, v.fallen.count d + w.drops.count d = w.fallen.count d + v.drops.count d
  attached : ∀ {e c}, v.attached? e = some c → w.attached? e = some c

variable {w v : World}

namespace Drains

theorem refl (w : World) : Drains w w :=
  ⟨rfl, fun _ => Nat.le_refl _, rfl, fun _ => Nat.le_refl _, rfl, fun _ => rfl, id⟩

theorem trans {u : World} (first : Drains w v) (second : Drains v u) : Drains w u where
  shapes := second.shapes.trans first.shapes
  strong_le id := (second.strong_le id).trans (first.strong_le id)
  natives := second.natives.trans first.natives
  deletions_le n := (first.deletions_le n).trans (second.deletions_le n)
  frames := second.frames.trans first.frames
  ledger d := by
    have before := first.ledger d
    have after := second.ledger d
    omega
  attached holds := first.attached (second.attached holds)

end Drains

theorem Same.drains (same : Same w v) : Drains w v where
  shapes := same.shapes
  strong_le id := by rw [same.strong]
  natives := same.nativeObject?
  deletions_le n := by rw [same.deletions]
  frames := by rw [same.thread]
  ledger d := by simp only [fallen, same.gather, same.drops]
  attached holds := by rwa [same.attached?] at holds

/-! ## Native objects -/

theorem drains_deleteNative (w : World) (n : NativeId) : Drains w (w.deleteNative n) where
  shapes := shapes_modifyNative fun _ => rfl
  strong_le _ := Nat.le_refl _
  natives := funext fun x => nativeObject?_deleteNative w n x
  deletions_le x := by
    simp only [deletions, bodies_deleteNative, List.getElem?_modify]
    split <;> cases w.bodies[x.index]? <;> simp
  frames := rfl
  ledger _ := rfl
  attached := id

/-- Attempting a guarded operation at most ends the process. -/
theorem drains_guard (w : World) (op : GuardedOp) : Drains w (w.guard op) := by
  unfold guard
  split
  · exact .refl w
  · exact ⟨rfl, fun _ => Nat.le_refl _, rfl, fun _ => Nat.le_refl _, rfl, fun _ => rfl, id⟩

theorem drains_modifyThread (w : World) {f : ThreadState → ThreadState}
    (keeps : (f w.thread).frames = w.thread.frames) : Drains w (w.modifyThread f) :=
  ⟨rfl, fun _ => Nat.le_refl _, rfl, fun _ => Nat.le_refl _, keeps, fun _ => rfl, id⟩

/-- A function finalizer hands one environment back. -/
theorem drains_finalize (w : World) (n : NativeId) (env : ObjId) :
    Drains w ((w.enterFinalizer n).retire env).leaveFinalizer := by
  have bodies : (w.modifyNative n fun e => { e with finalized := e.finalized + 1 }).bodies = w.bodies :=
    bodies_modifyNative_of_eq w n fun _ => ⟨rfl, rfl⟩
  have counted : Drains w (w.modifyNative n fun e => { e with finalized := e.finalized + 1 }) :=
    ⟨shapes_modifyNative fun _ => rfl, fun _ => Nat.le_refl _,
      funext fun x => by simp only [nativeObject?, bodies],
      fun x => by simp only [deletions, bodies, Nat.le_refl], rfl, fun _ => rfl, id⟩
  refine counted.trans ?_
  refine (drains_modifyThread _ ?_).trans ((drains_modifyThread _ ?_).trans
    (drains_modifyThread _ ?_)) <;> rfl

theorem drains_deleteFunc (w : World) (n : NativeId) : Drains w (w.deleteFunc n) := by
  have deleted := (drains_guard w .funcDelete).trans (drains_deleteNative _ n)
  unfold deleteFunc
  dsimp only
  split
  · exact deleted.trans (drains_finalize _ n _)
  · exact deleted

theorem drains_releaseNative (w : World) (kind : HandleState) (n : NativeId) :
    Drains w (w.releaseNative kind n) := by
  have shown := (same_logAbout w n (.releasing kind.kindName)).drains
  unfold releaseNative
  cases kind with
  | memory _ => exact shown.trans ((drains_guard _ _).trans (drains_deleteNative _ n))
  | interrupt => exact shown.trans ((drains_guard _ _).trans (drains_deleteNative _ n))
  | func _ => exact shown.trans (drains_deleteFunc _ n)
  | view =>
      refine shown.trans ?_
      show Drains _ (deleteExtern _ n)
      unfold deleteExtern
      split
      · exact drains_deleteFunc _ n
      · exact (drains_guard _ _).trans (drains_deleteNative _ n)
      · exact .refl _

theorem drains_releaseQueue (kind : HandleState) (ns : List NativeId) (w : World) :
    Drains w (w.releaseQueue kind ns) := by
  induction ns generalizing w with
  | nil => exact .refl w
  | cons n rest ih => exact (drains_releaseNative w kind n).trans (ih _)

theorem drains_releaseBatch (w : World) (p : Pending) : Drains w (w.releaseBatch p) :=
  (drains_releaseQueue _ p.memories w).trans <| (drains_releaseQueue _ p.externs _).trans <|
    (drains_releaseQueue _ p.interrupts _).trans (drains_releaseQueue _ p.funcs _)

/-! ## The heap -/

/-- Changing an entry within its shape and without raising or ending its count. -/
theorem drains_modifyEntry {id : ObjId} {g : Entry → Entry}
    (keeps : ∀ e, w.entry? id = some e →
      (g e).object.shape = e.object.shape ∧ (g e).strong = e.strong)
    (attaches : ∀ e, w.entry? id = some e → ∀ c, closureOf (g e).object = some c →
      closureOf e.object = some c) :
    Drains w (w.modifyEntry id g) where
  shapes := shapes_modifyEntry fun e found => (keeps e found).1
  strong_le x := by
    cases found : w.entry? id with
    | none =>
        have heap := modifyEntry_of_none found g
        simp [World.strong, World.entry?, heap]
    | some e =>
        rw [strong_modifyEntry found]
        split
        · next same => rw [same, strong_eq found, (keeps e found).2]
        · exact Nat.le_refl _
  natives := rfl
  deletions_le _ := Nat.le_refl _
  frames := rfl
  ledger d := by
    have events : (w.modifyEntry id g).drops = w.drops := rfl
    rw [events]
    cases found : w.entry? id with
    | none => simp [fallen, gather, modifyEntry_of_none found g]
    | some e =>
        have gathered := gather_modifyEntry Entry.fallen g found d
        have same : (g e).fallen = e.fallen := by
          obtain ⟨shape, strong⟩ := keeps e found
          simp only [Entry.fallen, strong]
          rw [← Object.drop?_shape, shape, Object.drop?_shape]
        rw [same] at gathered
        unfold fallen
        omega
  attached holds := attached?_of_modifyEntry attaches holds

theorem drains_modifyPending (w : World) (store : ObjId) (f : Pending → Pending) :
    Drains w (w.modifyPending store f) := by
  apply drains_modifyEntry
  · rintro ⟨k, o⟩ -
    cases o <;> exact ⟨rfl, rfl⟩
  · rintro ⟨k, o⟩ - c
    cases o <;> exact id

theorem drains_detach (w : World) (env : ObjId) : Drains w (w.detach env).2 := by
  unfold detach
  split
  · next k c type store found =>
      apply drains_modifyEntry
      · intro e found'
        rw [found] at found'
        cases found'
        exact ⟨rfl, rfl⟩
      · intro e _ d attaches
        cases attaches
  · exact .refl w

/-- An object whose last reference is dropped: its end is reported once. -/
theorem drains_dispose {id : ObjId} {o : Object} (found : w.entry? id = some ⟨1, o⟩) :
    Drains w ((w.modifyEntry id fun e => { e with strong := 0 }).dispose id o).2 := by
  let dead := w.modifyEntry id fun e => { e with strong := 0 }
  have shapes : dead.shapes = w.shapes := shapes_modifyEntry fun _ _ => rfl
  have strong_le (x : ObjId) : dead.strong x ≤ w.strong x := by
    rw [strong_modifyEntry found]
    split
    · exact Nat.zero_le _
    · exact Nat.le_refl _
  have fallen (d : Drop) : dead.fallen.count d = w.fallen.count d + o.drop?.toList.count d := by
    have gathered := gather_modifyEntry Entry.fallen (fun e => { e with strong := 0 }) found d
    simpa [World.fallen, Entry.fallen] using gathered
  -- The end of an object that reports nothing, and of one that reports itself.
  have attached : dead.attached? = w.attached? := attached?_modifyEntry fun _ _ => rfl
  have silent (none : o.drop? = none) : Drains w dead := by
    refine ⟨shapes, strong_le, rfl, fun _ => Nat.le_refl _, rfl, fun d => ?_, by simp [attached]⟩
    rw [fallen d, none]
    rfl
  have reported {e : Event} (reports : e.drop? = o.drop?) (some : o.drop?.isSome = true) :
      Drains w (dead.emit e) := by
    refine ⟨shapes, strong_le, rfl, fun _ => Nat.le_refl _, rfl, fun d => ?_, fun {e c} holds => ?_⟩
    swap
    · rwa [← attached]
    obtain ⟨x, drop⟩ := Option.isSome_iff_exists.mp some
    have drops : (dead.emit e).drops = x :: w.drops := by
      simp [World.drops, emit, reports, drop, dead, World.modifyEntry]
    have kept : (dead.emit e).fallen = dead.fallen := rfl
    rw [kept, fallen d, drops, drop, Option.toList_some]
    simp only [List.count_cons, List.count_nil]
    omega
  cases o with
  | store native config p => exact silent rfl
  | env c type s => exact silent rfl
  | cell content => exact silent rfl
  | closure code captures => exact reported rfl rfl
  | referent label payload => exact reported rfl rfl
  | handle h =>
      unfold dispose
      dsimp only
      split
      · split
        · exact (silent rfl).trans (drains_detach _ _)
        · exact silent rfl
      · exact silent rfl

/-! ## Tasks -/

theorem drains_perform (w : World) (t : Task) : Drains w (w.perform t).2 := by
  cases t with
  | ref id =>
      unfold perform
      dsimp only
      split
      · exact .refl w
      · exact .refl w
      · next o found => exact drains_dispose found
      · next k o found =>
          have kept (x : ObjId) := strong_modifyEntry (w := w)
            (g := fun e => { e with strong := k + 1 }) found x
          have attached : (w.modifyEntry id fun e => { e with strong := k + 1 }).attached? =
              w.attached? := attached?_modifyEntry fun _ _ => rfl
          refine ⟨shapes_modifyEntry fun _ _ => rfl, fun x => ?_, rfl, fun _ => Nat.le_refl _, rfl,
            fun d => ?_, by simp [attached]⟩
          · rw [kept]
            split
            · next same => rw [same, strong_eq found]; exact Nat.le_succ _
            · exact Nat.le_refl _
          · have gathered := gather_modifyEntry Entry.fallen
              (fun e => { e with strong := k + 1 }) found d
            have before : Entry.fallen ⟨k + 2, o⟩ = [] := if_neg (Nat.succ_ne_zero _)
            have after : Entry.fallen ⟨k + 1, o⟩ = [] := if_neg (Nat.succ_ne_zero _)
            have events : (w.modifyEntry id fun e => { e with strong := k + 1 }).drops = w.drops :=
              rfl
            rw [before, after] at gathered
            simp only [fallen, events]
            omega
  | queue h => exact (drains_modifyPending w _ _).trans (same_logAbout _ _ _).drains
  | flush s total => exact (drains_modifyPending w _ _).trans (drains_releaseBatch _ _)
  | sweep s total again =>
      unfold perform
      dsimp only
      split
      · split
        · exact .refl w
        · dsimp only
          split
          · exact ⟨rfl, fun _ => Nat.le_refl _, rfl, fun _ => Nat.le_refl _, rfl, fun _ => rfl, id⟩
          · have logged := (same_log w (.released total)).drains
            exact ⟨logged.shapes, logged.strong_le, logged.natives, logged.deletions_le,
              logged.frames, logged.ledger, logged.attached⟩
      · exact ⟨rfl, fun _ => Nat.le_refl _, rfl, fun _ => Nat.le_refl _, rfl, fun _ => rfl, id⟩
  | deleteStore n =>
      exact (drains_guard w _).trans ((drains_deleteNative _ n).trans (same_logAbout _ _ _).drains)

theorem drains_drain (fuel : Nat) (tasks : List Task) (w : World) :
    Drains w (drain fuel tasks w).2 := by
  induction fuel generalizing tasks w with
  | zero => cases tasks <;> exact .refl w
  | succ fuel ih =>
      cases tasks with
      | nil => exact .refl w
      | cons t rest => exact (drains_perform w t).trans (ih _ _)

theorem drains_complete (w : World) (tasks : List Task) : Drains w (w.complete tasks) := by
  unfold complete
  split
  · exact .refl w
  · exact drains_drain _ tasks w

theorem drains_release (w : World) (id : ObjId) : Drains w (w.release id) :=
  (drains_perform w (.ref id)).trans (drains_complete _ _)

theorem drains_releaseAll (ids : List ObjId) (w : World) : Drains w (w.releaseAll ids) := by
  induction ids generalizing w with
  | nil => exact .refl w
  | cons id rest ih => exact (drains_release w id).trans (ih _)

theorem drains_flush (w : World) (store : ObjId) : Drains w (w.flush store) :=
  drains_complete w _

/-! ## Effort -/

/-- What all entries can still bring up. -/
def heapEffort (w : World) : Nat := (w.heap.toList.map entryEffort).sum

theorem effort_eq (w : World) (tasks : List Task) :
    w.effort tasks =
      (tasks.map taskEffort).sum + w.heapEffort + 4 * w.thread.retired.length := by
  have folded {α : Type} (f : α → Nat) (xs : List α) (n : Nat) :
      xs.foldl (fun n x => n + f x) n = n + (xs.map f).sum := by
    induction xs generalizing n with
    | nil => rfl
    | cons x rest ih =>
        rw [List.foldl_cons, ih, List.map_cons, List.sum_cons, Nat.add_assoc]
  rw [effort, ← Array.foldl_toList, folded, folded, Nat.zero_add, Nat.zero_add]
  rfl

theorem heapEffort_modifyEntry {id : ObjId} {e : Entry} (g : Entry → Entry)
    (found : w.entry? id = some e) :
    (w.modifyEntry id g).heapEffort + entryEffort e = w.heapEffort + entryEffort (g e) := by
  have inList : w.heap.toList[id.index]? = some e := by rw [← entry?_eq, found]
  have changed := sum_map_modify entryEffort g inList
  simpa [heapEffort, modifyEntry] using changed

theorem heapEffort_of_heap (same : v.heap = w.heap) : v.heapEffort = w.heapEffort := by
  rw [heapEffort, same, heapEffort]

/-- Deleting natives leaves the heap alone and hands back at most `k` environments. -/
structure Hands (w v : World) (k : Nat) : Prop where
  heap : v.heap = w.heap
  retired_le : v.thread.retired.length ≤ w.thread.retired.length + k

theorem Hands.trans {u : World} {j k : Nat} (first : Hands w v j) (second : Hands v u k) :
    Hands w u (j + k) where
  heap := second.heap.trans first.heap
  retired_le := by
    have before := first.retired_le
    have after := second.retired_le
    omega

theorem Same.hands (same : Same w v) : Hands w v 0 :=
  ⟨same.heap, by rw [same.thread]; exact Nat.le_refl _⟩

theorem hands_delete (w : World) (op : GuardedOp) (n : NativeId) (k : Nat) :
    Hands w ((w.guard op).deleteNative n) k := by
  unfold guard
  split
  · exact ⟨rfl, Nat.le_add_right _ _⟩
  · exact ⟨rfl, Nat.le_add_right _ _⟩

theorem hands_deleteFunc (w : World) (n : NativeId) : Hands w (w.deleteFunc n) 1 := by
  unfold deleteFunc
  dsimp only
  split
  · refine (hands_delete w .funcDelete n 0).trans (k := 1) ⟨rfl, ?_⟩
    simp [leaveFinalizer, retire, enterFinalizer, modifyThread, modifyNative]
  · exact hands_delete w .funcDelete n 1

theorem hands_releaseNative (w : World) (kind : HandleState) (n : NativeId) :
    Hands w (w.releaseNative kind n) 1 := by
  have shown := (same_logAbout w n (.releasing kind.kindName)).hands
  unfold releaseNative
  cases kind with
  | memory _ => exact shown.trans (hands_delete _ _ n 1)
  | interrupt => exact shown.trans (hands_delete _ _ n 1)
  | func _ => exact shown.trans (hands_deleteFunc _ n)
  | view =>
      refine shown.trans (k := 1) ?_
      show Hands _ (deleteExtern _ n) 1
      unfold deleteExtern
      split
      · exact hands_deleteFunc _ n
      · exact hands_delete _ _ n 1
      · exact ⟨rfl, Nat.le_add_right _ _⟩

theorem hands_releaseQueue (kind : HandleState) (ns : List NativeId) (w : World) :
    Hands w (w.releaseQueue kind ns) ns.length := by
  induction ns generalizing w with
  | nil => exact ⟨rfl, Nat.le_refl _⟩
  | cons n rest ih =>
      rw [List.length_cons, Nat.add_comm]
      exact (hands_releaseNative w kind n).trans (ih _)

theorem hands_releaseBatch (w : World) (p : Pending) : Hands w (w.releaseBatch p) p.size := by
  have size : p.size = p.memories.length + p.externs.length + p.interrupts.length +
      p.funcs.length := by
    simp [Pending.size, Pending.inOrder, Nat.add_assoc]
  rw [size]
  exact (((hands_releaseQueue _ p.memories w).trans (hands_releaseQueue _ p.externs _)).trans
    (hands_releaseQueue _ p.interrupts _)).trans (hands_releaseQueue _ p.funcs _)

/-- Changing the queues of a store changes one entry, which holds a store. -/
theorem modifyPending_eq (w : World) (store : ObjId) (f : Pending → Pending) :
    ∃ change : Entry → Entry, w.modifyPending store f = w.modifyEntry store change ∧
      (∀ k n c p, change ⟨k, .store n c p⟩ = ⟨k, .store n c (f p)⟩) ∧
        ∀ k o, (∀ n c p, o ≠ .store n c p) → change ⟨k, o⟩ = ⟨k, o⟩ := by
  refine ⟨_, rfl, fun k n c p => rfl, fun k o other => ?_⟩
  cases o with
  | store n c p => exact absurd rfl (other n c p)
  | _ => rfl

/-- Changing the queues of a store changes the effort by what they hold. -/
theorem heapEffort_modifyPending_le (w : World) (store : ObjId) (f : Pending → Pending) :
    (w.modifyPending store f).heapEffort + 8 * (w.pending store).size ≤
      w.heapEffort + 8 * (f (w.pending store)).size := by
  obtain ⟨change, same, onStore, onOther⟩ := modifyPending_eq w store f
  rw [same]
  cases found : w.entry? store with
  | none =>
      have empty : w.pending store = {} := by simp [pending, found]
      rw [heapEffort_of_heap (modifyEntry_of_none found _), empty]
      exact Nat.le_add_right _ _
  | some e =>
      obtain ⟨k, o⟩ := e
      have changed := heapEffort_modifyEntry change found
      suffices pays : entryEffort (change ⟨k, o⟩) + 8 * (w.pending store).size ≤
          entryEffort ⟨k, o⟩ + 8 * (f (w.pending store)).size by omega
      cases o with
      | store n c p =>
          have queues : w.pending store = p := by simp [pending, found]
          rw [queues, onStore]
          cases k <;> simp only [entryEffort] <;> omega
      | _ =>
          have empty : w.pending store = {} := by simp [pending, found]
          rw [empty, onOther k _ fun n c p same => by cases same]
          exact Nat.add_le_add_left (Nat.zero_le _) _

/-- Detaching brings up at most one reference, and the environment pays for it. -/
theorem effort_detach_le (w : World) (env : ObjId) :
    ((w.detach env).1.map taskEffort).sum ≤ 1 ∧ (w.detach env).2.heapEffort ≤ w.heapEffort ∧
      (w.detach env).2.thread = w.thread := by
  unfold detach
  split
  · next k c type store found =>
      refine ⟨Nat.le_refl _, ?_, rfl⟩
      have changed : (w.setObject env (.env none type store)).heapEffort +
          entryEffort ⟨k, .env (some c) type store⟩ =
            w.heapEffort + entryEffort ⟨k, .env none type store⟩ :=
        heapEffort_modifyEntry _ found
      have pays : entryEffort ⟨k, .env none type store⟩ ≤
          entryEffort ⟨k, .env (some c) type store⟩ := by
        cases k <;> simp [entryEffort, Object.refs]
      show (w.setObject env (.env none type store)).heapEffort ≤ w.heapEffort
      omega
  · exact ⟨Nat.zero_le _, Nat.le_refl _, rfl⟩

theorem sum_taskEffort_refs (ids : List ObjId) :
    ((ids.map Task.ref).map taskEffort).sum = ids.length := by
  induction ids with
  | nil => rfl
  | cons id rest ih =>
      rw [List.map_cons, List.map_cons, List.sum_cons, ih, List.length_cons, taskEffort,
        Nat.add_comm]

/-- What a dropped object brings up costs no more than the object did. -/
theorem effort_dispose_le {id : ObjId} {o : Object} (found : w.entry? id = some ⟨1, o⟩) :
    let dead := w.modifyEntry id fun e => { e with strong := 0 }
    ((dead.dispose id o).1.map taskEffort).sum + (dead.dispose id o).2.heapEffort ≤
        w.heapEffort ∧
      (dead.dispose id o).2.thread = w.thread := by
  intro dead
  have changed : dead.heapEffort + entryEffort ⟨1, o⟩ = w.heapEffort + entryEffort ⟨0, o⟩ :=
    heapEffort_modifyEntry _ found
  have shown (e : Event) : (dead.emit e).heapEffort = dead.heapEffort := rfl
  cases o with
  | store n c p =>
      refine ⟨?_, rfl⟩
      simp only [dispose, List.map_cons, List.map_nil, List.sum_cons, List.sum_nil, taskEffort]
      simp only [entryEffort] at changed
      omega
  | env c t s =>
      refine ⟨?_, rfl⟩
      simp only [dispose, sum_taskEffort_refs]
      simp only [entryEffort] at changed
      omega
  | cell content =>
      refine ⟨?_, rfl⟩
      simp only [dispose, sum_taskEffort_refs]
      simp only [entryEffort] at changed
      omega
  | closure code captures =>
      refine ⟨?_, rfl⟩
      simp only [dispose, sum_taskEffort_refs, shown]
      simp only [entryEffort, Object.refs] at changed
      omega
  | referent label payload =>
      refine ⟨?_, rfl⟩
      simp only [dispose, sum_taskEffort_refs, shown]
      simp only [entryEffort, Object.refs] at changed
      omega
  | handle h =>
      simp only [entryEffort, Object.refs] at changed
      unfold dispose
      dsimp only
      split
      · split
        · next env held =>
            obtain ⟨tasks, effort, thread⟩ := effort_detach_le dead env
            refine ⟨?_, thread⟩
            simp only [List.map_append, List.sum_append, List.map_cons, List.sum_cons,
              sum_taskEffort_refs, taskEffort]
            omega
        · refine ⟨?_, rfl⟩
          simp only [List.nil_append, List.map_cons, List.sum_cons, sum_taskEffort_refs, taskEffort]
          omega
      · refine ⟨?_, rfl⟩
        simp only [sum_taskEffort_refs]
        omega

/-- Every task brings up less than it was. -/
theorem effort_perform_lt (w : World) (t : Task) (rest : List Task) :
    (w.perform t).2.effort ((w.perform t).1 ++ rest) < w.effort (t :: rest) := by
  suffices step : ((w.perform t).1.map taskEffort).sum + (w.perform t).2.heapEffort +
      4 * (w.perform t).2.thread.retired.length <
        taskEffort t + w.heapEffort + 4 * w.thread.retired.length by
    rw [effort_eq, effort_eq, List.map_append, List.sum_append, List.map_cons, List.sum_cons]
    omega
  cases t with
  | ref id =>
      unfold perform
      dsimp only [taskEffort]
      split
      · simp
      · simp
      · next o found =>
          obtain ⟨effort, thread⟩ := effort_dispose_le found
          rw [thread]
          omega
      · next k o found =>
          have changed : (w.modifyEntry id fun e => { e with strong := k + 1 }).heapEffort +
              entryEffort ⟨k + 2, o⟩ = w.heapEffort + entryEffort ⟨k + 1, o⟩ :=
            heapEffort_modifyEntry _ found
          have same : entryEffort ⟨k + 2, o⟩ = entryEffort ⟨k + 1, o⟩ := by cases o <;> rfl
          have thread : (w.modifyEntry id fun e => { e with strong := k + 1 }).thread = w.thread :=
            rfl
          rw [thread]
          simp only [List.map_nil, List.sum_nil]
          omega
  | queue h =>
      have pushed := heapEffort_modifyPending_le w h.store fun p => p.push h.native h.state
      have size : ((w.pending h.store).push h.native h.state).size =
          (w.pending h.store).size + 1 := by
        cases h.state <;> simp [Pending.push, Pending.size, Pending.inOrder] <;> omega
      have shown := same_logAbout (w.modifyPending h.store fun p => p.push h.native h.state)
        h.native (.deferred h.state.kindName)
      have heap := heapEffort_of_heap shown.heap
      have thread : (w.perform (.queue h)).2.thread = w.thread := shown.thread
      rw [thread]
      show 0 + heapEffort (logAbout _ _ _) + _ < 9 + _ + _
      omega
  | flush s total =>
      have cleared := heapEffort_modifyPending_le w s fun _ => {}
      have hands := hands_releaseBatch (w.modifyPending s fun _ => {}) (w.pending s)
      have heap := heapEffort_of_heap hands.heap
      have retired := hands.retired_le
      have thread : (w.modifyPending s fun _ => {}).thread = w.thread := rfl
      have none : Pending.size {} = 0 := rfl
      rw [thread] at retired
      show (if decide ((w.pending s).size ≠ 0) then 4 else 2) + 0 + heapEffort (releaseBatch _ _) +
        4 * (releaseBatch _ _).thread.retired.length < 3 + _ + _
      split
      · next some =>
          have some := of_decide_eq_true some
          omega
      · omega
  | sweep s total again =>
      unfold perform
      dsimp only [taskEffort]
      split
      · next none =>
          split
          · simp [taskEffort]
          · have logged := (same_log w (.released total)).hands
            have heap := heapEffort_of_heap logged.heap
            have kept := (same_log w (.released total)).thread
            dsimp only
            split
            · show 0 + w.heapEffort + _ < _
              omega
            · show 0 + (w.log _).heapEffort + 4 * (w.log _).thread.retired.length < _
              rw [heap, kept]
              omega
      · next envs some =>
          simp only [List.map_append, List.sum_append, List.map_cons, List.map_nil, List.sum_cons,
            List.sum_nil, sum_taskEffort_refs, taskEffort, modifyThread, List.length_nil]
          have length : w.thread.retired.length ≠ 0 := by
            intro zero
            exact some (List.length_eq_zero_iff.mp zero)
          have heap : heapEffort { w with thread := { w.thread with retired := [] } } =
            w.heapEffort := rfl
          have cost : 2 ≤ if again = true then 4 else 2 := by split <;> decide
          rw [heap, if_pos trivial]
          omega
  | deleteStore n =>
      have shown := (hands_delete w .storeDelete n 0).trans
        (same_logAbout ((w.guard .storeDelete).deleteNative n) n .deletedStore).hands
      have heap := heapEffort_of_heap shown.heap
      have retired := shown.retired_le
      show 0 + heapEffort (logAbout _ _ _) + 4 * (logAbout _ _ _).thread.retired.length < 1 + _ + _
      omega

/-- A drain with enough fuel does all its tasks. -/
theorem drain_done {fuel : Nat} {tasks : List Task} {w : World} (enough : w.effort tasks ≤ fuel) :
    (drain fuel tasks w).1 = [] := by
  induction fuel generalizing tasks w with
  | zero =>
      cases tasks with
      | nil => rfl
      | cons t rest =>
          have less := effort_perform_lt w t rest
          omega
  | succ fuel ih =>
      cases tasks with
      | nil => rfl
      | cons t rest =>
          have less := effort_perform_lt w t rest
          exact ih (Nat.le_of_lt_succ (Nat.lt_of_lt_of_le less enough))

end HostEmbedding.World
