import HostEmbedding.Proofs.Ownership.Releasing

/-!
# Releasing keeps the account

The references and natives that the remaining tasks stand for are part of the account, so each task
only moves what it touches from one place to another. When no task is left the world is sound:
nothing is on its way and the queues of dead stores are empty.
-/

namespace HostEmbedding

/-! ## Tasks -/

namespace Task

def refs : Task → List ObjId
  | .ref id => [id]
  | _ => []

def natives : Task → List NativeId
  | .queue h => [h.native]
  | .deleteStore n => [n]
  | _ => []

def Flushes (s : ObjId) : Task → Prop
  | .flush t _ => t = s
  | .sweep t _ again => t = s ∧ again = true
  | _ => False

def Sweeps : Task → Prop
  | .sweep .. => True
  | _ => False

def Fits (Γ : Shapes) : Task → Prop
  | .ref _ => True
  | .queue h => ∃ i, Γ.IsHandle i h ∧ h.owner = none
  | .flush s _ => ∃ n, Γ.IsStore s n
  | .sweep s _ _ => ∃ n, Γ.IsStore s n
  | .deleteStore n => ∃ config, Γ.native? n = some (.store ⟨config, false, 0⟩)

/-- Every handle that is still to be queued keeps its store until then. -/
def Anchored : List Task → Prop
  | [] => True
  | .queue h :: rest => .ref h.store ∈ rest ∧ Anchored rest
  | _ :: rest => Anchored rest

theorem anchored_tail {t : Task} {rest : List Task} (anchored : Anchored (t :: rest)) :
    Anchored rest := by
  cases t with
  | queue h => exact anchored.2
  | _ => exact anchored

theorem anchored_refs {ids : List ObjId} {rest : List Task} (anchored : Anchored rest) :
    Anchored (ids.map .ref ++ rest) := by
  induction ids with
  | nil => exact anchored
  | cons id ids ih => exact ih

@[simp]
theorem flatMap_refs_ref (ids : List ObjId) : (ids.map Task.ref).flatMap refs = ids := by
  induction ids with
  | nil => rfl
  | cons id rest ih => simp [refs, ih]

@[simp]
theorem flatMap_natives_ref (ids : List ObjId) : (ids.map Task.ref).flatMap natives = [] := by
  induction ids with
  | nil => rfl
  | cons id rest ih => simp [natives, ih]

end Task

namespace Pending

theorem mem_push {p : Pending} {n x : NativeId} {state kind : HandleState} :
    x ∈ (p.push n state).ofKind kind ↔ x ∈ p.ofKind kind ∨ x = n ∧ state.erase = kind.erase := by
  cases state <;> cases kind <;> simp [push, ofKind, HandleState.erase]

theorem count_push (p : Pending) (n x : NativeId) (state : HandleState) :
    (p.push n state).inOrder.count x = p.inOrder.count x + [n].count x := by
  cases state <;> simp only [push, inOrder, List.count_append] <;> omega

end Pending

namespace World

variable {w v : World} {held held' : List ObjId} {moving : List NativeId}

/-- The account in the middle of releasing work: what the remaining tasks stand for is part of it. -/
structure Draining (w : World) (held : List ObjId) (tasks : List Task) : Prop where
  acc : w.Accounted (tasks.flatMap Task.refs ++ held) (tasks.flatMap Task.natives)
  fits : ∀ t ∈ tasks, t.Fits w.shapes
  anchored : Task.Anchored tasks
  rested : ∀ s, w.strong s = 0 → w.pending s ≠ {} → ∃ t ∈ tasks, t.Flushes s
  swept : w.thread.retired ≠ [] → ∃ t ∈ tasks, t.Sweeps
  finalized : w.Finalized

/-- The account between operations: nothing is on its way and the queues of dead stores are empty. -/
structure Sound (w : World) (held : List ObjId) : Prop extends Accounted w held [] where
  rested : ∀ s, w.strong s = 0 → w.pending s = {}
  retired : w.thread.retired = []
  finalized : w.Finalized

theorem Draining.sound (draining : w.Draining held []) : w.Sound held where
  toAccounted := draining.acc
  rested s dead := by
    by_contra busy
    obtain ⟨t, impossible, -⟩ := draining.rested s dead busy
    cases impossible
  retired := by
    by_contra busy
    obtain ⟨t, impossible, -⟩ := draining.swept busy
    cases impossible
  finalized := draining.finalized

theorem Sound.draining (sound : w.Sound held') {tasks : List Task}
    (acc : w.Accounted (tasks.flatMap Task.refs ++ held) (tasks.flatMap Task.natives))
    (fits : ∀ t ∈ tasks, t.Fits w.shapes) (anchored : Task.Anchored tasks) :
    w.Draining held tasks :=
  ⟨acc, fits, anchored, fun s dead busy => absurd (sound.rested s dead) busy,
    fun busy => absurd sound.retired busy, sound.finalized⟩

theorem Accounted.emit (acc : w.Accounted held moving) (e : Event) :
    (w.emit e).Accounted held moving :=
  ⟨⟨acc.objects, acc.claimsUnique, acc.envsUnique, acc.counted, acc.placed, acc.finalizing,
    acc.aborted⟩, acc.claimsTotal, acc.attached, acc.attachedOwned⟩

/-- A dropped object hands everything to the tasks it brings up. -/
theorem Accounted.dispose {id : ObjId} {o : Object} (acc : w.Accounted (id :: held) moving)
    (found : w.entry? id = some ⟨1, o⟩) :
    let r := (w.modifyEntry id fun e => { e with strong := 0 }).dispose id o
    r.2.Accounted (r.1.flatMap Task.refs ++ held) (r.1.flatMap Task.natives ++ moving) := by
  cases o with
  | store n c p => exact acc.kill found fun h impossible => by cases impossible
  | env c t s =>
      have killed := acc.kill found fun h impossible => by cases impossible
      simpa [World.dispose, Object.claim?] using killed
  | cell content =>
      have killed := acc.kill found fun h impossible => by cases impossible
      simpa [World.dispose, Object.claim?] using killed
  | closure code captures =>
      have killed := acc.kill found fun h impossible => by cases impossible
      simpa [World.dispose, Object.claim?, Object.refs] using killed.emit _
  | referent label payload =>
      have killed := acc.kill found fun h impossible => by cases impossible
      simpa [World.dispose, Object.claim?, Object.refs] using killed.emit _
  | handle h =>
      have known : w.shapes.IsHandle id h := isHandle_iff.mpr ⟨1, found⟩
      cases env : h.state.env? with
      | none =>
          have killed := acc.kill found fun h' same => by cases same; exact env
          cases owner : h.owner with
          | none =>
              simpa [World.dispose, Handle.isOwning, owner, env, Task.refs, Task.natives,
                Object.claim?, Object.refs] using killed
          | some x =>
              simpa [World.dispose, Handle.isOwning, owner, Object.claim?, Object.refs] using killed
      | some e =>
          obtain ⟨owner, -⟩ := acc.env_known known env
          obtain ⟨c, tasks, detached⟩ := acc.detach found env
          have owning : h.isOwning = true := by simp [Handle.isOwning, owner]
          simp only [World.dispose, owning, if_true, env, tasks, List.cons_append, List.nil_append,
            List.flatMap_cons, Task.flatMap_refs_ref, Task.flatMap_natives_ref]
          simpa [Task.refs, Task.natives, Object.claim?, owning] using detached

/-- What remains to be done for a dropped object is of its kind. -/
theorem Balanced.dispose_fits {id : ObjId} {o : Object} (bal : w.Balanced held moving)
    (found : w.entry? id = some ⟨1, o⟩) (dead : World) :
    ∀ t ∈ (dead.dispose id o).1, t.Fits w.shapes := by
  have object := bal.objects found
  have refs (ids : List ObjId) : ∀ t ∈ ids.map Task.ref, t.Fits w.shapes := by
    intro t mem
    obtain ⟨x, -, rfl⟩ := List.mem_map.mp mem
    trivial
  cases o with
  | store n c p =>
      intro t mem
      simp only [World.dispose, List.mem_cons, List.not_mem_nil, or_false] at mem
      rcases mem with rfl | rfl
      · exact ⟨n, isStore_iff.mpr ⟨1, c, p, found⟩⟩
      · exact ⟨c, object.1⟩
  | handle h =>
      intro t mem
      unfold World.dispose at mem
      dsimp only at mem
      split at mem
      · next owning =>
          have owner : h.owner = none := by simpa [Handle.isOwning] using owning
          rcases List.mem_append.mp mem with mem | mem
          · split at mem
            · unfold World.detach at mem
              split at mem
              · cases List.mem_singleton.mp mem
                trivial
              · cases mem
            · cases mem
          · rcases List.mem_cons.mp mem with rfl | mem
            · exact ⟨id, isHandle_iff.mpr ⟨1, found⟩, owner⟩
            · exact refs h.refs t mem
      · exact refs h.refs t mem
  | env c t s => exact refs _
  | cell content => exact refs _
  | closure code captures => exact refs _
  | referent label payload => exact refs _

theorem dispose_anchored (dead : World) (id : ObjId) (o : Object) {rest : List Task}
    (anchored : Task.Anchored rest) : Task.Anchored ((dead.dispose id o).1 ++ rest) := by
  cases o with
  | store n c p => exact anchored
  | handle h =>
      have tail : Task.Anchored (.queue h :: h.refs.map .ref ++ rest) :=
        ⟨List.mem_append_left _ (List.mem_map_of_mem List.mem_cons_self),
          Task.anchored_refs anchored⟩
      unfold World.dispose
      dsimp only
      split
      · split
        · unfold World.detach
          split
          · exact tail
          · exact tail
        · exact tail
      · exact Task.anchored_refs anchored
  | env c t s => exact Task.anchored_refs anchored
  | cell content => exact Task.anchored_refs anchored
  | closure code captures => exact Task.anchored_refs anchored
  | referent label payload => exact Task.anchored_refs anchored

/-- The end of an object changes the heap and what is shown, and nothing else. -/
theorem dispose_eq (w : World) (id : ObjId) (o : Object) :
    ∃ heap events, (w.dispose id o).2 = { w with heap := heap, events := events } := by
  have detached (e : ObjId) : ∃ heap events, (w.detach e).2 = { w with heap := heap, events := events } := by
    unfold World.detach
    split
    · exact ⟨_, _, rfl⟩
    · exact ⟨_, _, rfl⟩
  cases o with
  | handle h =>
      unfold World.dispose
      dsimp only
      split
      · split
        · exact detached _
        · exact ⟨_, _, rfl⟩
      · exact ⟨_, _, rfl⟩
  | _ => exact ⟨_, _, rfl⟩

theorem natives_dispose (w : World) (id : ObjId) (o : Object) : (w.dispose id o).2.natives = w.natives := by
  obtain ⟨heap, events, same⟩ := dispose_eq w id o
  rw [same]

theorem Finalized.of_natives (finalized : w.Finalized) (same : v.natives = w.natives) : v.Finalized := by
  intro n f found
  have known : w.nativeObject? n = some (.func f) := by
    simpa only [nativeObject?, bodies, same] using found
  simpa only [finalizations, deletions, bodies, same] using finalized n f known

/-- The end of an object ends its count and leaves all queues as they are. -/
theorem dispose_kept {id : ObjId} {o : Object} (found : w.entry? id = some ⟨1, o⟩) :
    let r := (w.modifyEntry id fun e => { e with strong := 0 }).dispose id o
    (∀ x, r.2.strong x = if x = id then 0 else w.strong x) ∧ r.2.pending = w.pending ∧
      r.2.thread = w.thread := by
  intro r
  let dead := w.modifyEntry id fun e => { e with strong := 0 }
  have strong (x : ObjId) : dead.strong x = if x = id then 0 else w.strong x :=
    strong_modifyEntry found x
  have pending : dead.pending = w.pending := pending_modifyEntry fun _ _ => rfl
  have detached (e : ObjId) : (∀ x, (dead.detach e).2.strong x = dead.strong x) ∧
      (dead.detach e).2.pending = dead.pending ∧ (dead.detach e).2.thread = dead.thread := by
    unfold World.detach
    split
    · next k c t s found' =>
        refine ⟨fun x => by rw [(empties_setObject found').strong], ?_, rfl⟩
        refine pending_modifyEntry fun x same => ?_
        rw [found'] at same
        cases same
        rfl
    · exact ⟨fun _ => rfl, rfl, rfl⟩
  have plain : (∀ x, dead.strong x = if x = id then 0 else w.strong x) ∧ dead.pending = w.pending ∧
      dead.thread = w.thread := ⟨strong, pending, rfl⟩
  cases o with
  | handle h =>
      show (∀ x, (dead.dispose id (.handle h)).2.strong x = _) ∧
        (dead.dispose id (.handle h)).2.pending = _ ∧ (dead.dispose id (.handle h)).2.thread = _
      unfold World.dispose
      dsimp only
      split
      · split
        · next e held =>
            obtain ⟨same, queues, thread⟩ := detached e
            exact ⟨fun x => (same x).trans (strong x), queues.trans pending, thread⟩
        · exact plain
      · exact plain
  | store n c p => exact plain
  | env c t s => exact plain
  | cell content => exact plain
  | closure code captures => exact plain
  | referent label payload => exact plain

/-! ## One task -/

theorem Draining.rested_tail {t : Task} {rest : List Task} (draining : w.Draining held (t :: rest))
    (idle : ∀ s, ¬ t.Flushes s) (s : ObjId) (dead : w.strong s = 0) (busy : w.pending s ≠ {}) :
    ∃ t ∈ rest, t.Flushes s :=
  ((List.exists_mem_cons_iff _ _ _).mp (draining.rested s dead busy)).resolve_left (idle s)

theorem Draining.swept_tail {t : Task} {rest : List Task} (draining : w.Draining held (t :: rest))
    (idle : ¬ t.Sweeps) (busy : w.thread.retired ≠ []) : ∃ t ∈ rest, t.Sweeps :=
  ((List.exists_mem_cons_iff _ _ _).mp (draining.swept busy)).resolve_left idle

theorem Draining.fits_tail {t : Task} {rest : List Task} (draining : w.Draining held (t :: rest)) :
    ∀ t ∈ rest, t.Fits w.shapes :=
  fun t mem => draining.fits t (List.mem_cons_of_mem _ mem)

theorem Draining.ref {id : ObjId} {rest : List Task} (draining : w.Draining held (.ref id :: rest)) :
    (w.perform (.ref id)).2.Draining held ((w.perform (.ref id)).1 ++ rest) := by
  have acc : w.Accounted (id :: (rest.flatMap Task.refs ++ held)) (rest.flatMap Task.natives) :=
    draining.acc
  have alive : w.strong id ≠ 0 := by
    rw [acc.counted id, List.count_cons_self]
    omega
  obtain ⟨⟨k, o⟩, found, positive⟩ := exists_entry_of_strong alive
  have fits := draining.fits_tail
  have anchored := Task.anchored_tail draining.anchored
  have rested := draining.rested_tail fun s => not_false
  have swept := draining.swept_tail not_false
  have shapes := (drains_perform w (.ref id)).shapes
  unfold perform at shapes ⊢
  dsimp only at shapes ⊢
  rw [found] at shapes ⊢
  match k, found, positive with
  | 0, _, positive => exact absurd rfl positive
  | 1, found, _ =>
      have disposed := acc.dispose found
      have named := acc.dispose_fits found (w.modifyEntry id fun e => { e with strong := 0 })
      obtain ⟨strong, pending, thread⟩ := dispose_kept found
      refine ⟨?_, fun t mem => ?_, dispose_anchored _ id o anchored, fun s dead busy => ?_,
        fun busy => ?_, draining.finalized.of_natives (natives_dispose _ id o)⟩
      · simpa [List.flatMap_append, List.append_assoc] using disposed
      · rw [shapes]
        rcases List.mem_append.mp mem with mem | mem
        · exact named t mem
        · exact fits t mem
      · dsimp only at dead busy
        rw [pending] at busy
        rw [strong] at dead
        split at dead
        · next same =>
            subst same
            cases o with
            | store n c p =>
                exact ⟨.flush s 0, List.mem_append_left _ List.mem_cons_self, rfl⟩
            | _ => exact absurd (by simp [pending_eq, found, queuesOf]) busy
        · obtain ⟨t, mem, flushes⟩ := rested s dead busy
          exact ⟨t, List.mem_append_right _ mem, flushes⟩
      · dsimp only at busy
        rw [thread] at busy
        obtain ⟨t, mem, sweeps⟩ := swept busy
        exact ⟨t, List.mem_append_right _ mem, sweeps⟩
  | n + 2, found, _ =>
      have pending : (w.modifyEntry id fun e => { e with strong := n + 1 }).pending = w.pending :=
        pending_modifyEntry fun _ _ => rfl
      have attached : (w.modifyEntry id fun e => { e with strong := n + 1 }).attached? =
          w.attached? := attached?_modifyEntry fun _ _ => rfl
      have zero (x : ObjId) : (w.modifyEntry id fun e => { e with strong := n + 1 }).strong x = 0 ↔
          w.strong x = 0 := by
        rw [strong_modifyEntry found]
        split
        · next same =>
            rw [same, strong_eq found]
            simp
        · rfl
      have object : o.Fits w.shapes id := acc.objects found
      have bal : (w.modifyEntry id fun e => { e with strong := n + 1 }).Balanced
          (rest.flatMap Task.refs ++ held) (rest.flatMap Task.natives) := by
        refine acc.toBalanced.modifyEntry found rfl object (fun x => ?_) fun n => rfl
        have before : Entry.owned ⟨n + 2, o⟩ = o.refs := if_neg (Nat.succ_ne_zero _)
        have after : Entry.owned ⟨n + 1, o⟩ = o.refs := if_neg (Nat.succ_ne_zero _)
        rw [before, after, List.count_cons]
        by_cases same : x = id
        · subst same
          simp only [if_true, beq_self_eq_true]
          omega
        · simp only [same, if_false, beq_iff_eq, Ne.symm same]
          omega
      refine ⟨⟨bal, ?_, ?_, ?_⟩, ?_, anchored, fun s dead busy => ?_, swept, draining.finalized⟩
      · dsimp only
        rw [shapes]
        exact acc.claimsTotal
      · intro i h e known env
        dsimp only at known ⊢
        rw [shapes] at known
        rw [zero, attached]
        exact acc.attached known env
      · intro e c holds
        dsimp only at holds ⊢
        rw [attached] at holds
        rw [shapes]
        exact acc.attachedOwned holds
      · dsimp only
        rw [shapes]
        exact fits
      · dsimp only at dead busy
        rw [zero] at dead
        rw [pending] at busy
        exact rested s dead busy

theorem Draining.queue {h : Handle} {rest : List Task}
    (draining : w.Draining held (.queue h :: rest)) :
    (w.perform (.queue h)).2.Draining held rest := by
  have acc : w.Accounted (rest.flatMap Task.refs ++ held) (h.native :: rest.flatMap Task.natives) :=
    draining.acc
  obtain ⟨i, known, owner⟩ := draining.fits _ List.mem_cons_self
  obtain ⟨kept, anchored⟩ := draining.anchored
  obtain ⟨k, found⟩ := isHandle_iff.mp known
  have handle : h.Fits w.shapes := acc.objects found
  obtain ⟨n, isStore, -⟩ := handle.state
  -- The handle still holds its store, so the queue is not that of a dead store.
  have storeAlive : w.strong h.store ≠ 0 := by
    have mem : h.store ∈ rest.flatMap Task.refs ++ held :=
      List.mem_append_left _ (List.mem_flatMap.mpr ⟨_, kept, List.mem_singleton_self _⟩)
    have positive := List.count_pos_iff.mpr mem
    rw [acc.counted]
    omega
  let queued := w.modifyPending h.store fun p => p.push h.native h.state
  have shown : Same queued (w.perform (.queue h)).2 := same_logAbout _ _ _
  have shapes : queued.shapes = w.shapes := (drains_modifyPending w _ _).shapes
  have moved : queued.Accounted (rest.flatMap Task.refs ++ held) (rest.flatMap Task.natives) := by
    refine acc.modifyPending isStore (fun fits kind x mem => ?_) fun x => ?_
    · rcases Pending.mem_push.mp mem with mem | ⟨rfl, same⟩
      · exact fits kind x mem
      · exact ⟨i, h, known, owner, rfl, rfl, same⟩
    · rw [Pending.count_push]
      simp only [List.count_cons, List.count_nil]
      omega
  have finalized : queued.Finalized := draining.finalized
  refine ⟨moved.same shown, ?_, anchored, fun s dead busy => ?_, fun busy => ?_, finalized.same shown⟩
  · rw [shown.shapes, shapes]
    exact draining.fits_tail
  · rw [shown.strong, strong_modifyPending] at dead
    rw [shown.pending, pending_modifyPending isStore] at busy
    split at busy
    · next same =>
        subst same
        exact absurd dead storeAlive
    · exact draining.rested_tail (fun s => not_false) s dead busy
  · rw [shown.thread] at busy
    exact draining.swept_tail not_false busy

/-- The queues of a store that is flushed are taken out of the account, each object on its way. -/
theorem Draining.batch {s : ObjId} {total : Nat} {rest : List Task}
    (draining : w.Draining held (.flush s total :: rest)) :
    (w.modifyPending s fun _ => {}).Accounted (rest.flatMap Task.refs ++ held)
        ((w.pending s).inOrder ++ rest.flatMap Task.natives) ∧
      (w.pending s).Fits (w.modifyPending s fun _ => {}).shapes s := by
  have acc : w.Accounted (rest.flatMap Task.refs ++ held) (rest.flatMap Task.natives) :=
    draining.acc
  obtain ⟨n, isStore⟩ := draining.fits _ List.mem_cons_self
  obtain ⟨k, c, p, found⟩ := isStore_iff.mp isStore
  have queues : w.pending s = p := by simp [pending, found]
  have object : Object.Fits w.shapes s (.store n c p) := acc.objects found
  refine ⟨acc.modifyPending isStore (fun _ kind x mem => ?_) fun x => ?_, ?_⟩
  · cases kind <;> cases mem
  · rw [List.count_append]
    simp only [Pending.inOrder, List.nil_append, List.count_nil]
    omega
  · rw [(drains_modifyPending w _ _).shapes, queues]
    exact object.2

theorem Draining.flush {s : ObjId} {total : Nat} {rest : List Task}
    (draining : w.Draining held (.flush s total :: rest)) :
    (w.perform (.flush s total)).2.Draining held ((w.perform (.flush s total)).1 ++ rest) := by
  obtain ⟨n, isStore⟩ := draining.fits _ List.mem_cons_self
  let cleared := w.modifyPending s fun _ => {}
  obtain ⟨moved, batch⟩ := draining.batch
  have released := moved.releaseBatch batch
  have finalized : cleared.Finalized := draining.finalized
  have drains := drains_perform w (.flush s total)
  have hands := hands_releaseBatch cleared (w.pending s)
  have anchored : Task.Anchored rest := draining.anchored
  refine ⟨released, ?_, anchored, fun x dead busy => ?_, fun _ =>
    ⟨_, List.mem_cons_self, trivial⟩, finalized.releaseBatch moved batch⟩
  · rw [drains.shapes]
    intro t mem
    rcases List.mem_cons.mp mem with rfl | mem
    · exact ⟨n, isStore⟩
    · exact draining.fits_tail t mem
  · have strong : (w.perform (.flush s total)).2.strong = w.strong :=
      (strong_of_heap hands.heap).trans (strong_modifyPending w s _)
    have pending : (w.perform (.flush s total)).2.pending = cleared.pending :=
      pending_of_heap hands.heap
    rw [strong] at dead
    rw [pending, pending_modifyPending isStore] at busy
    split at busy
    · exact absurd rfl busy
    · next other =>
        obtain ⟨t, mem, flushes⟩ := draining.rested x dead busy
        rcases List.mem_cons.mp mem with rfl | mem
        · exact absurd flushes.symm other
        · exact ⟨t, List.mem_cons_of_mem _ mem, flushes⟩

theorem Draining.sweep {s : ObjId} {total : Nat} {again : Bool} {rest : List Task}
    (draining : w.Draining held (.sweep s total again :: rest)) :
    (w.perform (.sweep s total again)).2.Draining held
      ((w.perform (.sweep s total again)).1 ++ rest) := by
  have acc : w.Accounted (rest.flatMap Task.refs ++ held) (rest.flatMap Task.natives) :=
    draining.acc
  have anchored : Task.Anchored rest := draining.anchored
  have isStore : ∃ n, w.shapes.IsStore s n := draining.fits _ List.mem_cons_self
  have stillRested (first : List Task) (flushes : again = true → ∃ t ∈ first, t.Flushes s)
      (x : ObjId) (dead : w.strong x = 0) (busy : w.pending x ≠ {}) :
      ∃ t ∈ first ++ rest, t.Flushes x := by
    obtain ⟨t, mem, flush⟩ := draining.rested x dead busy
    rcases List.mem_cons.mp mem with rfl | mem
    · obtain ⟨rfl, again⟩ := flush
      obtain ⟨t, mem, flush⟩ := flushes again
      exact ⟨t, List.mem_append_left _ mem, flush⟩
    · exact ⟨t, List.mem_append_right _ mem, flush⟩
  unfold perform
  dsimp only
  split
  · next none =>
      split
      · next again =>
          refine ⟨acc, ?_, anchored, ?_, fun busy => absurd none busy, draining.finalized⟩
          · intro t mem
            rcases List.mem_cons.mp mem with rfl | mem
            · exact isStore
            · exact draining.fits_tail t mem
          · exact stillRested [.flush s total] fun _ => ⟨_, List.mem_cons_self, rfl⟩
      · next once =>
          have logged (u : World) (same : Same w u) (n : Nat) :
              ({ u with lastFlush := n } : World).Draining held rest := by
            have same' : Same w { u with lastFlush := n } :=
              ⟨same.heap, same.bodies, same.thread, same.aborted, same.drops, same.finalizations⟩
            refine ⟨acc.same same', ?_, anchored, ?_, fun busy => ?_, draining.finalized.same same'⟩
            · rw [same'.shapes]
              exact draining.fits_tail
            · rw [same'.strong, same'.pending]
              exact stillRested [] fun again => absurd again once
            · rw [same'.thread] at busy
              exact absurd none busy
          dsimp only
          split
          · exact logged w (.refl w) total
          · exact logged _ (same_log w _) total
  · next envs some =>
      let moved := w.modifyThread fun t => { t with retired := [] }
      have acc' : moved.Accounted (w.thread.retired ++ (rest.flatMap Task.refs ++ held))
          (rest.flatMap Task.natives) := by
        refine acc.rethread rfl rfl rfl acc.finalizing fun id => ?_
        have none : moved.thread.retired = [] := rfl
        rw [none, List.count_append, List.count_nil]
        omega
      refine ⟨?_, ?_, ?_, ?_, fun busy => absurd rfl busy, draining.finalized⟩
      · simpa [List.flatMap_append, Task.refs, Task.natives, List.append_assoc] using acc'
      · intro t mem
        rcases List.mem_append.mp mem with mem | mem
        · rcases List.mem_append.mp mem with mem | mem
          · obtain ⟨x, -, rfl⟩ := List.mem_map.mp mem
            trivial
          · cases List.mem_singleton.mp mem
            exact isStore
        · exact draining.fits_tail t mem
      · rw [List.append_assoc]
        exact Task.anchored_refs anchored
      · exact stillRested _ fun _ =>
          ⟨_, List.mem_append_right _ (List.mem_singleton_self _), rfl, rfl⟩

theorem Draining.deleteStore {n : NativeId} {rest : List Task}
    (draining : w.Draining held (.deleteStore n :: rest)) :
    (w.perform (.deleteStore n)).2.Draining held rest := by
  have acc : w.Accounted (rest.flatMap Task.refs ++ held) (n :: rest.flatMap Task.natives) :=
    draining.acc
  obtain ⟨config, known⟩ := draining.fits _ List.mem_cons_self
  have deleted := acc.deletePlain known rfl .storeDelete
  have shown := same_logAbout ((w.guard .storeDelete).deleteNative n) n .deletedStore
  have quiet := guard_eq acc.finalizing .storeDelete
  have anchored : Task.Anchored rest := draining.anchored
  refine ⟨deleted.same shown, ?_, anchored, ?_, fun busy => ?_,
    (draining.finalized.deletePlain draining.acc.finalizing known nofun .storeDelete).same shown⟩
  · rw [(drains_perform w (.deleteStore n)).shapes]
    exact draining.fits_tail
  · have heap : (w.perform (.deleteStore n)).2.heap = w.heap := by
      refine shown.heap.trans ?_
      rw [quiet]
      rfl
    rw [strong_of_heap heap, pending_of_heap heap]
    exact draining.rested_tail fun s => not_false
  · have thread : (w.perform (.deleteStore n)).2.thread = w.thread := by
      refine shown.thread.trans ?_
      rw [quiet]
      rfl
    rw [thread] at busy
    exact draining.swept_tail not_false busy

/-! ## All tasks -/

/-- Each task keeps the account. -/
theorem Draining.perform {t : Task} {rest : List Task} (draining : w.Draining held (t :: rest)) :
    (w.perform t).2.Draining held ((w.perform t).1 ++ rest) := by
  cases t with
  | ref id => exact draining.ref
  | queue h => exact draining.queue
  | flush s total => exact draining.flush
  | sweep s total again => exact draining.sweep
  | deleteStore n => exact draining.deleteStore

theorem Draining.drain {fuel : Nat} {tasks : List Task} {w : World}
    (draining : w.Draining held tasks) :
    (World.drain fuel tasks w).2.Draining held (World.drain fuel tasks w).1 := by
  induction fuel generalizing tasks w with
  | zero => cases tasks <;> exact draining
  | succ fuel ih =>
      cases tasks with
      | nil => exact draining
      | cons t rest => exact ih draining.perform

/-- Releasing work that is done to its end leaves a sound world. -/
theorem Draining.complete {tasks : List Task} (draining : w.Draining held tasks) :
    (w.complete tasks).Sound held := by
  unfold World.complete
  split
  · next none =>
      rw [List.isEmpty_iff.mp none] at draining
      exact draining.sound
  · have drained : (World.drain (w.effort tasks) tasks w).2.Draining held _ := draining.drain
    rw [drain_done (Nat.le_refl _)] at drained
    exact drained.sound

/-! ## Operations -/

theorem Sound.release {id : ObjId} (sound : w.Sound (id :: held)) : (w.release id).Sound held := by
  have draining : w.Draining held [.ref id] :=
    sound.draining sound.toAccounted (fun t mem => by cases List.mem_singleton.mp mem; trivial)
      trivial
  have performed := draining.perform
  rw [List.append_nil] at performed
  exact performed.complete

theorem Sound.releaseAll (ids : List ObjId) {w : World} (sound : w.Sound (ids ++ held)) :
    (w.releaseAll ids).Sound held := by
  induction ids generalizing w with
  | nil => exact sound
  | cons id rest ih => exact ih sound.release

theorem Sound.flush {s : ObjId} {n : NativeId} (sound : w.Sound held)
    (isStore : w.shapes.IsStore s n) : (w.flush s).Sound held := by
  have draining : w.Draining held [.flush s 0] :=
    sound.draining sound.toAccounted
      (fun t mem => by cases List.mem_singleton.mp mem; exact ⟨n, isStore⟩) trivial
  exact draining.complete

/-! ## Flushing -/

/-- The remaining work of a flush: none, with nothing queued; or a last sweep, with nothing queued; or
tasks of which the last empties the queues. -/
inductive Flushing (s : ObjId) (w : World) : List Task → Prop where
  | done (empty : w.pending s = {}) : Flushing s w []
  | stopping (total : Nat) (empty : w.pending s = {}) : Flushing s w [.sweep s total false]
  | going {tasks : List Task} {last : Task} (ends : tasks.getLast? = some last)
      (flushes : last.Flushes s) : Flushing s w tasks

/-- What was handed back is dropped, and then the store is flushed again. -/
theorem Flushing.sweep (s : ObjId) (total : Nat) {again : Bool}
    (rests : again = false → w.pending s = {}) :
    Flushing s (w.perform (.sweep s total again)).2 (w.perform (.sweep s total again)).1 := by
  cases retired : w.thread.retired with
  | cons env envs =>
      have dropping : w.perform (.sweep s total again) =
          ((env :: envs).map .ref ++ [.sweep s total true],
            w.modifyThread fun t => { t with retired := [] }) := by
        unfold World.perform
        rw [retired]
      rw [dropping]
      exact .going List.getLast?_concat ⟨rfl, rfl⟩
  | nil =>
      cases again with
      | true =>
          have flushing : w.perform (.sweep s total true) = ([.flush s total], w) := by
            unfold World.perform
            rw [retired]
            rfl
          rw [flushing]
          exact .going rfl rfl
      | false =>
          have stops : w.perform (.sweep s total false) =
              ([], { (if total = 0 then w else w.log (.released total)) with lastFlush := total }) := by
            unfold World.perform
            rw [retired]
            rfl
          rw [stops]
          refine .done ?_
          show (if total = 0 then w else w.log (.released total)).pending s = {}
          split
          · exact rests rfl
          · exact (congrFun (same_log w (.released total)).pending s).trans (rests rfl)

/-- Each task of a flush leaves the work of a flush. -/
theorem Flushing.perform {s : ObjId} {n : NativeId} (isStore : w.shapes.IsStore s n) {t : Task}
    {rest : List Task} (flushing : Flushing s w (t :: rest)) :
    Flushing s (w.perform t).2 ((w.perform t).1 ++ rest) := by
  generalize tasks : t :: rest = all at flushing
  cases flushing with
  | done empty => cases tasks
  | stopping total empty =>
      cases tasks
      rw [List.append_nil]
      exact Flushing.sweep s total fun _ => empty
  | @going _ last ends flushes =>
      subst tasks
      cases rest with
      | cons next rest =>
          have last : ((w.perform t).1 ++ next :: rest).getLast? = some last := by
            rw [List.getLast?_cons_cons] at ends
            rw [List.getLast?_append, ends]
            rfl
          exact .going last flushes
      | nil =>
          cases ends
          rw [List.append_nil]
          cases t with
          | flush store total =>
              obtain rfl : store = s := flushes
              let cleared := w.modifyPending store fun _ => {}
              have hands := hands_releaseBatch cleared (w.pending store)
              have empty : (cleared.releaseBatch (w.pending store)).pending store = {} := by
                rw [pending_of_heap hands.heap, pending_modifyPending isStore, if_pos rfl]
              show Flushing store (cleared.releaseBatch (w.pending store))
                [.sweep store (total + (w.pending store).size) ((w.pending store).size ≠ 0)]
              by_cases none : (w.pending store).size = 0
              · rw [decide_eq_false (not_not.mpr none)]
                exact .stopping _ empty
              · rw [decide_eq_true none]
                exact .going rfl ⟨rfl, rfl⟩
          | sweep store total again =>
              obtain ⟨rfl, rfl⟩ : store = s ∧ again = true := flushes
              exact Flushing.sweep store total fun impossible => nomatch impossible
          | _ => cases flushes

/-- After a flush nothing is queued in the store. -/
theorem pending_flush {s : ObjId} {n : NativeId} (isStore : w.shapes.IsStore s n) :
    (w.flush s).pending s = {} := by
  have drained (fuel : Nat) {tasks : List Task} {w : World} (isStore : w.shapes.IsStore s n)
      (flushing : Flushing s w tasks) : Flushing s (drain fuel tasks w).2 (drain fuel tasks w).1 := by
    induction fuel generalizing tasks w with
    | zero => cases tasks <;> exact flushing
    | succ fuel ih =>
        cases tasks with
        | nil => exact flushing
        | cons t rest =>
            have kept : (w.perform t).2.shapes.IsStore s n := by
              rw [(drains_perform w t).shapes]
              exact isStore
            exact ih kept (flushing.perform isStore)
  have start : Flushing s w [.flush s 0] := .going rfl rfl
  have flushed := drained (w.effort [.flush s 0]) isStore start
  rw [drain_done (Nat.le_refl _)] at flushed
  cases flushed with
  | done empty => exact empty
  | going ends flushes => cases ends

end World

end HostEmbedding
