import HostEmbedding.Proofs.Ownership.Detaching

/-!
# How stores end

The last reference to a store flushes it and then deletes its native side. The tasks of that flush
drop environments only, so both stand before all other work, and behind the deletion nothing is left
that could queue anything in the store again.
-/

namespace HostEmbedding

/-- A task that drops a reference, or queues what an owning handle stood for. -/
def Task.Drops : Task → Prop
  | .ref _ => True
  | .queue _ => True
  | _ => False

namespace Task

/-- Drops neither empty queues nor sweep up what was handed back. -/
theorem Drops.idle {t : Task} (drops : t.Drops) : (∀ s, ¬ t.Flushes s) ∧ ¬ t.Sweeps := by
  cases t with
  | ref id => exact ⟨fun s => not_false, not_false⟩
  | queue h => exact ⟨fun s => not_false, not_false⟩
  | _ => exact absurd drops not_false

/-- A handle that is still to be queued keeps its store until then. -/
theorem anchored_store {h : Handle} {tasks : List Task} (anchored : Anchored tasks)
    (mem : .queue h ∈ tasks) : .ref h.store ∈ tasks := by
  induction tasks with
  | nil => cases mem
  | cons t rest ih =>
      rcases List.mem_cons.mp mem with rfl | mem
      · exact List.mem_cons_of_mem _ anchored.1
      · exact List.mem_cons_of_mem _ (ih (anchored_tail anchored) mem)

end Task

namespace World

variable {w : World} {held : List ObjId} {t : Task} {rest tasks : List Task} {s : ObjId} {n : NativeId}

/-- The order of releasing work: a store is flushed, or flushed and then deleted, before anything else is
dropped. -/
inductive Staged (Γ : Shapes) : List Task → Prop
  | dropping {tasks : List Task} (drops : ∀ t ∈ tasks, t.Drops) : Staged Γ tasks
  | flushing {tasks : List Task} (flushes : ∀ t ∈ tasks, t.Sweeping Γ) : Staged Γ tasks
  | ending {first rest : List Task} {n : NativeId} (flushes : ∀ t ∈ first, t.Sweeping Γ)
      (drops : ∀ t ∈ rest, t.Drops) : Staged Γ (first ++ .deleteStore n :: rest)

theorem drops_refs (ids : List ObjId) : ∀ t ∈ ids.map Task.ref, t.Drops := by
  intro t mem
  obtain ⟨id, -, rfl⟩ := List.mem_map.mp mem
  trivial

/-- Only the end of a store brings up more than drops. -/
theorem tasks_dispose (w : World) (id : ObjId) (o : Object) :
    (∃ native config p, o = .store native config p ∧
      (w.dispose id o).1 = [.flush id 0, .deleteStore native]) ∨ ∀ t ∈ (w.dispose id o).1, t.Drops := by
  cases o with
  | store native config p => exact .inl ⟨native, config, p, rfl, rfl⟩
  | handle h =>
      refine .inr fun t mem => ?_
      unfold World.dispose at mem
      dsimp only at mem
      split at mem
      · split at mem
        · next env _ =>
            rw [tasks_detach] at mem
            rcases List.mem_append.mp mem with mem | mem
            · exact drops_refs _ t mem
            · rcases List.mem_cons.mp mem with rfl | mem
              · trivial
              · exact drops_refs _ t mem
        · rcases List.mem_cons.mp mem with rfl | mem
          · trivial
          · exact drops_refs _ t mem
      · exact drops_refs _ t mem
  | env closure type store => exact .inr (drops_refs _)
  | closure code captures => exact .inr (drops_refs _)
  | referent label payload => exact .inr (drops_refs _)
  | cell content => exact .inr (drops_refs _)

/-- A drop brings up drops, or the end of a store in front of them. -/
theorem Staged.perform_drop (drops : t.Drops) (later : ∀ u ∈ rest, u.Drops) (Γ : Shapes) :
    Staged Γ ((w.perform t).1 ++ rest) := by
  cases t with
  | ref id =>
      unfold World.perform
      dsimp only
      split
      · exact .dropping later
      · exact .dropping later
      · next o found =>
          rcases tasks_dispose (w.modifyEntry id fun e => { e with strong := 0 }) id o with
            ⟨native, config, p, -, tasks⟩ | drops
          · rw [tasks]
            have flushes : ∀ t ∈ [Task.flush id 0], t.Sweeping Γ := fun t mem => by
              obtain rfl := List.mem_singleton.mp mem
              trivial
            exact .ending flushes later
          · refine .dropping fun t mem => ?_
            rcases List.mem_append.mp mem with mem | mem
            · exact drops t mem
            · exact later t mem
      · exact .dropping later
  | queue h => exact .dropping later
  | flush s total => cases drops
  | sweep s total again => cases drops
  | deleteStore n => cases drops

/-- Each task keeps the order. -/
theorem Detaching.staged (detaching : w.Detaching held (t :: rest))
    (staged : Staged w.shapes (t :: rest)) :
    Staged (w.perform t).2.shapes ((w.perform t).1 ++ rest) := by
  rw [(drains_perform w t).shapes]
  have sweeps {first : List Task} (named : t.Sweeping w.shapes)
      (flushes : ∀ u ∈ first, u.Sweeping w.shapes) :
      ∀ u ∈ (w.perform t).1 ++ first, u.Sweeping w.shapes := by
    intro u mem
    rcases List.mem_append.mp mem with mem | mem
    · exact detaching.sweeping named mem
    · exact flushes u mem
  generalize same : t :: rest = tasks at staged
  cases staged with
  | dropping drops =>
      subst same
      exact Staged.perform_drop (drops t List.mem_cons_self)
        (fun u mem => drops u (List.mem_cons_of_mem _ mem)) _
  | flushing flushes =>
      subst same
      exact .flushing (sweeps (flushes t List.mem_cons_self) fun u mem =>
        flushes u (List.mem_cons_of_mem _ mem))
  | @ending first later n flushes drops =>
      cases first with
      | nil =>
          obtain ⟨rfl, rfl⟩ := List.cons.inj same
          exact .dropping drops
      | cons u first =>
          obtain ⟨rfl, rfl⟩ := List.cons.inj same
          show Staged w.shapes ((w.perform t).1 ++ (first ++ .deleteStore n :: later))
          rw [← List.append_assoc]
          exact .ending (sweeps (flushes t List.mem_cons_self) fun u mem =>
            flushes u (List.mem_cons_of_mem _ mem)) drops

theorem Detaching.staged_drain {k : Nat} {tasks : List Task} {w : World}
    (detaching : w.Detaching held tasks) (staged : Staged w.shapes tasks) :
    Staged (World.drain k tasks w).2.shapes (World.drain k tasks w).1 := by
  induction k generalizing tasks w with
  | zero => cases tasks <;> exact staged
  | succ k ih =>
      cases tasks with
      | nil => exact staged
      | cons t rest => exact ih detaching.perform (detaching.staged staged)

/-- Behind the deletion of a store there are only drops. -/
theorem Staged.behind {Γ : Shapes} (staged : Staged Γ (.deleteStore n :: rest)) :
    ∀ t ∈ rest, t.Drops := by
  generalize same : Task.deleteStore n :: rest = tasks at staged
  cases staged with
  | dropping drops =>
      subst same
      exact absurd (drops _ List.mem_cons_self) not_false
  | flushing flushes =>
      subst same
      exact absurd (flushes _ List.mem_cons_self) not_false
  | @ending first later n flushes drops =>
      cases first with
      | nil =>
          obtain ⟨-, rfl⟩ := List.cons.inj same
          exact drops
      | cons u first =>
          obtain ⟨rfl, -⟩ := List.cons.inj same
          exact absurd (flushes _ List.mem_cons_self) not_false

/-! ## The moment of deletion -/

/-- What holds when the native side `n` of the store `s` is deleted next. -/
structure Ending (w : World) (s : ObjId) (n : NativeId) : Prop where
  /-- Nothing refers to the store, and it is deleted for the first time. -/
  dead : w.strong s = 0
  first : w.deletions n = 0
  /-- Nothing is queued in it. -/
  empty : w.pending s = {}
  /-- Every native object that was made in it has been deleted once. -/
  deleted : ∀ {x id h}, w.IsOwner x id h → h.store = s → w.deletions x = 1
  /-- No handle or view of it is alive. -/
  handles : ∀ {id h}, w.handle? id = some h → h.store ≠ s
  /-- No finalizer is running, and what finalizers handed back was dropped. -/
  calm : w.thread.finalizing = 0
  swept : w.thread.retired = []

/-- A handle that is alive keeps its store alive. -/
theorem Accounted.store_alive {moving : List NativeId} (acc : w.Accounted held moving) {id : ObjId}
    {h : Handle} (found : w.handle? id = some h) : w.strong h.store ≠ 0 := by
  obtain ⟨known, alive⟩ := handle?_eq_some.mp found
  obtain ⟨k, entry⟩ := isHandle_iff.mp known
  refine acc.alive_of_mem_owned (mem_owned.mpr ⟨id, _, entry, ?_, List.mem_cons_self⟩)
  rwa [strong_eq entry] at alive

/-- What a store was deleted as is deleted last. -/
theorem Draining.ending (draining : w.Draining held (.deleteStore n :: rest))
    (drops : ∀ t ∈ rest, t.Drops) (isStore : w.shapes.IsStore s n) : w.Ending s n := by
  have acc := draining.acc
  have moving : (Task.deleteStore n :: rest).flatMap Task.natives = n :: rest.flatMap Task.natives := rfl
  have place := acc.placed n
  rw [moving, List.count_cons_self] at place
  obtain ⟨k, config, p, entry⟩ := isStore_iff.mp isStore
  have dead : w.strong s = 0 := by
    rw [strong_eq entry]
    by_contra alive
    have claimed := List.count_pos_iff.mpr (mem_claimed.mpr ⟨s, _, entry, alive, rfl⟩)
    split at place <;> omega
  -- Only the flush of a store empties its queues, and no flush stands behind the deletion.
  have empty : w.pending s = {} := by
    by_contra busy
    obtain ⟨t, mem, flushes⟩ := draining.rested s dead busy
    rcases List.mem_cons.mp mem with rfl | mem
    · cases flushes
    · exact (drops t mem).idle.1 s flushes
  have swept : w.thread.retired = [] := by
    by_contra busy
    obtain ⟨t, mem, sweeps⟩ := draining.swept busy
    rcases List.mem_cons.mp mem with rfl | mem
    · cases sweeps
    · exact (drops t mem).idle.2 sweeps
  refine ⟨dead, by split at place <;> omega, empty, ?_, ?_, acc.finalizing, swept⟩
  · intro x id h owner same
    obtain ⟨known, owning, native⟩ := isOwner_iff.mp owner
    obtain ⟨o, object, handled, -⟩ := acc.handle_native known
    rw [native] at object
    have size : x.index < w.natives.size := nativeObject?_isSome.mp (by rw [object]; rfl)
    have place := acc.placed x
    rw [if_pos size] at place
    have unclaimed : w.claimed.count x = 0 := List.count_eq_zero.mpr fun claimed => by
      have alive := (acc.mem_claimed_iff owner).mp claimed
      exact acc.store_alive (handle?_eq_some.mpr ⟨known, alive⟩) (by rw [same]; exact dead)
    have unqueued : w.queued.count x = 0 := List.count_eq_zero.mpr fun queued => by
      obtain ⟨u, mem⟩ := mem_queued.mp queued
      obtain ⟨kind, mem⟩ := Pending.mem_inOrder.mp mem
      obtain ⟨j, k, owner', rfl, -⟩ := acc.queued_owner mem
      obtain ⟨-, rfl⟩ := acc.owner_unique owner owner'
      rw [same, empty] at mem
      cases kind <;> cases mem
    have unmoved : (n :: rest.flatMap Task.natives).count x = 0 := by
      refine List.count_eq_zero.mpr fun moved => ?_
      rcases List.mem_cons.mp moved with rfl | moved
      · -- The native side of a store is none of the objects that handles own.
        obtain ⟨config, kept⟩ := draining.fits _ List.mem_cons_self
        have shape : (w.nativeObject? x).map Native.shape = some (.store ⟨config, false, 0⟩) := kept
        rw [object, Option.map_some] at shape
        cases o <;> simp [Native.isHandled, Native.shape] at handled shape
      · obtain ⟨t, mem, moves⟩ := List.mem_flatMap.mp moved
        have drops := drops t mem
        cases t with
        | queue k =>
            obtain rfl := List.mem_singleton.mp moves
            obtain ⟨j, known', owning'⟩ := draining.fits _ (List.mem_cons_of_mem _ mem)
            obtain ⟨-, rfl⟩ := acc.owner_unique owner (isOwner_iff.mpr ⟨known', owning', rfl⟩)
            have anchor := Task.anchored_store (Task.anchored_tail draining.anchored) mem
            have named : k.store ∈ (Task.deleteStore n :: rest).flatMap Task.refs :=
              List.mem_flatMap.mpr ⟨_, List.mem_cons_of_mem _ anchor, List.mem_cons_self⟩
            exact acc.alive (List.mem_append_left _ named) (by rw [same]; exact dead)
        | ref id => cases moves
        | _ => cases drops
    rw [moving] at place
    omega
  · intro id h found same
    exact acc.store_alive found (by rw [same]; exact dead)

/-- The last reference to a store flushes it, deletes its native side, and only then goes on. -/
theorem complete_last {config : Config} {p : Pending}
    (entry : w.entry? s = some ⟨1, .store n config p⟩) (rest : List Task) :
    w.complete (.ref s :: rest) =
      (((w.modifyEntry s fun e => { e with strong := 0 }).flush s).perform (.deleteStore n)).2.complete
        rest := by
  have performed : w.perform (.ref s) = ([.flush s 0, .deleteStore n],
      w.modifyEntry s fun e => { e with strong := 0 }) := by
    unfold World.perform
    dsimp only
    rw [entry]
    rfl
  rw [complete_cons, performed]
  show World.complete _ ([.flush s 0] ++ (.deleteStore n :: rest)) = _
  rw [complete_append, complete_cons]
  rfl

end World

end HostEmbedding
