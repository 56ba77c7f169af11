import HostEmbedding.Proofs.Ownership.Guards

/-!
# Flushing in order

A list of tasks does what its first task does and then what is left. Between two tasks no finalizer
is running; what the finalizers of a batch hand back is dropped by the sweep that follows the batch,
before the flush goes on.
-/

namespace HostEmbedding.World

variable {w v : World} {held : List ObjId} {moving : List NativeId} {tasks rest : List Task}

/-! ## Work as a whole -/

theorem drain_nil (fuel : Nat) (w : World) : drain fuel [] w = ([], w) := by
  cases fuel <;> rfl

theorem drain_add (j k : Nat) (tasks : List Task) (w : World) :
    drain (j + k) tasks w = drain k (drain j tasks w).1 (drain j tasks w).2 := by
  induction j generalizing tasks w with
  | zero => cases tasks <;> rw [Nat.zero_add] <;> rfl
  | succ j ih =>
      cases tasks with
      | nil => rw [drain_nil, drain_nil, drain_nil]
      | cons t rest =>
          rw [Nat.succ_add]
          exact ih _ _

theorem complete_eq (w : World) (tasks : List Task) :
    w.complete tasks = (drain (w.effort tasks) tasks w).2 := by
  unfold complete
  split
  · next none => rw [List.isEmpty_iff.mp none, drain_nil]
  · rfl

/-- More fuel than the effort changes nothing. -/
theorem drain_of_le {fuel : Nat} (enough : w.effort tasks ≤ fuel) :
    (drain fuel tasks w).2 = w.complete tasks := by
  obtain ⟨extra, rfl⟩ := Nat.exists_eq_add_of_le enough
  rw [drain_add, drain_done (Nat.le_refl _), drain_nil, complete_eq]

theorem complete_cons (w : World) (t : Task) (rest : List Task) :
    w.complete (t :: rest) = (w.perform t).2.complete ((w.perform t).1 ++ rest) := by
  have less := effort_perform_lt w t rest
  obtain ⟨fuel, same⟩ := Nat.exists_eq_add_of_lt less
  rw [complete_eq, same]
  exact drain_of_le (Nat.le_add_right _ _)

/-- A list of tasks is done before what stands behind it. -/
theorem complete_append (w : World) (first rest : List Task) :
    w.complete (first ++ rest) = (w.complete first).complete rest := by
  induction effort : w.effort first using Nat.strongRecOn generalizing w first with
  | ind k ih =>
      cases first with
      | nil => rfl
      | cons t first =>
          have less := effort_perform_lt w t first
          rw [List.cons_append, complete_cons, complete_cons, ← List.append_assoc]
          exact ih _ (effort ▸ less) _ _ rfl

theorem complete_refs (ids : List ObjId) (w : World) :
    w.complete (ids.map .ref) = w.releaseAll ids := by
  induction ids generalizing w with
  | nil => rfl
  | cons id rest ih =>
      rw [List.map_cons, complete_cons, complete_append, ih]
      rfl

/-- A sweep brings up the drops of what was handed back, and then another sweep. -/
theorem perform_sweep {s : ObjId} {total : Nat} {again : Bool} (some : w.thread.retired ≠ []) :
    w.perform (.sweep s total again) = (w.thread.retired.map .ref ++ [.sweep s total true],
      w.modifyThread fun t => { t with retired := [] }) := by
  unfold perform
  dsimp only
  split
  · next none => exact absurd none some
  · rfl

/-- A sweep drops what was handed back, in order, and then looks again. -/
theorem complete_sweep {s : ObjId} {total : Nat} {again : Bool} (some : w.thread.retired ≠ []) :
    w.complete (.sweep s total again :: rest) =
      ((w.modifyThread fun t => { t with retired := [] }).releaseAll w.thread.retired).complete
        (.sweep s total true :: rest) := by
  rw [complete_cons, perform_sweep some, List.append_assoc, complete_append, complete_refs]
  rfl

/-! ## No task runs inside a finalizer -/

/-- Between two tasks no finalizer is running, none has ended the process, and what finalizers have
handed back is dropped next. -/
structure Orderly (w : World) (tasks : List Task) : Prop where
  finalizing : w.thread.finalizing = 0
  aborted : w.aborted = none
  swept : w.thread.retired ≠ [] → ∃ s total again rest, tasks = .sweep s total again :: rest

/-- One task, whatever it is and whatever the world holds. -/
theorem Orderly.perform {t : Task} (orderly : w.Orderly (t :: rest)) :
    (w.perform t).2.Orderly ((w.perform t).1 ++ rest) := by
  have idle (plain : ∀ s total again, t ≠ .sweep s total again) : w.thread.retired = [] := by
    by_contra busy
    obtain ⟨s, total, again, rest, same⟩ := orderly.swept busy
    exact plain s total again (List.cons.inj same).1
  have abides := abides_perform w t
  refine ⟨abides.finalizing.trans orderly.finalizing,
    (abides.aborted orderly.finalizing).trans orderly.aborted, fun busy => ?_⟩
  cases t with
  | ref id =>
      refine absurd ?_ busy
      have none := idle fun _ _ _ => nofun
      unfold World.perform
      dsimp only
      split
      · exact none
      · exact none
      · next o _ =>
          obtain ⟨heap, events, same⟩ := dispose_eq (w.modifyEntry id fun e => { e with strong := 0 }) id o
          rw [same]
          exact none
      · exact none
  | queue h =>
      refine absurd ?_ busy
      have shown := same_logAbout (w.modifyPending h.store fun p => p.push h.native h.state)
        h.native (.deferred h.state.kindName)
      rw [World.perform, shown.thread]
      exact idle fun _ _ _ => nofun
  | flush s total => exact ⟨s, _, _, rest, rfl⟩
  | sweep s total again =>
      refine absurd ?_ busy
      unfold World.perform
      dsimp only
      split
      · next none =>
          split
          · exact none
          · dsimp only
            split
            · exact none
            · rw [(same_log w (.released total)).thread]
              exact none
      · rfl
  | deleteStore n =>
      refine absurd ?_ busy
      have shown := same_logAbout ((w.guard .storeDelete).deleteNative n) n .deletedStore
      rw [World.perform, shown.thread]
      show (w.guard .storeDelete).thread.retired = []
      rw [thread_guard]
      exact idle fun _ _ _ => nofun

theorem Orderly.drain {k : Nat} (orderly : w.Orderly tasks) :
    (World.drain k tasks w).2.Orderly (World.drain k tasks w).1 := by
  induction k generalizing tasks w with
  | zero => cases tasks <;> exact orderly
  | succ k ih =>
      cases tasks with
      | nil => exact orderly
      | cons t rest => exact ih orderly.perform

/-! ## What a batch hands back -/

def lentTo (w : World) (n : NativeId) : Option ObjId := (w.nativeObject? n).bind Native.env?

theorem Drains.lentTo (drains : Drains w v) : v.lentTo = w.lentTo := by
  funext n
  rw [World.lentTo, World.lentTo, drains.natives]

theorem lentTo_of_shape {n : NativeId} {s : Native} (known : w.shapes.native? n = some s) :
    w.lentTo n = s.env? := by
  obtain ⟨o, found, rfl⟩ := nativeObject_of_shape known
  rw [lentTo, found, Native.env?_shape, Option.bind_some]

theorem func_of_lentTo {n : NativeId} {env : ObjId} (lent : w.lentTo n = some env) :
    ∃ f, w.nativeObject? n = some (.func f) := by
  obtain ⟨o, found, holds⟩ := Option.bind_eq_some_iff.mp lent
  cases o with
  | func f => exact ⟨f, found⟩
  | _ => cases holds

/-- A deleted function hands back what it was lent, and nothing else hands anything back. -/
theorem Accounted.retired_releaseNative {kind : HandleState} {n : NativeId}
    (acc : w.Accounted held (n :: moving)) (owns : w.Owns kind n) :
    (w.releaseNative kind n).thread.retired = w.thread.retired ++ (w.lentTo n).toList := by
  have shown := same_logAbout w n (.releasing kind.kindName)
  have acc' := acc.same shown
  rcases acc.releasing owns with ⟨op, s, native, plain, same⟩ | ⟨s, t, env, native, same⟩
  · rw [same, guard_eq acc'.finalizing, lentTo_of_shape native, Native.env?_eq_none plain,
      Option.toList_none, List.append_nil]
    exact congrArg ThreadState.retired shown.thread
  · obtain ⟨-, callback⟩ := callback_of_live acc'.moving_live.2 (by rw [shown.shapes]; exact native)
    rw [same, lentTo_of_shape native]
    unfold World.deleteFunc
    dsimp only
    rw [callback, guard_eq acc'.finalizing]
    show (w.logAbout n _).thread.retired ++ [env] = w.thread.retired ++ [env]
    rw [shown.thread]

theorem Accounted.retired_releaseQueue {kind : HandleState} (ns : List NativeId) {w : World}
    (acc : w.Accounted held (ns ++ moving)) (owns : ∀ n ∈ ns, w.Owns kind n) :
    (w.releaseQueue kind ns).thread.retired = w.thread.retired ++ ns.filterMap w.lentTo := by
  induction ns generalizing w with
  | nil => exact (List.append_nil _).symm
  | cons n rest ih =>
      have first := owns n List.mem_cons_self
      have drains := drains_releaseNative w kind n
      have later := ih (acc.releaseNative first) fun x mem => by
        unfold Owns
        rw [drains.shapes]
        exact owns x (List.mem_cons_of_mem n mem)
      refine later.trans ?_
      rw [acc.retired_releaseNative first, drains.lentTo, List.append_assoc]
      cases lent : w.lentTo n <;> simp [lent]

/-- A batch hands back what its functions were lent, in the order of their deletion. -/
theorem Accounted.retired_releaseBatch {p : Pending} {s : ObjId}
    (acc : w.Accounted held (p.inOrder ++ moving)) (fits : p.Fits w.shapes s) :
    (w.releaseBatch p).thread.retired = w.thread.retired ++ p.inOrder.filterMap w.lentTo := by
  simp only [Pending.inOrder, List.append_assoc] at acc
  have memories := drains_releaseQueue (.memory 0) p.memories w
  have externs := memories.trans (drains_releaseQueue .view p.externs _)
  have interrupts := externs.trans (drains_releaseQueue .interrupt p.interrupts _)
  have owns (kind : HandleState) {u : World} (drains : Drains w u) : ∀ n ∈ p.ofKind kind, u.Owns kind n :=
    fits.owns kind drains.shapes
  have acc₁ := acc.releaseQueue p.memories (owns (.memory 0) (.refl w))
  have acc₂ := acc₁.releaseQueue p.externs (owns .view memories)
  have acc₃ := acc₂.releaseQueue p.interrupts (owns .interrupt externs)
  refine (acc₃.retired_releaseQueue p.funcs (owns (.func none) interrupts)).trans ?_
  rw [acc₂.retired_releaseQueue p.interrupts (owns .interrupt externs),
    acc₁.retired_releaseQueue p.externs (owns .view memories),
    acc.retired_releaseQueue p.memories (owns (.memory 0) (.refl w)), memories.lentTo,
    externs.lentTo, interrupts.lentTo]
  simp only [Pending.inOrder, List.filterMap_append, List.append_assoc]

/-- What is on its way before but not after has been deleted. -/
theorem Accounted.deletions_moved {ns : List NativeId} (acc : w.Accounted held (ns ++ moving))
    (after : v.Accounted held moving) (heap : v.heap = w.heap) (natives : v.nativeObject? = w.nativeObject?)
    (n : NativeId) : v.deletions n = w.deletions n + ns.count n := by
  have before := acc.placed n
  have after := after.placed n
  have known : n.index < v.natives.size ↔ n.index < w.natives.size := by
    rw [← nativeObject?_isSome, ← nativeObject?_isSome, natives]
  rw [if_congr known rfl rfl, ← before, claimed, queued, gather_of_heap heap, gather_of_heap heap,
    List.count_append] at after
  unfold claimed queued at after
  omega

/-- A batch is deleted, each object once for each time it was queued. -/
theorem Accounted.deletions_releaseBatch {p : Pending} {s : ObjId}
    (acc : w.Accounted held (p.inOrder ++ moving)) (fits : p.Fits w.shapes s) (n : NativeId) :
    (w.releaseBatch p).deletions n = w.deletions n + p.inOrder.count n :=
  acc.deletions_moved (acc.releaseBatch fits) (hands_releaseBatch w p).heap
    (drains_releaseBatch w p).natives n

/-- One round of a flush: the queues of the store are emptied, and what stood in them is deleted. -/
def flushOnce (w : World) (s : ObjId) : World :=
  (w.modifyPending s fun _ => {}).releaseBatch (w.pending s)

/-- What one round of a flush does. The finalizers of the batch are over when it has been deleted; what
they handed back is dropped next, in order, and only then does the flush go on. -/
structure Round (w : World) (s : ObjId) (total : Nat) (rest : List Task) : Prop where
  outside : (w.flushOnce s).thread.finalizing = 0
  deleted : ∀ n, (w.flushOnce s).deletions n = w.deletions n + (w.pending s).inOrder.count n
  handed : (w.flushOnce s).thread.retired = (w.pending s).inOrder.filterMap w.lentTo
  dropped : w.complete (.flush s total :: rest) =
    (((w.flushOnce s).modifyThread fun t => { t with retired := [] }).releaseAll
      ((w.pending s).inOrder.filterMap w.lentTo)).complete
        (.sweep s (total + (w.pending s).size) ((w.pending s).size ≠ 0) :: rest)

theorem Draining.round {s : ObjId} {total : Nat} (draining : w.Draining held (.flush s total :: rest))
    (orderly : w.Orderly (.flush s total :: rest)) : w.Round s total rest := by
  obtain ⟨moved, batch⟩ := draining.batch
  have cleared := drains_modifyPending w s fun _ => {}
  have none : w.thread.retired = [] := by
    by_contra busy
    obtain ⟨_, _, _, _, same⟩ := orderly.swept busy
    cases same
  have handed : (w.flushOnce s).thread.retired = (w.pending s).inOrder.filterMap w.lentTo := by
    have retired := moved.retired_releaseBatch batch
    rw [cleared.lentTo] at retired
    refine retired.trans ?_
    show w.thread.retired ++ _ = _
    rw [none, List.nil_append]
  refine ⟨orderly.perform.finalizing, fun n => ?_, handed, ?_⟩
  · exact moved.deletions_releaseBatch batch n
  · have flushed : w.complete (.flush s total :: rest) = (w.flushOnce s).complete
        (.sweep s (total + (w.pending s).size) ((w.pending s).size ≠ 0) :: rest) :=
      complete_cons w _ rest
    rw [flushed, ← handed]
    by_cases idle : (w.flushOnce s).thread.retired = []
    · rw [idle]
      congr 1
      show w.flushOnce s = { w.flushOnce s with
        thread := { (w.flushOnce s).thread with retired := [] } }
      rw [← idle]
    · -- Something was handed back, so the batch was not empty and the flush looks again anyway.
      have some : (w.pending s).size ≠ 0 := by
        intro zero
        rw [handed, List.length_eq_zero_iff.mp zero] at idle
        exact idle rfl
      rw [complete_sweep idle, decide_eq_true some]

end HostEmbedding.World
