import HostEmbedding.Proofs.Ownership.Draining

/-!
# Deleting and dying

What leaves the account and what comes back. A deleted native function hands its environment back;
a dropped object hands over the references it owned and the native object it claimed; the end of the
owning handle of a function also takes the closure out of the environment.
-/

namespace HostEmbedding

namespace World

variable {w v : World} {held held' : List ObjId} {moving : List NativeId}

/-! ## Deleting natives -/

/-- Only the environments handed back have changed. -/
theorem Balanced.rethread (bal : w.Balanced held moving) (heap : v.heap = w.heap)
    (bodies : v.bodies = w.bodies) (aborted : v.aborted = w.aborted)
    (finalizing : v.thread.finalizing = 0)
    (counts : ∀ id, held'.count id + v.thread.retired.count id =
      held.count id + w.thread.retired.count id) : v.Balanced held' moving := by
  have natives : v.nativeObject? = w.nativeObject? := funext fun n => by simp only [nativeObject?, bodies]
  have deletions : v.deletions = w.deletions := funext fun n => by simp only [World.deletions, bodies]
  have shapes : v.shapes = w.shapes := by simp [World.shapes, entry?_of_heap heap, natives]
  have size : v.natives.size = w.natives.size := by rw [← bodies_length, bodies, bodies_length]
  have lent : v.lent = w.lent := by simp only [World.lent, bodies]
  refine ⟨?_, ?_, ?_, fun id => ?_, fun n => ?_, finalizing, aborted.trans bal.aborted⟩
  · rw [shapes, entry?_of_heap heap]; exact bal.objects
  · rw [shapes]; exact bal.claimsUnique
  · rw [shapes]; exact bal.envsUnique
  · have before := bal.counted id
    have change := counts id
    rw [strong_of_heap heap, lent, owned, gather_of_heap heap]
    unfold owned at before
    omega
  · have place := bal.placed n
    rw [claimed, queued, gather_of_heap heap, gather_of_heap heap, deletions, size]
    exact place

/-- The heap and the shapes carry what the whole account says beyond the balance. -/
theorem Balanced.accounted {held'' : List ObjId} {moving' : List NativeId}
    (bal : v.Balanced held'' moving') (acc : w.Accounted held moving) (heap : v.heap = w.heap)
    (shapes : v.shapes = w.shapes) : v.Accounted held'' moving' where
  toBalanced := bal
  claimsTotal := by rw [shapes]; exact acc.claimsTotal
  attached := by
    rw [shapes, strong_of_heap heap, attached?_of_heap heap]
    exact acc.attached
  attachedOwned := by
    rw [shapes, attached?_of_heap heap]
    exact acc.attachedOwned

theorem Accounted.rethread (acc : w.Accounted held moving) (heap : v.heap = w.heap)
    (bodies : v.bodies = w.bodies) (aborted : v.aborted = w.aborted)
    (finalizing : v.thread.finalizing = 0)
    (counts : ∀ id, held'.count id + v.thread.retired.count id =
      held.count id + w.thread.retired.count id) : v.Accounted held' moving := by
  have natives : v.nativeObject? = w.nativeObject? := by
    funext n
    simp [World.nativeObject?, bodies]
  exact (acc.toBalanced.rethread heap bodies aborted finalizing counts).accounted acc heap
    (by simp [World.shapes, entry?_of_heap heap, natives])

/-- A moving native object has not been deleted. -/
theorem Balanced.moving_live {n : NativeId} (bal : w.Balanced held (n :: moving)) :
    n.index < w.natives.size ∧ w.deletions n = 0 := by
  have place := bal.placed n
  rw [List.count_cons_self] at place
  split at place
  · next known => exact ⟨known, by omega⟩
  · omega

/-- A moving native object is deleted; the environment it was lent comes back. -/
theorem Balanced.deleteNative {n : NativeId} {o : Native} (bal : w.Balanced held (n :: moving))
    (found : w.nativeObject? n = some o) :
    (w.deleteNative n).Balanced (o.env?.toList ++ held) moving := by
  obtain ⟨known, live⟩ := bal.moving_live
  have shapes : (w.deleteNative n).shapes = w.shapes := (drains_deleteNative w n).shapes
  refine ⟨?_, ?_, ?_, fun id => ?_, fun x => ?_, bal.finalizing, bal.aborted⟩
  · rw [shapes]; exact bal.objects
  · rw [shapes]; exact bal.claimsUnique
  · rw [shapes]; exact bal.envsUnique
  · have before : w.strong id = held.count id + w.owned.count id + w.lent.count id +
      w.thread.retired.count id := bal.counted id
    have lent := lent_deleteNative found live id
    show w.strong id = (o.env?.toList ++ held).count id + w.owned.count id +
      (w.deleteNative n).lent.count id + w.thread.retired.count id
    rw [List.count_append]
    omega
  · have before := bal.placed x
    have deletions := deletions_deleteNative known x
    have size : (w.deleteNative n).natives.size = w.natives.size := by
      rw [← bodies_length, bodies_deleteNative, List.length_modify, bodies_length]
    show w.claimed.count x + w.queued.count x + moving.count x + (w.deleteNative n).deletions x =
      if x.index < (w.deleteNative n).natives.size then 1 else 0
    rw [size, deletions]
    rw [List.count_cons] at before
    by_cases same : x = n
    · subst same
      simp only [beq_self_eq_true, if_true] at before ⊢
      omega
    · simp only [beq_iff_eq, Ne.symm same, same, if_false] at before ⊢
      omega

theorem Accounted.deleteNative {n : NativeId} {o : Native} (acc : w.Accounted held (n :: moving))
    (found : w.nativeObject? n = some o) :
    (w.deleteNative n).Accounted (o.env?.toList ++ held) moving :=
  (acc.toBalanced.deleteNative found).accounted acc rfl (drains_deleteNative w n).shapes

/-- A native object of a known shape. -/
theorem nativeObject_of_shape {n : NativeId} {s : Native} (known : w.shapes.native? n = some s) :
    ∃ o, w.nativeObject? n = some o ∧ o.shape = s := by
  simpa [World.shapes] using known

/-- The callback of a host function that has not been deleted. -/
theorem callback_of_live {n s : NativeId} {t : NativeFuncType} {env : ObjId}
    (live : w.deletions n = 0) (known : w.shapes.native? n = some (.func ⟨s, t, .host env⟩)) :
    w.nativeObject? n = some (.func ⟨s, t, .host env⟩) ∧
      (w.nativeFunc? n).map NativeFunc.callback = some (.host env) := by
  obtain ⟨o, found, shape⟩ := nativeObject_of_shape known
  obtain rfl : o = .func ⟨s, t, .host env⟩ := by
    cases o <;> simp [Native.shape] at shape ⊢
    exact shape
  exact ⟨found, by simp [nativeFunc?, native?_eq, live, found]⟩

/-- A guarded deletion of a native object that was lent nothing. -/
theorem Accounted.deletePlain {n : NativeId} {s : Native} (acc : w.Accounted held (n :: moving))
    (known : w.shapes.native? n = some s) (plain : s.env? = none) (op : GuardedOp) :
    ((w.guard op).deleteNative n).Accounted held moving := by
  obtain ⟨o, found, rfl⟩ := nativeObject_of_shape known
  rw [Native.env?_shape] at plain
  rw [guard_eq acc.finalizing]
  have deleted := acc.deleteNative found
  rw [plain] at deleted
  exact deleted

/-- Deleting a host function hands its environment back. -/
theorem Accounted.deleteFunc {n s : NativeId} {t : NativeFuncType} {env : ObjId}
    (acc : w.Accounted held (n :: moving))
    (known : w.shapes.native? n = some (.func ⟨s, t, .host env⟩)) :
    (w.deleteFunc n).Accounted held moving := by
  obtain ⟨-, live⟩ := acc.moving_live
  obtain ⟨found, callback⟩ := callback_of_live live known
  have deleted := acc.deleteNative found
  unfold World.deleteFunc
  dsimp only
  rw [callback, guard_eq acc.finalizing]
  refine deleted.rethread rfl (bodies_modifyNative_of_eq _ n fun _ => ⟨rfl, rfl⟩) rfl ?_ fun id => ?_
  · show w.thread.finalizing + 1 - 1 = 0
    rw [acc.finalizing]
  · show held.count id + (w.thread.retired ++ [env]).count id =
      ([env] ++ held).count id + w.thread.retired.count id
    simp only [List.count_append]
    omega

/-- Deleting anything but a function leaves the functions finalized. -/
theorem Finalized.deletePlain {n : NativeId} {s : Native} (finalized : w.Finalized)
    (quiet : w.thread.finalizing = 0) (known : w.shapes.native? n = some s)
    (plain : ∀ f, s ≠ .func f) (op : GuardedOp) : ((w.guard op).deleteNative n).Finalized := by
  obtain ⟨o, found, shape⟩ := nativeObject_of_shape known
  have there := nativeObject?_isSome.mp (Option.isSome_of_eq_some found)
  rw [guard_eq quiet]
  intro x f function
  rw [nativeObject?_deleteNative] at function
  have other : x ≠ n := by
    intro same
    rw [same, found, Option.some.injEq] at function
    rw [function] at shape
    exact plain f shape.symm
  have kept : (w.deleteNative n).finalizations = w.finalizations :=
    finalizations_modifyNative_of_eq w n fun _ => rfl
  rw [kept, deletions_deleteNative there, if_neg other]
  exact finalized x f function

/-- Deleting a live host function runs its finalizer. -/
theorem Finalized.deleteFunc {n s : NativeId} {t : NativeFuncType} {env : ObjId}
    (finalized : w.Finalized) (quiet : w.thread.finalizing = 0) (live : w.deletions n = 0)
    (known : w.shapes.native? n = some (.func ⟨s, t, .host env⟩)) : (w.deleteFunc n).Finalized := by
  obtain ⟨found, callback⟩ := callback_of_live live known
  have there := nativeObject?_isSome.mp (by rw [found]; rfl)
  have size : n.index < (w.deleteNative n).natives.size := by
    rw [← bodies_length, bodies_deleteNative, List.length_modify, bodies_length]
    exact there
  unfold World.deleteFunc
  dsimp only
  rw [callback, guard_eq quiet]
  have bodies : (((w.deleteNative n).enterFinalizer n).retire env).leaveFinalizer.bodies =
      (w.deleteNative n).bodies := bodies_modifyNative_of_eq _ n fun _ => ⟨rfl, rfl⟩
  intro x f function
  have function : (w.deleteNative n).nativeObject? x = some (.func f) := by
    simpa only [nativeObject?, bodies] using function
  rw [nativeObject?_deleteNative] at function
  have counted := finalized x f function
  have ran : (((w.deleteNative n).enterFinalizer n).retire env).leaveFinalizer.finalizations x =
      (w.deleteNative n).finalizations x + if x = n then 1 else 0 :=
    finalizations_modifyNative _ n (fun _ => rfl) size x
  have kept : (w.deleteNative n).finalizations = w.finalizations :=
    finalizations_modifyNative_of_eq w n fun _ => rfl
  have deleted : (((w.deleteNative n).enterFinalizer n).retire env).leaveFinalizer.deletions x =
      (w.deleteNative n).deletions x := by simp only [deletions, bodies]
  rw [ran, kept, deleted, deletions_deleteNative there, counted]

/-- A queued native object is owned by a handle of the kind of its queue. -/
def Owns (w : World) (kind : HandleState) (n : NativeId) : Prop :=
  ∃ i h, w.shapes.IsHandle i h ∧ h.owner = none ∧ h.native = n ∧ h.state.erase = kind.erase

/-- What a queued object is, and how it is deleted: a host function with its finalizer, or something
that was lent nothing. -/
theorem Accounted.releasing {kind : HandleState} {n : NativeId} (acc : w.Accounted held moving)
    (owns : w.Owns kind n) :
    (∃ op s, w.shapes.native? n = some s ∧ (∀ f, s ≠ .func f) ∧ w.releaseNative kind n =
      ((w.logAbout n (.releasing kind.kindName)).guard op).deleteNative n) ∨
    ∃ s t env, w.shapes.native? n = some (.func ⟨s, t, .host env⟩) ∧
      w.releaseNative kind n = (w.logAbout n (.releasing kind.kindName)).deleteFunc n := by
  obtain ⟨i, h, known, owner, rfl, same⟩ := owns
  obtain ⟨k, entry⟩ := isHandle_iff.mp known
  have handle : h.Fits w.shapes := acc.objects entry
  obtain ⟨s, -, fits⟩ := handle.state
  cases kind with
  | memory lock =>
      cases state : h.state <;> rw [state] at same fits <;> try cases same
      obtain ⟨limits, cap, native⟩ := fits
      exact .inl ⟨.memoryDelete, _, native, nofun, rfl⟩
  | interrupt =>
      cases state : h.state <;> rw [state] at same fits <;> try cases same
      exact .inl ⟨.interruptDelete, _, fits, nofun, rfl⟩
  | view =>
      cases state : h.state <;> rw [state] at same fits <;> try cases same
      exact absurd fits (by simp [HandleState.Fits, Handle.isOwning, owner])
  | func env =>
      cases state : h.state <;> rw [state] at same fits <;> try cases same
      obtain ⟨e, type, native, -⟩ := fits
      exact .inr ⟨_, _, e, native, rfl⟩

theorem Accounted.releaseNative {kind : HandleState} {n : NativeId}
    (acc : w.Accounted held (n :: moving)) (owns : w.Owns kind n) :
    (w.releaseNative kind n).Accounted held moving := by
  have shown := same_logAbout w n (.releasing kind.kindName)
  rcases acc.releasing owns with ⟨op, s, native, plain, same⟩ | ⟨s, t, env, native, same⟩
  · rw [same]
    exact (acc.same shown).deletePlain (by rw [shown.shapes]; exact native)
      (Native.env?_eq_none plain) op
  · rw [same]
    exact (acc.same shown).deleteFunc (by rw [shown.shapes]; exact native)

end World

/-- What a store has queued is owned by handles of the kinds of its queues. -/
theorem Pending.Fits.owns {w u : World} {p : Pending} {s : ObjId} (fits : p.Fits w.shapes s)
    (kind : HandleState) (shapes : u.shapes = w.shapes) : ∀ n ∈ p.ofKind kind, u.Owns kind n := by
  intro n mem
  obtain ⟨i, h, known, owner, native, -, same⟩ := fits kind n mem
  exact ⟨i, h, by rw [shapes]; exact known, owner, native, same⟩

namespace World

variable {w v : World} {held held' : List ObjId} {moving : List NativeId}

/-- Deleting a queued object runs its finalizer if it is a function. -/
theorem Finalized.releaseNative {kind : HandleState} {n : NativeId} (finalized : w.Finalized)
    (acc : w.Accounted held (n :: moving)) (owns : w.Owns kind n) :
    (w.releaseNative kind n).Finalized := by
  have shown := same_logAbout w n (.releasing kind.kindName)
  have acc' := acc.same shown
  rcases acc.releasing owns with ⟨op, s, native, plain, same⟩ | ⟨s, t, env, native, same⟩
  · rw [same]
    exact (finalized.same shown).deletePlain acc'.finalizing (by rw [shown.shapes]; exact native)
      plain op
  · rw [same]
    exact (finalized.same shown).deleteFunc acc'.finalizing acc'.moving_live.2
      (by rw [shown.shapes]; exact native)

theorem Accounted.releaseQueue {kind : HandleState} (ns : List NativeId) {w : World}
    (acc : w.Accounted held (ns ++ moving)) (owns : ∀ n ∈ ns, w.Owns kind n) :
    (w.releaseQueue kind ns).Accounted held moving := by
  induction ns generalizing w with
  | nil => exact acc
  | cons n rest ih =>
      refine ih (acc.releaseNative (owns n List.mem_cons_self)) fun x mem => ?_
      unfold Owns
      rw [(drains_releaseNative w kind n).shapes]
      exact owns x (List.mem_cons_of_mem n mem)

theorem Finalized.releaseQueue {kind : HandleState} (ns : List NativeId) {w : World}
    (finalized : w.Finalized) (acc : w.Accounted held (ns ++ moving)) (owns : ∀ n ∈ ns, w.Owns kind n) :
    (w.releaseQueue kind ns).Finalized := by
  induction ns generalizing w with
  | nil => exact finalized
  | cons n rest ih =>
      have first := owns n List.mem_cons_self
      refine ih (finalized.releaseNative acc first) (acc.releaseNative first) fun x mem => ?_
      unfold Owns
      rw [(drains_releaseNative w kind n).shapes]
      exact owns x (List.mem_cons_of_mem n mem)

theorem Accounted.releaseBatch {p : Pending} {s : ObjId} (acc : w.Accounted held (p.inOrder ++ moving))
    (fits : p.Fits w.shapes s) : (w.releaseBatch p).Accounted held moving := by
  simp only [Pending.inOrder, List.append_assoc] at acc
  have memories := (drains_releaseQueue (.memory 0) p.memories w).shapes
  have externs := (drains_releaseQueue .view p.externs _).shapes.trans memories
  have interrupts := (drains_releaseQueue .interrupt p.interrupts _).shapes.trans externs
  exact (((acc.releaseQueue p.memories (fits.owns (.memory 0) rfl)).releaseQueue p.externs
    (fits.owns .view memories)).releaseQueue p.interrupts
    (fits.owns .interrupt externs)).releaseQueue p.funcs (fits.owns (.func none) interrupts)

theorem Finalized.releaseBatch {p : Pending} {s : ObjId} (finalized : w.Finalized)
    (acc : w.Accounted held (p.inOrder ++ moving)) (fits : p.Fits w.shapes s) :
    (w.releaseBatch p).Finalized := by
  simp only [Pending.inOrder, List.append_assoc] at acc
  have memories := (drains_releaseQueue (.memory 0) p.memories w).shapes
  have externs := (drains_releaseQueue .view p.externs _).shapes.trans memories
  have interrupts := (drains_releaseQueue .interrupt p.interrupts _).shapes.trans externs
  have acc₁ := acc.releaseQueue p.memories (fits.owns (.memory 0) rfl)
  have acc₂ := acc₁.releaseQueue p.externs (fits.owns .view memories)
  have acc₃ := acc₂.releaseQueue p.interrupts (fits.owns .interrupt externs)
  exact (((finalized.releaseQueue p.memories acc (fits.owns (.memory 0) rfl)).releaseQueue p.externs
    acc₁ (fits.owns .view memories)).releaseQueue p.interrupts acc₂
    (fits.owns .interrupt externs)).releaseQueue p.funcs acc₃ (fits.owns (.func none) interrupts)

/-! ## Queues -/

/-- The queues of an object; only a store has some. -/
def queuesOf : Object → Pending
  | .store _ _ p => p
  | _ => {}

theorem pending_eq (w : World) (s : ObjId) :
    w.pending s = (( w.entry? s).map fun e => queuesOf e.object).getD {} := by
  unfold pending
  cases found : w.entry? s with
  | none => rfl
  | some e =>
      obtain ⟨k, o⟩ := e
      cases o <;> rfl

theorem pending_modifyEntry {id : ObjId} {g : Entry → Entry}
    (keeps : ∀ e, w.entry? id = some e → queuesOf (g e).object = queuesOf e.object) :
    (w.modifyEntry id g).pending = w.pending := by
  funext s
  simp only [pending_eq, entry?_modifyEntry]
  split
  · next same =>
      subst same
      cases found : w.entry? s with
      | none => rfl
      | some e => simp [keeps e found]
  · rfl

theorem pending_modifyPending {s n} (known : w.shapes.IsStore s n) (f : Pending → Pending)
    (x : ObjId) :
    (w.modifyPending s f).pending x = if x = s then f (w.pending s) else w.pending x := by
  obtain ⟨k, c, p, found⟩ := isStore_iff.mp known
  unfold modifyPending
  simp only [pending_eq, entry?_modifyEntry]
  by_cases same : x = s
  · subst same
    simp [found, queuesOf]
  · simp [same]

theorem strong_modifyPending (w : World) (s : ObjId) (f : Pending → Pending) :
    (w.modifyPending s f).strong = w.strong := by
  funext x
  cases found : w.entry? s with
  | none =>
      unfold modifyPending
      simp [World.strong, World.entry?, modifyEntry_of_none found]
  | some e =>
      unfold modifyPending
      rw [strong_modifyEntry found]
      split
      · next same =>
          subst same
          rw [strong_eq found]
          split <;> rfl
      · rfl

/-- Changing the queues of a store exchanges what they hold for moving natives. -/
theorem Accounted.modifyPending {moving' : List NativeId} {s n : _}
    (acc : w.Accounted held moving) (known : w.shapes.IsStore s n) {f : Pending → Pending}
    (fits : (w.pending s).Fits w.shapes s → (f (w.pending s)).Fits w.shapes s)
    (places : ∀ x, moving'.count x + (f (w.pending s)).inOrder.count x =
      moving.count x + (w.pending s).inOrder.count x) :
    (w.modifyPending s f).Accounted held moving' := by
  obtain ⟨k, c, p, found⟩ := isStore_iff.mp known
  have queues : w.pending s = p := by simp [pending, found]
  rw [queues] at fits places
  have object : Object.Fits w.shapes s (.store n c p) := acc.objects found
  have bal : (w.modifyPending s f).Balanced held moving' := by
    refine acc.toBalanced.modifyEntry found rfl ⟨object.1, fits object.2⟩ (fun x => ?_) fun x => ?_
    · simp [Entry.owned, Object.refs]
    · have place := places x
      simp only [Entry.claimed, Entry.queued, Object.claim?, Object.queued] at place ⊢
      omega
  have shapes : (w.modifyPending s f).shapes = w.shapes := (drains_modifyPending w s f).shapes
  have attached : (w.modifyPending s f).attached? = w.attached? := by
    apply attached?_modifyEntry
    rintro ⟨j, o⟩ -
    cases o <;> rfl
  refine ⟨bal, ?_, ?_, ?_⟩
  · rw [shapes]
    exact acc.claimsTotal
  · rw [shapes, strong_modifyPending, attached]
    exact acc.attached
  · rw [shapes, attached]
    exact acc.attachedOwned

/-! ## The end of an object -/

/-- An object whose last reference is dropped hands over what it owns and claims. -/
theorem Balanced.kill {id : ObjId} {o : Object} (bal : w.Balanced (id :: held) moving)
    (found : w.entry? id = some ⟨1, o⟩) :
    (w.modifyEntry id fun e => { e with strong := 0 }).Balanced (o.refs ++ held)
      (o.claim?.toList ++ moving) := by
  have object : o.Fits w.shapes id := bal.objects found
  refine bal.modifyEntry found rfl object (fun x => ?_) fun n => ?_
  · have owned : Entry.owned ⟨1, o⟩ = o.refs := rfl
    have gone : Entry.owned ⟨0, o⟩ = [] := rfl
    rw [owned, gone, List.count_cons, List.count_append, List.count_nil]
    by_cases same : x = id
    · subst same
      simp only [if_true, beq_self_eq_true]
      omega
    · simp only [same, if_false, beq_iff_eq, Ne.symm same]
      omega
  · have claimed : Entry.claimed ⟨1, o⟩ = o.claim?.toList := rfl
    have gone : Entry.claimed ⟨0, o⟩ = [] := rfl
    have queued : Entry.queued ⟨0, o⟩ = Entry.queued ⟨1, o⟩ := rfl
    rw [claimed, gone, queued, List.count_append, List.count_nil]
    omega

/-- An object that holds no environment takes nothing else along. -/
theorem Accounted.kill {id : ObjId} {o : Object} (acc : w.Accounted (id :: held) moving)
    (found : w.entry? id = some ⟨1, o⟩)
    (plain : ∀ h, o = .handle h → h.state.env? = none) :
    (w.modifyEntry id fun e => { e with strong := 0 }).Accounted (o.refs ++ held)
      (o.claim?.toList ++ moving) := by
  let dead := w.modifyEntry id fun e => { e with strong := 0 }
  have shapes : dead.shapes = w.shapes := shapes_modifyEntry fun _ _ => rfl
  have attached : dead.attached? = w.attached? := attached?_modifyEntry fun _ _ => rfl
  refine ⟨acc.toBalanced.kill found, ?_, ?_, ?_⟩
  · show ∀ {n o}, dead.shapes.native? n = some o →
      ∃ i p, dead.shapes.object? i = some p ∧ p.claim? = some n
    rw [shapes]
    exact acc.claimsTotal
  · intro i h e known env
    have other : i ≠ id := by
      rintro rfl
      obtain ⟨k, found'⟩ := isHandle_iff.mp (shapes ▸ known)
      rw [found] at found'
      cases found'
      rw [plain h rfl] at env
      cases env
    show dead.strong i = 0 ↔ dead.attached? e = none
    rw [attached, strong_modifyEntry found, if_neg other]
    exact acc.attached (shapes ▸ known) env
  · intro e c holds
    show ∃ i h, dead.shapes.IsHandle i h ∧ h.state.env? = some e
    rw [shapes]
    exact acc.attachedOwned (attached ▸ holds)

/-- The environment of a live handle is alive and holds a closure. -/
theorem Accounted.holding {id e : ObjId} {h : Handle} (acc : w.Accounted held moving)
    (known : w.shapes.IsHandle id h) (alive : w.strong id ≠ 0) (env : h.state.env? = some e) :
    ∃ k c t s, w.entry? e = some ⟨k, .env (some c) t s⟩ := by
  have holding : w.attached? e ≠ none := fun none => alive ((acc.attached known env).mpr none)
  obtain ⟨c, attached⟩ := Option.ne_none_iff_exists'.mp holding
  obtain ⟨k, t, s, found⟩ := attached?_eq_some.mp attached
  exact ⟨k, c, t, s, found⟩

/-- Taking the closure out of an environment, as it stands in the heap. -/
structure Empties (w v : World) (e : ObjId) : Prop where
  shapes : v.shapes = w.shapes
  strong : v.strong = w.strong
  attached : ∀ x, v.attached? x = if x = e then none else w.attached? x

theorem empties_setObject {e c s : ObjId} {k : Nat} {t : FuncType}
    (found : w.entry? e = some ⟨k, .env (some c) t s⟩) :
    Empties w (w.setObject e (.env none t s)) e where
  shapes := shapes_modifyEntry fun x found' => by
    rw [found] at found'
    cases found'
    rfl
  strong := by
    funext x
    refine (strong_modifyEntry found x).trans ?_
    split
    · next same => rw [same, strong_eq found]
    · rfl
  attached x := by
    simp only [attached?_eq]
    unfold setObject
    rw [entry?_modifyEntry]
    split
    · next same => rw [same, found]; rfl
    · rfl

theorem Balanced.empty {e c s : ObjId} {k : Nat} {t : FuncType} (bal : w.Balanced held moving)
    (found : w.entry? e = some ⟨k, .env (some c) t s⟩) (alive : k ≠ 0) :
    (w.setObject e (.env none t s)).Balanced (c :: held) moving := by
  have object : Object.Fits w.shapes e (.env (some c) t s) := bal.objects found
  have owned : Entry.owned ⟨k, .env (some c) t s⟩ = [c] := if_neg alive
  have gone : Entry.owned ⟨k, .env none t s⟩ = [] := if_neg alive
  obtain ⟨store, own, code, captures, same, isClosure, type, -⟩ := object
  refine bal.modifyEntry found rfl ⟨store, own, code, captures, same, isClosure, type, nofun⟩
    (fun x => ?_) fun n => rfl
  rw [owned, gone]
  simp only [List.count_cons, List.count_nil]
  omega

/-- The end of the owning handle of a function takes the closure out of the environment. -/
theorem Accounted.detach {id e : ObjId} {h : Handle} (acc : w.Accounted (id :: held) moving)
    (found : w.entry? id = some ⟨1, .handle h⟩) (env : h.state.env? = some e) :
    let dead := w.modifyEntry id fun e => { e with strong := 0 }
    ∃ c, (dead.detach e).1 = [.ref c] ∧ (dead.detach e).2.Accounted (c :: (h.refs ++ held))
      ((Object.handle h).claim?.toList ++ moving) := by
  intro dead
  have known : w.shapes.IsHandle id h := isHandle_iff.mpr ⟨1, found⟩
  have shapes : dead.shapes = w.shapes := shapes_modifyEntry fun _ _ => rfl
  have bal : dead.Balanced (h.refs ++ held) ((Object.handle h).claim?.toList ++ moving) :=
    acc.toBalanced.kill found
  obtain ⟨k, c, t, s, entry⟩ := acc.holding known (by rw [strong_eq found]; exact Nat.one_ne_zero) env
  have other : e ≠ id := by
    rintro rfl
    rw [found] at entry
    cases entry
  have entry' : dead.entry? e = some ⟨k, .env (some c) t s⟩ := by
    show World.entry? (w.modifyEntry id _) e = _
    rw [entry?_modifyEntry, if_neg other, entry]
  have alive : k ≠ 0 := by
    have count : dead.strong e = _ := bal.counted e
    have mem : e ∈ h.refs ++ held := by simp [Handle.refs, env]
    have positive := List.count_pos_iff.mpr mem
    rw [strong_eq entry'] at count
    dsimp only at count
    omega
  have detached : dead.detach e = ([.ref c], dead.setObject e (.env none t s)) := by
    unfold World.detach
    rw [entry']
  have empties := empties_setObject entry'
  have before : dead.attached? = w.attached? := attached?_modifyEntry fun _ _ => rfl
  rw [detached]
  refine ⟨c, rfl, bal.empty entry' alive, ?_, fun {i j e'} known' env' => ?_,
    fun {e' c'} holds => ?_⟩
  · rw [empties.shapes, shapes]
    exact acc.claimsTotal
  · dsimp only at known' ⊢
    rw [empties.shapes, shapes] at known'
    rw [empties.strong, empties.attached, before, strong_modifyEntry found]
    by_cases same : i = id
    · subst same
      have twice : w.shapes.object? i = some (.handle j) := known'
      rw [show w.shapes.object? i = some (.handle h) from known] at twice
      cases twice
      rw [env] at env'
      cases env'
      simp
    · have apart : e' ≠ e := by
        rintro rfl
        exact same (acc.envsUnique known' known env' env)
      rw [if_neg same, if_neg apart]
      exact acc.attached known' env'
  · dsimp only at holds ⊢
    rw [empties.attached, before] at holds
    split at holds
    · cases holds
    · rw [empties.shapes, shapes]
      exact acc.attachedOwned holds

end World

end HostEmbedding
