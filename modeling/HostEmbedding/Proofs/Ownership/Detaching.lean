import HostEmbedding.Proofs.Ownership.Closures

/-!
# How closures are dropped

What each task of releasing work does to closures. The task that ends the last handle on a function
takes the closure out of its environment. Dropping the closure is the next task, and nothing else
holds the closure then; queueing the function comes after it. The tasks of a flush end no handle, so
they leave every closure where it is.
-/

namespace HostEmbedding

/-- The tasks of a flush: besides itself it drops environments. -/
def Task.Sweeping (Γ : Shapes) : Task → Prop
  | .ref e => ∃ type s, Γ.IsEnv e type s
  | .flush .. => True
  | .sweep .. => True
  | _ => False

namespace World

variable {w v : World} {held : List ObjId} {moving : List NativeId} {t : Task} {rest tasks : List Task}
  {n : NativeId} {c : ObjId} {code : HostCode} {captures : Scope}

/-! ## One task -/

/-- Only a flush hands anything back. -/
theorem retired_perform (plain : ∀ s total, t ≠ .flush s total) {e : ObjId}
    (mem : e ∈ (w.perform t).2.thread.retired) : e ∈ w.thread.retired := by
  cases t with
  | ref id =>
      unfold World.perform at mem
      dsimp only at mem
      split at mem
      · exact mem
      · exact mem
      · next o _ =>
          obtain ⟨heap, events, same⟩ := dispose_eq (w.modifyEntry id fun e => { e with strong := 0 }) id o
          rwa [same] at mem
      · exact mem
  | queue h =>
      have shown := same_logAbout (w.modifyPending h.store fun p => p.push h.native h.state)
        h.native (.deferred h.state.kindName)
      rwa [World.perform, shown.thread] at mem
  | flush s total => exact absurd rfl (plain s total)
  | sweep s total again =>
      unfold World.perform at mem
      dsimp only at mem
      split at mem
      · next none =>
          split at mem
          · exact mem
          · have logged := same_log w (.released total)
            dsimp only at mem
            split at mem
            · exact mem
            · rwa [logged.thread] at mem
      · cases mem
  | deleteStore native =>
      have shown := same_logAbout ((w.guard .storeDelete).deleteNative native) native .deletedStore
      rw [World.perform, shown.thread] at mem
      have same : (w.guard .storeDelete).thread = w.thread := by
        unfold guard
        split <;> rfl
      rw [← same]
      exact mem

/-- A task drops a count only of what it names. -/
theorem strong_perform (other : t ≠ .ref c) : (w.perform t).2.strong c = w.strong c := by
  cases t with
  | ref id =>
      have apart : c ≠ id := fun same => other (by rw [same])
      unfold World.perform
      dsimp only
      split
      · rfl
      · rfl
      · next o found =>
          obtain ⟨strong, -⟩ := dispose_kept found
          exact (strong c).trans (if_neg apart)
      · next k o found => exact (strong_modifyEntry found c).trans (if_neg apart)
  | queue h =>
      have shown := same_logAbout (w.modifyPending h.store fun p => p.push h.native h.state)
        h.native (.deferred h.state.kindName)
      rw [World.perform, shown.strong, strong_modifyPending]
  | flush s total =>
      have hands := hands_releaseBatch (w.modifyPending s fun _ => {}) (w.pending s)
      exact congrFun ((strong_of_heap hands.heap).trans (strong_modifyPending w s _)) c
  | sweep s total again =>
      unfold World.perform
      dsimp only
      split
      · split
        · rfl
        · dsimp only
          split
          · rfl
          · exact congrFun (same_log w (.released total)).strong c
      · rfl
  | deleteStore native =>
      have shown := same_logAbout ((w.guard .storeDelete).deleteNative native) native .deletedStore
      rw [World.perform, shown.strong]
      unfold guard
      split <;> rfl

/-- What is taken out of an environment is the closure that it holds. -/
theorem tasks_detach (w : World) (e : ObjId) :
    (w.detach e).1 = (w.attached? e).toList.map Task.ref := by
  unfold detach attached?
  cases w.entry? e with
  | none => rfl
  | some x =>
      obtain ⟨k, o⟩ := x
      cases o with
      | env closure t s => cases closure <;> rfl
      | _ => rfl

/-- What is to be dropped after an object is what the object owned, and, when it was the owning handle
of a function, the closure before everything else. -/
theorem refs_dispose {id : ObjId} {o : Object} (mem : c ∈ (w.dispose id o).1.flatMap Task.refs) :
    c ∈ o.refs ∨ ∃ h e, o = .handle h ∧ h.state.env? = some e ∧ w.attached? e = some c ∧
      (w.dispose id o).1 = .ref c :: .queue h :: h.refs.map .ref := by
  cases o with
  | store native config p => cases mem
  | handle h =>
      unfold World.dispose at mem ⊢
      dsimp only at mem ⊢
      split at mem
      · next owning =>
          rw [if_pos owning]
          cases env : h.state.env? with
          | none =>
              rw [env] at mem
              exact .inl (by simpa [Task.refs, Object.refs] using mem)
          | some e =>
              rw [env] at mem
              dsimp only at mem ⊢
              rw [tasks_detach] at mem ⊢
              cases attached : w.attached? e with
              | none =>
                  rw [attached] at mem
                  exact .inl (by simpa [Task.refs, Object.refs] using mem)
              | some d =>
                  rw [attached] at mem
                  rcases List.mem_cons.mp mem with rfl | mem
                  · exact .inr ⟨h, e, rfl, env, attached, rfl⟩
                  · exact .inl (by simpa [Task.refs, Object.refs] using mem)
      · exact .inl (by simpa [Object.refs] using mem)
  | env closure t s => exact .inl (by simpa [World.dispose, Object.refs] using mem)
  | closure code captures => exact .inl (by simpa [World.dispose, Object.refs] using mem)
  | referent label payload => exact .inl (by simpa [World.dispose, Object.refs] using mem)
  | cell content => exact .inl (by simpa [World.dispose, Object.refs] using mem)

/-! ## The invariant of releasing work -/

/-- A closure has been taken out of its environment, as the owning handle of its function has ended:
it is dropped next and nothing else holds it, and the function is queued later. -/
def Falling (w : World) (held : List ObjId) (c : ObjId) (tasks : List Task) : Prop :=
  ∃ i h rest, tasks = .ref c :: .queue h :: rest ∧ w.shapes.IsHandle i h ∧
    h.state.env? = some c.env ∧ c ∉ rest.flatMap Task.refs ++ held

/-- The account in the middle of releasing work: what finalizers have handed back are environments. -/
structure Handing (w : World) (held : List ObjId) (tasks : List Task) : Prop
    extends Draining w held tasks where
  handed : ∀ e ∈ w.thread.retired, ∃ type s, w.shapes.IsEnv e type s

theorem Handing.handed_perform (handing : w.Handing held (t :: rest)) {e : ObjId}
    (mem : e ∈ (w.perform t).2.thread.retired) : ∃ type s, w.shapes.IsEnv e type s := by
  by_cases flush : ∃ s total, t = .flush s total
  · obtain ⟨s, total, rfl⟩ := flush
    obtain ⟨moved, batch⟩ := handing.batch
    have retired := moved.retired_releaseBatch batch
    rw [World.perform] at mem
    dsimp only at mem
    rw [retired] at mem
    rcases List.mem_append.mp mem with mem | mem
    · exact handing.handed e mem
    · obtain ⟨n, -, lent⟩ := List.mem_filterMap.mp mem
      obtain ⟨i, h, type, -, -, isEnv⟩ := handing.acc.owner_of_lentTo lent
      exact ⟨type, h.store, isEnv⟩
  · exact handing.handed e (retired_perform (fun s total same => flush ⟨s, total, same⟩) mem)

/-- Each task keeps what was handed back apart. -/
theorem Handing.perform (handing : w.Handing held (t :: rest)) :
    (w.perform t).2.Handing held ((w.perform t).1 ++ rest) := by
  refine ⟨handing.toDraining.perform, fun e mem => ?_⟩
  rw [(drains_perform w t).shapes]
  exact handing.handed_perform mem

/-- An environment that holds a closure is not at its end, as a handle holds the environment. -/
theorem Accounted.not_last (acc : w.Accounted (c :: held) moving) {d : ObjId}
    (attached : w.attached? c = some d) : w.strong c ≠ 1 := by
  obtain ⟨-, i, h, -, -, -, mem⟩ := acc.alive_of_attached attached
  have positive := List.count_pos_iff.mpr mem
  rw [acc.counted c, List.count_cons_self]
  omega

/-- A task of a flush brings up tasks of a flush: an environment that it drops holds nothing. -/
theorem Handing.sweeping (handing : w.Handing held (t :: rest)) (sweeping : t.Sweeping w.shapes)
    {u : Task} (mem : u ∈ (w.perform t).1) : u.Sweeping w.shapes := by
  cases t with
  | ref e =>
      have acc : w.Accounted (e :: (rest.flatMap Task.refs ++ held)) (rest.flatMap Task.natives) :=
        handing.acc
      obtain ⟨type, s, isEnv⟩ := sweeping
      obtain ⟨k, closure, entry⟩ := isEnv_iff.mp isEnv
      unfold World.perform at mem
      dsimp only at mem
      split at mem
      · cases mem
      · cases mem
      · next o found =>
          cases found.symm.trans entry
          obtain ⟨c, held, -⟩ := List.mem_map.mp mem
          obtain rfl : closure = some c := Option.mem_toList.mp held
          exact absurd (strong_eq found) (acc.not_last (attached?_eq_some.mpr ⟨1, type, s, found⟩))
      · cases mem
  | flush s total =>
      obtain rfl := List.mem_singleton.mp mem
      trivial
  | sweep s total again =>
      by_cases retired : w.thread.retired = []
      · unfold World.perform at mem
        rw [retired] at mem
        dsimp only at mem
        split at mem
        · obtain rfl := List.mem_singleton.mp mem
          trivial
        · cases mem
      · rw [perform_sweep retired] at mem
        rcases List.mem_append.mp mem with mem | mem
        · obtain ⟨e, listed, rfl⟩ := List.mem_map.mp mem
          exact handing.handed e listed
        · obtain rfl := List.mem_singleton.mp mem
          trivial
  | queue h => exact absurd sweeping not_false
  | deleteStore native => exact absurd sweeping not_false

/-- The account in the middle of releasing work that drops no function whose body is running. What is
held outside the heap guards its closures, by a handle that is held as well. -/
structure Detaching (w : World) (held : List ObjId) (tasks : List Task) : Prop
    extends Handing w held tasks where
  orderly : w.Orderly tasks
  guarded : ∀ {c code captures}, w.shapes.IsClosure c code captures →
    c ∈ tasks.flatMap Task.refs ++ held →
      (∃ f ∈ held, w.shapes.Calls f c) ∨ w.Falling held c tasks

/-- A task that brings up the drop of a closure ends the owning handle of its function. -/
theorem Detaching.brings_up (detaching : w.Detaching held (t :: rest))
    (isClosure : w.shapes.IsClosure c code captures) (mem : c ∈ (w.perform t).1.flatMap Task.refs) :
    ∃ i h, w.shapes.IsHandle i h ∧ t = .ref i ∧ h.state.env? = some c.env ∧
      (w.perform t).1 = .ref c :: .queue h :: h.refs.map .ref := by
  cases t with
  | ref id =>
      have acc : w.Accounted (id :: (rest.flatMap Task.refs ++ held)) (rest.flatMap Task.natives) :=
        detaching.acc
      unfold World.perform at mem ⊢
      dsimp only at mem ⊢
      split at mem
      · cases mem
      · cases mem
      · next o found =>
          have before : (w.modifyEntry id fun e => { e with strong := 0 }).attached? = w.attached? :=
            attached?_modifyEntry fun _ _ => rfl
          rcases refs_dispose mem with mem | ⟨h, e, rfl, env, attached, tasks⟩
          · have holds := (acc.objects found).closureOf mem isClosure
            have attached : w.attached? id = some c := by rw [attached?_eq, found]; exact holds
            exact absurd (strong_eq found) (acc.not_last attached)
          · rw [before] at attached
            rw [acc.env_of_attached attached] at env
            exact ⟨id, h, isHandle_iff.mpr ⟨1, found⟩, rfl, env, tasks⟩
      · cases mem
  | queue h => cases mem
  | flush s total => cases mem
  | sweep s total again =>
      unfold World.perform at mem
      dsimp only at mem
      split at mem
      · split at mem <;> cases mem
      · rw [List.flatMap_append, Task.flatMap_refs_ref, List.mem_append] at mem
        rcases mem with mem | mem
        · obtain ⟨type, store, isEnv⟩ := detaching.handed c mem
          exact absurd isClosure isEnv.plain
        · cases mem
  | deleteStore native => cases mem

/-- Each task keeps the invariant. -/
theorem Detaching.perform (detaching : w.Detaching held (t :: rest)) :
    (w.perform t).2.Detaching held ((w.perform t).1 ++ rest) := by
  have shapes := (drains_perform w t).shapes
  refine ⟨detaching.toHanding.perform, detaching.orderly.perform, fun {c code captures} isClosure mem => ?_⟩
  rw [shapes] at isClosure ⊢
  unfold Falling
  rw [shapes]
  -- What was to be dropped already is guarded as before, unless it is what this task drops.
  have old (left : c ∈ rest.flatMap Task.refs ++ held) : ∃ f ∈ held, w.shapes.Calls f c := by
    have named : c ∈ (t :: rest).flatMap Task.refs ++ held := by
      rw [List.flatMap_cons, List.append_assoc]
      exact List.mem_append_right _ left
    refine (detaching.guarded isClosure named).resolve_right ?_
    rintro ⟨i, h, more, same, -, -, alone⟩
    cases same
    exact alone left
  rw [List.flatMap_append, List.append_assoc, List.mem_append] at mem
  rcases mem with new | mem
  · by_cases kept : c ∈ rest.flatMap Task.refs ++ held
    · exact .inl (old kept)
    · obtain ⟨i, h, known, -, env, tasks⟩ := detaching.brings_up isClosure new
      obtain ⟨k, found⟩ := isHandle_iff.mp known
      have fits : h.Fits w.shapes := detaching.acc.objects found
      refine .inr ⟨i, h, h.refs.map .ref ++ rest, by rw [tasks]; rfl, known, env, fun mem => ?_⟩
      rw [List.flatMap_append, Task.flatMap_refs_ref, List.append_assoc, List.mem_append] at mem
      rcases mem with mem | mem
      · exact fits.plain mem isClosure
      · exact kept mem
  · exact .inl (old mem)

theorem Detaching.drain {k : Nat} {tasks : List Task} {w : World} (detaching : w.Detaching held tasks) :
    (World.drain k tasks w).2.Detaching held (World.drain k tasks w).1 := by
  induction k generalizing tasks w with
  | zero => cases tasks <;> exact detaching
  | succ k ih =>
      cases tasks with
      | nil => exact detaching
      | cons t rest => exact ih detaching.perform

/-! ## What a task does to closures -/

/-- Outside what is held and what is to be dropped, only its environment holds a closure. -/
theorem Detaching.strong_eq_count (detaching : w.Detaching held tasks)
    (isClosure : w.shapes.IsClosure c code captures) :
    w.strong c = (tasks.flatMap Task.refs ++ held).count c + w.owned.count c := by
  have retired : w.thread.retired.count c = 0 := List.count_eq_zero.mpr fun mem => by
    obtain ⟨type, s, isEnv⟩ := detaching.handed c mem
    exact isEnv.plain isClosure
  have lent := List.count_eq_zero.mpr (detaching.acc.not_lent isClosure)
  rw [detaching.acc.counted c, retired, lent]
  omega

/-- A closure that is guarded by a handle is attached. -/
theorem Detaching.attached_of_guard (detaching : w.Detaching held tasks)
    (guard : ∃ f ∈ held, w.shapes.Calls f c) : w.attached? c.env = some c := by
  obtain ⟨f, mem, calls⟩ := guard
  exact detaching.acc.attached_of_calls calls (detaching.acc.alive (List.mem_append_right _ mem))

/-- A closure that is alive is attached or about to be dropped. -/
theorem Detaching.attached_or_falling (detaching : w.Detaching held tasks)
    (isClosure : w.shapes.IsClosure c code captures) (alive : w.strong c ≠ 0) :
    w.attached? c.env = some c ∨ w.Falling held c tasks := by
  by_cases owned : c ∈ w.owned
  · exact .inl (detaching.acc.attached_of_owned isClosure owned)
  · rw [detaching.strong_eq_count isClosure, List.count_eq_zero.mpr owned] at alive
    have mem : c ∈ tasks.flatMap Task.refs ++ held := List.count_pos_iff.mp (by omega)
    exact (detaching.guarded isClosure mem).imp_left detaching.attached_of_guard

/-- The function of a closure that is about to be dropped has no handle any more, and it is neither
queued nor deleted. -/
theorem Draining.falling_func (draining : w.Draining held tasks) (falling : w.Falling held c tasks) :
    ∃ h more, tasks = .ref c :: .queue h :: more ∧ w.IsClosureOf h.native c ∧ ¬ w.Lives h.native ∧
      h.native ∉ w.queued ∧ w.deletions h.native = 0 := by
  obtain ⟨i, h, more, rfl, known, env, -⟩ := falling
  obtain ⟨owner, s, type, -, -, native⟩ := draining.acc.env_known known env
  have own : w.IsClosureOf h.native c := lentTo_of_shape native
  have moves : h.native ∈ (Task.ref c :: .queue h :: more).flatMap Task.natives := List.mem_cons_self
  have positive := List.count_pos_iff.mpr moves
  have place := draining.acc.placed h.native
  have isOwner : w.IsOwner h.native i h := isOwner_iff.mpr ⟨known, owner, rfl⟩
  have dead : w.strong i = 0 := by
    by_contra alive
    have claimed := List.count_pos_iff.mpr ((draining.acc.mem_claimed_iff isOwner).mpr alive)
    split at place <;> omega
  refine ⟨h, more, rfl, own, fun lives => ?_, ?_, by split at place <;> omega⟩
  · have attached := (draining.acc.attached_iff own).mpr lives
    rw [(draining.acc.attached known env).mp dead] at attached
    cases attached
  · exact List.count_eq_zero.mp (by split at place <;> omega)

theorem Detaching.strong_of_falling (detaching : w.Detaching held tasks)
    (isClosure : w.shapes.IsClosure c code captures) (falling : w.Falling held c tasks) :
    w.strong c = 1 := by
  have detached : w.attached? c.env ≠ some c := by
    obtain ⟨h, more, -, own, gone, -⟩ := detaching.falling_func falling
    exact fun attached => gone ((detaching.acc.attached_iff own).mp attached)
  have owned : w.owned.count c = 0 := List.count_eq_zero.mpr fun mem =>
    detached (detaching.acc.attached_of_owned isClosure mem)
  obtain ⟨i, h, more, rfl, -, -, alone⟩ := falling
  rw [detaching.strong_eq_count isClosure, owned]
  show (c :: (more.flatMap Task.refs ++ held)).count c + 0 = 1
  rw [List.count_cons_self, List.count_eq_zero.mpr alone]

/-- No two functions have one closure. -/
theorem Accounted.closure_func_unique (acc : w.Accounted held moving) {k : NativeId}
    (first : w.IsClosureOf n c) (second : w.IsClosureOf k c) : n = k := by
  obtain ⟨i, h, -, owner, env, -⟩ := acc.owner_of_lentTo first
  obtain ⟨j, g, -, owner', env', -⟩ := acc.owner_of_lentTo second
  obtain ⟨known, -, rfl⟩ := isOwner_iff.mp owner
  obtain ⟨known', -, rfl⟩ := isOwner_iff.mp owner'
  obtain rfl := acc.envsUnique known known' env env'
  cases Option.some.inj (known.symm.trans known')
  rfl

theorem strong_perform_ref (w : World) (c : ObjId) :
    (w.perform (.ref c)).2.strong c = w.strong c - 1 := by
  unfold World.perform
  dsimp only
  split
  · next none => rw [strong_of_none none]
  · next o found =>
      rw [strong_eq found]
      rfl
  · next o found =>
      obtain ⟨strong, -⟩ := dispose_kept found
      refine (strong c).trans ?_
      rw [if_pos rfl, strong_eq found]
      rfl
  · next k o found =>
      refine (strong_modifyEntry found c).trans ?_
      rw [if_pos rfl, strong_eq found]
      rfl

/-- Only the drop of a closure that is about to be dropped ends it. -/
theorem Detaching.falling_of_end (detaching : w.Detaching held (t :: rest))
    (isClosure : w.shapes.IsClosure c code captures) (alive : w.strong c ≠ 0)
    (ended : (w.perform t).2.strong c = 0) : t = .ref c ∧ w.Falling held c (t :: rest) := by
  by_cases same : t = .ref c
  · subst same
    refine ⟨rfl, (detaching.guarded isClosure (List.mem_append_left _ List.mem_cons_self)).resolve_left
      fun guard => ?_⟩
    -- The environment holds the closure as well, so one drop does not end it.
    obtain ⟨owned, -⟩ := detaching.acc.alive_of_attached (detaching.attached_of_guard guard)
    have positive := List.count_pos_iff.mpr owned
    have count := detaching.strong_eq_count isClosure
    rw [List.flatMap_cons, List.append_assoc] at count
    have named : ([c] ++ (rest.flatMap Task.refs ++ held)).count c =
        (rest.flatMap Task.refs ++ held).count c + 1 := List.count_cons_self
    rw [strong_perform_ref] at ended
    rw [show Task.refs (.ref c) = [c] from rfl, named] at count
    omega
  · rw [strong_perform same] at ended
    exact absurd ended alive

/-- The end of a closure reports it. -/
theorem drops_perform (isClosure : w.shapes.IsClosure c code captures) (last : w.strong c = 1) :
    (w.perform (.ref c)).2.drops = .closure code.label :: w.drops := by
  obtain ⟨k, found⟩ := isClosure_iff.mp isClosure
  rw [strong_eq found] at last
  dsimp only at last
  subst last
  unfold World.perform
  dsimp only
  rw [found]
  rfl

/-- What one task of releasing work does to the closures of functions. -/
structure ClosureStep (w : World) (t : Task) (rest : List Task) : Prop where
  /-- A closure leaves its environment exactly when the last handle on its function ends. Dropping it,
  which ends it, is the next task, and queueing the function is the one after it. -/
  detached : ∀ {n c code captures}, w.IsClosureOf n c → w.shapes.IsClosure c code captures →
    w.Lives n → ¬ (w.perform t).2.Lives n →
      (w.perform t).2.attached? c.env = none ∧ ((w.perform t).2.perform (.ref c)).2.strong c = 0 ∧
        ∃ h more, (w.perform t).1 ++ rest = .ref c :: .queue h :: more ∧ h.native = n
  /-- A closure ends only so: by the task that drops it, after the last handle and before the function is
  queued; the end is reported. -/
  dropped : ∀ {n c code captures}, w.IsClosureOf n c → w.shapes.IsClosure c code captures →
    w.strong c ≠ 0 → (w.perform t).2.strong c = 0 →
      t = .ref c ∧ (w.perform t).2.drops = .closure code.label :: w.drops ∧ ¬ w.Lives n ∧
        n ∉ w.queued ∧ w.deletions n = 0 ∧ ∃ h more, rest = .queue h :: more ∧ h.native = n

theorem Detaching.closureStep (detaching : w.Detaching held (t :: rest)) : w.ClosureStep t rest := by
  have shapes := (drains_perform w t).shapes
  have lent := (drains_perform w t).lentTo
  constructor
  case detached =>
      intro n c code captures own isClosure lives gone
      have next := detaching.perform
      have isClosure' : (w.perform t).2.shapes.IsClosure c code captures := by rwa [shapes]
      have own' : (w.perform t).2.IsClosureOf n c := by
        unfold IsClosureOf
        rwa [lent]
      have detached : (w.perform t).2.attached? c.env ≠ some c := fun attached =>
        gone ((next.acc.attached_iff own').mp attached)
      have attached := (detaching.acc.attached_iff own).mpr lives
      have alive := detaching.acc.alive_of_mem_owned (detaching.acc.alive_of_attached attached).1
      have kept : (w.perform t).2.strong c ≠ 0 := fun ended => by
        obtain ⟨-, falling⟩ := detaching.falling_of_end isClosure alive ended
        obtain ⟨h, more, -, own'', dead, -⟩ := detaching.falling_func falling
        exact dead ((detaching.acc.attached_iff own'').mp attached)
      have falling := (next.attached_or_falling isClosure' kept).resolve_left detached
      obtain ⟨h, more, tasks, own'', -⟩ := next.falling_func falling
      refine ⟨(next.acc.attached_or c).resolve_right detached, ?_, h, more, tasks,
        next.acc.closure_func_unique own'' own'⟩
      rw [strong_perform_ref, next.strong_of_falling isClosure' falling]
  case dropped =>
      intro n c code captures own isClosure alive ended
      obtain ⟨rfl, falling⟩ := detaching.falling_of_end isClosure alive ended
      obtain ⟨h, more, tasks, own', gone, queued, deleted⟩ := detaching.falling_func falling
      obtain rfl := detaching.acc.closure_func_unique own own'
      exact ⟨rfl, drops_perform isClosure (detaching.strong_of_falling isClosure falling), gone, queued,
        deleted, h, more, (List.cons.inj tasks).2, rfl⟩

/-! ## Flushes -/

/-- All closures are where they were. -/
structure Untouched (w v : World) : Prop where
  attached : v.attached? = w.attached?
  strong : ∀ {c code captures}, w.shapes.IsClosure c code captures → v.strong c = w.strong c

/-- A task of a flush leaves the closures alone. -/
theorem Detaching.untouched (detaching : w.Detaching held (t :: rest)) (sweeping : t.Sweeping w.shapes) :
    Untouched w (w.perform t).2 := by
  have drains := drains_perform w t
  have apart {c : ObjId} {code : HostCode} {captures : Scope}
      (isClosure : w.shapes.IsClosure c code captures) {u : Task} (named : u.Sweeping w.shapes) :
      u ≠ .ref c := by
    rintro rfl
    obtain ⟨type, s, isEnv⟩ := named
    exact isEnv.plain isClosure
  have strong {c : ObjId} {code : HostCode} {captures : Scope}
      (isClosure : w.shapes.IsClosure c code captures) : (w.perform t).2.strong c = w.strong c :=
    strong_perform (apart isClosure sweeping)
  refine ⟨funext fun e => ?_, strong⟩
  cases attached : w.attached? e with
  | none =>
      by_contra some
      obtain ⟨c, holds⟩ := Option.ne_none_iff_exists'.mp some
      rw [drains.attached holds] at attached
      cases attached
  | some c =>
      obtain rfl := detaching.acc.env_of_attached attached
      obtain ⟨code, captures, isClosure⟩ := detaching.acc.isClosure_of_attached attached
      have isClosure' : (w.perform t).2.shapes.IsClosure c code captures := by rwa [drains.shapes]
      have alive := detaching.acc.alive_of_mem_owned (detaching.acc.alive_of_attached attached).1
      rw [← strong isClosure] at alive
      have next := detaching.perform
      rcases next.attached_or_falling isClosure' alive with holds | ⟨i, h, more, tasks, -⟩
      · exact holds
      -- The next task would drop the closure, but this task does not bring that up.
      cases brought : (w.perform t).1 with
      | cons u us =>
          rw [brought] at tasks
          have named := detaching.sweeping sweeping (by rw [brought]; exact List.mem_cons_self)
          exact absurd (List.cons.inj tasks).1 (apart isClosure named)
      | nil =>
          rw [brought, List.nil_append] at tasks
          subst tasks
          have mem : c ∈ (t :: .ref c :: .queue h :: more).flatMap Task.refs ++ held := by
            rw [List.flatMap_cons, List.append_assoc]
            exact List.mem_append_right _ List.mem_cons_self
          rcases detaching.guarded isClosure mem with ⟨f, listed, calls⟩ | ⟨_, _, _, same, -⟩
          · exact next.attached_of_guard ⟨f, listed, by rwa [drains.shapes]⟩
          · exact absurd (List.cons.inj same).1 (apart isClosure sweeping)

/-- Nothing that a flush does up to its end touches a closure. -/
theorem Detaching.flushes {k : Nat} {first : List Task} {w : World}
    (detaching : w.Detaching held (first ++ rest)) (sweeping : ∀ t ∈ first, t.Sweeping w.shapes) :
    Untouched w (World.drain k first w).2 := by
  induction k generalizing first w with
  | zero => cases first <;> exact ⟨rfl, fun _ => rfl⟩
  | succ k ih =>
      cases first with
      | nil => exact ⟨rfl, fun _ => rfl⟩
      | cons t first =>
          rw [List.cons_append] at detaching
          have shapes := (drains_perform w t).shapes
          have named := sweeping t List.mem_cons_self
          have untouched := detaching.untouched named
          have next := detaching.perform
          rw [← List.append_assoc] at next
          have later := ih next fun u mem => by
            rw [shapes]
            rcases List.mem_append.mp mem with mem | mem
            · exact detaching.sweeping named mem
            · exact sweeping u (List.mem_cons_of_mem _ mem)
          refine ⟨later.attached.trans untouched.attached, fun isClosure => ?_⟩
          exact (later.strong (by rwa [shapes])).trans (untouched.strong isClosure)

end World

end HostEmbedding
