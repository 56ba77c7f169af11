import HostEmbedding.Proofs.Alike.World

/-!
# Releasing in two runs

Under other shapes releasing work does the same, task by task. Under other flushes the tasks of a flush
do nothing that the other run would see: what they delete nothing refers to, and the environments that
they drop hold no closure. All other tasks do the same in both runs, whatever is queued.
-/

namespace HostEmbedding.World

variable {δ : Variation} {w v : World} {held held' : List ObjId} {t : Task} {rest tasks : List Task}

/-! ## What the other run does not see -/

theorem modifyEntry_self (w : World) (id : ObjId) : (w.modifyEntry id fun e => e) = w := by
  have same : w.heap.modify id.index (fun e => e) = w.heap :=
    Array.ext (by simp) fun i _ _ => by simp [Array.getElem_modify]
  exact congrArg (fun heap => { w with heap }) same

theorem modifyNative_self (w : World) (n : NativeId) : (w.modifyNative n fun e => e) = w := by
  have same : w.natives.modify n.index (fun e => e) = w.natives :=
    Array.ext (by simp) fun i _ _ => by simp [Array.getElem_modify]
  exact congrArg (fun natives => { w with natives }) same

/-- What leads from one world to the other is not seen by a run with other flushes. -/
structure Swept (w w' : World) : Prop where
  left : ∀ {v : World}, w.Alike .flushes v → w'.Alike .flushes v
  right : ∀ {v : World}, v.Alike .flushes w → v.Alike .flushes w'
  numbered : w.Numbered → w'.Numbered
  shown : ∀ {n : NativeId}, w.IsNumbered n → w'.IsNumbered n
  events : w'.events.filter Variation.flushes.shows = w.events.filter Variation.flushes.shows

namespace Swept

theorem refl (w : World) : Swept w w := ⟨id, id, id, id, rfl⟩

theorem trans {u : World} (first : Swept w v) (second : Swept v u) : Swept w u :=
  ⟨fun alike => second.left (first.left alike), fun alike => second.right (first.right alike),
    fun numbered => second.numbered (first.numbered numbered), fun shown => second.shown (first.shown shown),
    second.events.trans first.events⟩

end Swept

/-- Other events, but the same of those that are compared. -/
theorem swept_events (w : World) {es : List Event}
    (same : es.filter Variation.flushes.shows = w.events.filter Variation.flushes.shows) :
    Swept w { w with events := es } :=
  ⟨fun alike => { alike with events := alike.events.trans same.symm },
    fun alike => { alike with events := same.trans alike.events }, id, id, same⟩

/-- A change of an entry that leaves its object alone, apart from queues that are emptied, and the counts
of all but environments. -/
theorem swept_modifyEntry {id : ObjId} {f : Entry → Entry}
    (left : ∀ e e' : Entry, w.entry? id = some e → e.Alike .flushes e' → (f e).Alike .flushes e')
    (right : ∀ e e' : Entry, w.entry? id = some e' → e.Alike .flushes e' → e.Alike .flushes (f e'))
    (queues : ∀ e, w.entry? id = some e → ∀ n ∈ (f e).object.queued, n ∈ e.object.queued) :
    Swept w (w.modifyEntry id f) where
  left {v} alike := by
    have changed := alike.modifyEntry (fun e e' found _ related => left e e' found related)
      (fun e found n mem => .inl (queues e found n mem)) (fun _ _ _ mem => .inl mem)
    rwa [modifyEntry_self v id] at changed
  right {v} alike := by
    have changed := alike.modifyEntry (fun e e' _ found related => right e e' found related)
      (fun _ _ _ mem => .inl mem) (fun e found n mem => .inl (queues e found n mem))
    rwa [modifyEntry_self v id] at changed
  numbered numbered := numbered.modifyEntry fun e found n mem => .inl (queues e found n mem)
  shown shown := shown
  events := rfl

theorem swept_modifyNative (w : World) (n : NativeId) {f : NativeEntry → NativeEntry}
    (object : ∀ e, (f e).object = e.object) (tag : ∀ e, (f e).tag = e.tag) :
    Swept w (w.modifyNative n f) where
  left {v} alike := by
    have changed := alike.modifyNative n (f := f) (g := fun e => e)
      (fun e e' related => ⟨related.object.trans (object e).symm, related.tag.trans (tag e).symm, (absurd rfl ·)⟩)
      (fun e shown => by rwa [tag e]) (fun _ shown => shown)
    rwa [modifyNative_self v n] at changed
  right {v} alike := by
    have changed := alike.modifyNative n (f := fun e => e) (g := f)
      (fun e e' related => ⟨(object e').trans related.object, (tag e').trans related.tag, (absurd rfl ·)⟩)
      (fun _ shown => shown) (fun e shown => by rwa [tag e])
    rwa [modifyNative_self v n] at changed
  numbered numbered := numbered.modifyNative fun e shown => by rwa [tag e]
  shown shown := shown.modifyNative fun e shown => by rwa [tag e]
  events := rfl

theorem swept_modifyThread (w : World) {f : ThreadState → ThreadState}
    (frames : (f w.thread).frames = w.thread.frames) : Swept w (w.modifyThread f) where
  left alike := { alike with frames := alike.frames.trans frames.symm, thread := (absurd rfl ·) }
  right alike := { alike with frames := frames.trans alike.frames, thread := (absurd rfl ·) }
  numbered numbered := numbered
  shown shown := shown
  events := rfl

theorem swept_lastFlush (w : World) (total : Nat) : Swept w { w with lastFlush := total } where
  left alike := { alike with lastFlush := (absurd rfl ·) }
  right alike := { alike with lastFlush := (absurd rfl ·) }
  numbered numbered := numbered
  shown shown := shown
  events := rfl

theorem swept_guard (w : World) (op : GuardedOp) : Swept w (w.guard op) := by
  unfold World.guard
  split
  · exact .refl w
  · exact ⟨fun alike => { alike with }, fun alike => { alike with }, id, id, rfl⟩

/-- An event that is not a drop. -/
theorem swept_emit (w : World) {e : Event} (hidden : Variation.flushes.shows e = false) :
    Swept w (w.emit e) :=
  swept_events w (List.filter_cons_of_neg (by simp [hidden]))

theorem swept_log (w : World) (r : LogRecord) : Swept w (w.log r) := by
  unfold World.log
  split
  · split
    · exact swept_emit w rfl
    · exact .refl w
  · exact .refl w

/-- What has been shown before is shown under its old number. -/
theorem swept_logAbout {n : NativeId} (shown : w.IsNumbered n) (r : Nat → LogRecord) :
    Swept w (w.logAbout n r) := by
  obtain ⟨t, known⟩ := Option.isSome_iff_exists.mp shown
  have same : w.tag n = (t, w) := by
    unfold World.tag
    rw [known]
  unfold World.logAbout
  rw [same]
  exact swept_log w (r t)

theorem swept_deleteNative (w : World) (n : NativeId) : Swept w (w.deleteNative n) :=
  swept_modifyNative w n (fun _ => rfl) (fun _ => rfl)

theorem swept_deleteFunc (w : World) (n : NativeId) : Swept w (w.deleteFunc n) := by
  have deleted := (swept_guard w .funcDelete).trans (swept_deleteNative _ n)
  unfold World.deleteFunc
  dsimp only
  split
  · have finalized := deleted.trans (swept_modifyNative _ n (f := fun e => { e with finalized := e.finalized + 1 })
      (fun _ => rfl) fun _ => rfl)
    exact ((finalized.trans (swept_modifyThread _ rfl)).trans (swept_modifyThread _ rfl)).trans
      (swept_modifyThread _ rfl)
  · exact deleted

theorem swept_releaseNative {n : NativeId} (shown : w.IsNumbered n) (kind : HandleState) :
    Swept w (w.releaseNative kind n) := by
  have logged := swept_logAbout shown (.releasing kind.kindName)
  have deleted (w : World) (op : GuardedOp) : Swept w ((w.guard op).deleteNative n) :=
    (swept_guard w op).trans (swept_deleteNative _ n)
  unfold World.releaseNative
  dsimp only
  cases kind with
  | memory lock => exact logged.trans (deleted _ _)
  | interrupt => exact logged.trans (deleted _ _)
  | func env => exact logged.trans (swept_deleteFunc _ n)
  | view =>
      refine logged.trans ?_
      dsimp only
      unfold World.deleteExtern
      split
      · exact swept_deleteFunc _ n
      · exact deleted _ _
      · exact .refl _

theorem swept_releaseQueue (kind : HandleState) (ns : List NativeId) {w : World}
    (shown : ∀ n ∈ ns, w.IsNumbered n) : Swept w (w.releaseQueue kind ns) := by
  induction ns generalizing w with
  | nil => exact .refl w
  | cons n rest ih =>
      have first := swept_releaseNative (shown n List.mem_cons_self) kind
      exact first.trans (ih fun x mem => first.shown (shown x (List.mem_cons_of_mem n mem)))

/-- Releasing a batch that has been shown. -/
theorem swept_releaseBatch {p : Pending} (shown : ∀ n ∈ p.inOrder, w.IsNumbered n) :
    Swept w (w.releaseBatch p) := by
  have apart {n : NativeId} {P : Prop} (mem : n ∈ p.memories ++ p.externs ++ p.interrupts ++ p.funcs)
      (next : w.IsNumbered n → P) : P := next (shown n mem)
  have memories : Swept w _ := swept_releaseQueue (.memory 0) p.memories fun n mem =>
    apart (by simp [mem]) id
  have externs := swept_releaseQueue .view p.externs fun n mem =>
    memories.shown (apart (by simp [mem]) id)
  have interrupts := swept_releaseQueue .interrupt p.interrupts fun n mem =>
    externs.shown (memories.shown (apart (by simp [mem]) id))
  have funcs := swept_releaseQueue (.func none) p.funcs fun n mem =>
    interrupts.shown (externs.shown (memories.shown (apart (by simp [mem]) id)))
  exact ((memories.trans externs).trans interrupts).trans funcs

theorem Numbered.pending (numbered : w.Numbered) (s : ObjId) : ∀ n ∈ (w.pending s).inOrder, w.IsNumbered n := by
  intro n mem
  unfold World.pending at mem
  split at mem
  · next found => exact numbered s _ found n mem
  · cases mem

/-- Emptying the queues of a store. -/
theorem swept_emptied (w : World) (s : ObjId) : Swept w (w.modifyPending s fun _ => {}) := by
  refine swept_modifyEntry (fun e e' _ related => ?_) (fun e e' _ related => ?_) fun e _ n mem => ?_
  · obtain ⟨k, o⟩ := e
    obtain ⟨k', o'⟩ := e'
    obtain ⟨object, strong⟩ := related
    cases object with
    | store => exact ⟨.store (absurd rfl ·), strong⟩
    | closure _ like => exact ⟨.closure _ like, strong⟩
    | handle | env | referent | cell => exact ⟨by constructor, strong⟩
  · obtain ⟨k, o⟩ := e
    obtain ⟨k', o'⟩ := e'
    obtain ⟨object, strong⟩ := related
    cases object with
    | store => exact ⟨.store (absurd rfl ·), strong⟩
    | closure _ like => exact ⟨.closure _ like, strong⟩
    | handle | env | referent | cell => exact ⟨by constructor, strong⟩
  · dsimp only at mem
    split at mem
    · cases mem
    · exact mem

/-- A count of an environment that changes. -/
theorem swept_count {e : ObjId} {type : FuncType} {s : ObjId} (isEnv : w.shapes.IsEnv e type s) (k : Nat) :
    Swept w (w.modifyEntry e fun x => { x with strong := k }) := by
  obtain ⟨j, closure, known⟩ := isEnv_iff.mp isEnv
  have never {k' j' : Nat} (counts : Variation.flushes ≠ .flushes ∨ (Object.env closure type s).isEnv = false) :
      k' = j' := by
    rcases counts with among | plain
    · exact absurd rfl among
    · cases plain
  refine swept_modifyEntry (fun x x' found related => ?_) (fun x x' found related => ?_)
    fun x found n mem => mem
  · obtain rfl := Option.some.inj (known.symm.trans found)
    exact ⟨related.object, never⟩
  · obtain rfl := Option.some.inj (known.symm.trans found)
    obtain ⟨i, o⟩ := x
    obtain ⟨object, -⟩ := related
    cases object
    exact ⟨.env _ _ _, never⟩

/-- A task of a flush is not seen. -/
theorem Handing.swept_perform (handing : w.Handing held (t :: rest)) (sweeping : t.Sweeping w.shapes)
    (numbered : w.Numbered) : Swept w (w.perform t).2 := by
  cases t with
  | ref e =>
      obtain ⟨type, s, isEnv⟩ := sweeping
      obtain ⟨k, closure, entry⟩ := isEnv_iff.mp isEnv
      unfold World.perform
      dsimp only
      split
      · exact .refl w
      · exact .refl w
      · next o found =>
          cases found.symm.trans entry
          exact swept_count isEnv 0
      · exact swept_count isEnv _
  | flush s total =>
      have emptied := swept_emptied w s
      exact emptied.trans (swept_releaseBatch fun n mem => emptied.shown (numbered.pending s n mem))
  | sweep s total again =>
      by_cases retired : w.thread.retired = []
      · unfold World.perform
        rw [retired]
        dsimp only
        split
        · exact .refl w
        · split
          · exact swept_lastFlush w total
          · exact (swept_log w (.released total)).trans (swept_lastFlush _ total)
      · rw [perform_sweep retired]
        exact swept_modifyThread w (f := fun t => { t with retired := [] }) rfl
  | queue h => exact absurd sweeping not_false
  | deleteStore n => exact absurd sweeping not_false

/-- The work of a flush that stands in front of other work. -/
structure Fronted (w w' : World) (held : List ObjId) (first rest : List Task) : Prop where
  swept : Swept w w'
  handing : w'.Handing held rest
  effort : w'.effort rest + first.length ≤ w.effort (first ++ rest)

/-- Nothing that a flush does up to its end is seen. -/
theorem Handing.fronted {first : List Task} {w : World} (handing : w.Handing held (first ++ rest))
    (sweeping : ∀ t ∈ first, t.Sweeping w.shapes) (numbered : w.Numbered) :
    Fronted w (w.complete first) held first rest := by
  induction effort : w.effort first using Nat.strongRecOn generalizing w first with
  | ind k ih =>
      cases first with
      | nil => exact ⟨.refl w, handing, Nat.le_refl _⟩
      | cons t first =>
          have own := sweeping t List.mem_cons_self
          have swept := handing.swept_perform own numbered
          have more : (w.perform t).2.Handing held ((w.perform t).1 ++ (first ++ rest)) := handing.perform
          rw [← List.append_assoc] at more
          have sweeping' : ∀ u ∈ (w.perform t).1 ++ first, u.Sweeping (w.perform t).2.shapes := by
            rw [(drains_perform w t).shapes]
            intro u mem
            rcases List.mem_append.mp mem with mem | mem
            · exact handing.sweeping own mem
            · exact sweeping u (List.mem_cons_of_mem t mem)
          have later := ih _ (effort ▸ effort_perform_lt w t first) more sweeping' (swept.numbered numbered) rfl
          have less := effort_perform_lt w t (first ++ rest)
          have fewer := later.effort
          rw [List.append_assoc, List.length_append] at fewer
          rw [complete_cons]
          refine ⟨swept.trans later.swept, later.handing, ?_⟩
          rw [List.cons_append, List.length_cons]
          omega

/-! ## What both runs do -/

/-- Showing a native object and queueing one have nothing to do with each other. -/
theorem logAbout_modifyPending (w : World) (s : ObjId) (f : Pending → Pending) (n : NativeId)
    (r : Nat → LogRecord) :
    (w.modifyPending s f).logAbout n r = (w.logAbout n r).modifyPending s f := by
  have tag : (w.modifyPending s f).tag n = ((w.tag n).1, (w.tag n).2.modifyPending s f) := by
    have same : (w.modifyPending s f).natives = w.natives := rfl
    unfold World.tag
    rw [same]
    generalize (w.natives[n.index]?).bind NativeEntry.tag = known
    cases known <;> rfl
  have log (w : World) (r : LogRecord) : (w.modifyPending s f).log r = (w.log r).modifyPending s f := by
    have same : (w.modifyPending s f).level = w.level := rfl
    unfold World.log
    rw [same]
    cases w.level with
    | none => rfl
    | some l =>
        dsimp only
        split <;> rfl
  unfold World.logAbout
  rw [tag]
  exact log _ _

/-- What is shown keeps the number that it is shown under. -/
theorem tag_logAbout {n : NativeId} (known : n.index < w.natives.size) (r : Nat → LogRecord) :
    ((w.logAbout n r).natives[n.index]?).bind NativeEntry.tag = some (w.tag n).1 := by
  have log (w : World) (r : LogRecord) : (w.log r).natives = w.natives := by
    unfold World.log
    split
    · split <;> rfl
    · rfl
  unfold World.logAbout
  dsimp only
  rw [log]
  unfold World.tag
  split
  · next t tagged => exact tagged
  · simp [World.modifyNative, Array.getElem_modify_self, known]

/-- What is shown has a number from then on. -/
theorem isNumbered_logAbout {n : NativeId} (known : n.index < w.natives.size) (r : Nat → LogRecord) :
    (w.logAbout n r).IsNumbered n :=
  Option.isSome_of_eq_some (tag_logAbout known r)

theorem Pending.mem_inOrder_push {p : Pending} {n x : NativeId} {state : HandleState}
    (mem : x ∈ (p.push n state).inOrder) : x ∈ p.inOrder ∨ x = n := by
  have counted := Pending.count_push p n x state
  have positive := List.count_pos_iff.mpr mem
  by_contra neither
  obtain ⟨out, other⟩ := not_or.mp neither
  have before : p.inOrder.count x = 0 := List.count_eq_zero.mpr out
  have pushed : [n].count x = 0 := List.count_eq_zero.mpr (by simpa using other)
  omega

namespace Alike

variable (alike : w.Alike δ v)
include alike

/-- Changing the queues of a store in the same way: what is queued then has a number. -/
theorem modifyPending (s : ObjId) (f : Pending → Pending)
    (queued : ∀ p, ∀ n ∈ (f p).inOrder, n ∈ p.inOrder ∨ w.IsNumbered n ∧ v.IsNumbered n) :
    (w.modifyPending s f).Alike δ (v.modifyPending s f) := by
  refine alike.modifyEntry (fun e e' _ _ related => ?_) (fun e _ n mem => ?_) fun e _ n mem => ?_
  case refine_1 =>
    obtain ⟨k, o⟩ := e
    obtain ⟨k', o'⟩ := e'
    obtain ⟨object, strong⟩ := related
    cases object with
    | store same => exact ⟨.store fun among => by rw [same among], strong⟩
    | closure _ like => exact ⟨.closure _ like, strong⟩
    | handle | env | referent | cell => exact ⟨by constructor, strong⟩
  case refine_2 =>
    split at mem
    · next k c p same =>
        rw [same]
        exact (queued p n mem).imp_right And.left
    · exact .inl mem
  case refine_3 =>
    split at mem
    · next k c p same =>
        rw [same]
        exact (queued p n mem).imp_right And.right
    · exact .inl mem

/-- Queueing what has just been shown. -/
theorem queue {h : Handle} (known : h.native.index < w.natives.size) :
    (w.perform (.queue h)).2.Alike δ (v.perform (.queue h)).2 := by
  have known' : h.native.index < v.natives.size := alike.table ▸ known
  show (World.logAbout _ _ _).Alike δ (World.logAbout _ _ _)
  rw [logAbout_modifyPending, logAbout_modifyPending]
  refine (alike.logAbout h.native _).modifyPending h.store (·.push h.native h.state) fun p n mem => ?_
  rcases Pending.mem_inOrder_push mem with mem | rfl
  · exact .inl mem
  · exact .inr ⟨isNumbered_logAbout known _, isNumbered_logAbout known' _⟩

theorem detach (e : ObjId) :
    (v.detach e).1 = (w.detach e).1 ∧ (w.detach e).2.Alike δ (v.detach e).2 := by
  unfold World.detach
  cases known : w.entry? e with
  | none =>
      rw [alike.entry_none.mpr known]
      exact ⟨rfl, alike⟩
  | some x =>
      obtain ⟨⟨k', o'⟩, found, object, strong⟩ := alike.entry known
      obtain ⟨k, o⟩ := x
      rw [found]
      dsimp only at object strong ⊢
      cases object with
      | env closure type store =>
          cases closure with
          | none => exact ⟨rfl, alike⟩
          | some c =>
              refine ⟨rfl, alike.modifyEntry (fun x x' here there related => ?_) (fun _ _ _ mem => nomatch mem)
                fun _ _ _ mem => nomatch mem⟩
              obtain rfl := Option.some.inj (known.symm.trans here)
              obtain rfl := Option.some.inj (found.symm.trans there)
              exact ⟨.env _ _ _, strong⟩
      | _ => exact ⟨rfl, alike⟩

/-- The end of an object brings up the same. -/
theorem dispose (id : ObjId) {o o' : Object} (object : o.Alike δ o') :
    (v.dispose id o').1 = (w.dispose id o).1 ∧ (w.dispose id o).2.Alike δ (v.dispose id o').2 := by
  cases object with
  | store => exact ⟨rfl, alike⟩
  | handle h =>
      unfold World.dispose
      dsimp only
      split
      · cases h.state.env? with
        | none => exact ⟨rfl, alike⟩
        | some env =>
            obtain ⟨same, alike⟩ := alike.detach env
            exact ⟨congrArg (· ++ _) same, alike⟩
      · exact ⟨rfl, alike⟩
  | env => exact ⟨rfl, alike⟩
  | closure captures like =>
      refine ⟨rfl, ?_⟩
      show (w.emit _).Alike δ (v.emit _)
      rw [like.label]
      exact alike.emit _
  | referent => exact ⟨rfl, alike.emit _⟩
  | cell => exact ⟨rfl, alike⟩

/-- Dropping a reference to what is counted as often in both runs. -/
theorem ref {id : ObjId} (counts : δ ≠ .flushes ∨ ∀ e, w.entry? id = some e → e.object.isEnv = false) :
    (v.perform (.ref id)).1 = (w.perform (.ref id)).1 ∧
      (w.perform (.ref id)).2.Alike δ (v.perform (.ref id)).2 := by
  unfold World.perform
  dsimp only
  cases known : w.entry? id with
  | none =>
      rw [alike.entry_none.mpr known]
      exact ⟨rfl, alike⟩
  | some e =>
      obtain ⟨⟨k', o'⟩, found, object, strong⟩ := alike.entry known
      obtain ⟨k, o⟩ := e
      rw [found]
      obtain rfl : k' = k := strong (counts.imp_right fun plain => plain _ known)
      match k' with
      | 0 => exact ⟨rfl, alike⟩
      | 1 => exact (alike.modifyStrong id (f := fun _ => 0)).dispose id object
      | n + 2 => exact ⟨rfl, alike.modifyStrong id (f := fun _ => n + 1)⟩

theorem deleteStore (n : NativeId) :
    (w.perform (.deleteStore n)).2.Alike δ (v.perform (.deleteStore n)).2 :=
  ((alike.guard _).deleteNative n).logAbout n _

theorem deleteFunc (among : δ ≠ .flushes) (n : NativeId) : (w.deleteFunc n).Alike δ (v.deleteFunc n) := by
  have same : v.nativeFunc? n = w.nativeFunc? n := by
    unfold World.nativeFunc?
    rw [alike.native? (alike.deletions among n)]
  have deleted := (alike.guard .funcDelete).deleteNative n
  unfold World.deleteFunc
  dsimp only
  rw [same]
  split
  · next env _ =>
    have finalized := deleted.modifyNative n (f := fun e => { e with finalized := e.finalized + 1 })
      (g := fun e => { e with finalized := e.finalized + 1 })
      (fun _ _ related => ⟨related.object, related.tag, fun among => by rw [related.same among]⟩)
      (fun _ shown => shown) (fun _ shown => shown)
    have entered := finalized.modifyThread (f := fun t => { t with finalizing := t.finalizing + 1 })
      fun _ _ same => same
    have retired := entered.modifyThread (f := fun t => { t with retired := t.retired ++ [env] })
      fun _ _ same => same
    exact retired.modifyThread (f := fun t => { t with finalizing := t.finalizing - 1 }) fun _ _ same => same
  · exact deleted

theorem releaseNative (among : δ ≠ .flushes) (kind : HandleState) (n : NativeId) :
    (w.releaseNative kind n).Alike δ (v.releaseNative kind n) := by
  have logged := alike.logAbout n (.releasing kind.kindName)
  have same := logged.native? (logged.deletions among n)
  unfold World.releaseNative
  dsimp only
  cases kind with
  | memory lock => exact (logged.guard _).deleteNative n
  | interrupt => exact (logged.guard _).deleteNative n
  | func env => exact logged.deleteFunc among n
  | view =>
      dsimp only
      unfold World.deleteExtern World.externKind?
      rw [same]
      split
      · exact logged.deleteFunc among n
      · exact (logged.guard _).deleteNative n
      · exact logged

omit alike in
theorem releaseQueue (among : δ ≠ .flushes) (kind : HandleState) (ns : List NativeId) {w v : World}
    (alike : w.Alike δ v) : (w.releaseQueue kind ns).Alike δ (v.releaseQueue kind ns) := by
  induction ns generalizing w v with
  | nil => exact alike
  | cons n rest ih => exact ih (alike.releaseNative among kind n)

theorem emptied (s : ObjId) :
    (w.modifyPending s fun _ => {}).Alike δ (v.modifyPending s fun _ => {}) :=
  alike.modifyPending s _ fun _ _ mem => absurd mem List.not_mem_nil

/-- Under other shapes every task does the same. -/
theorem perform (among : δ ≠ .flushes) (known : ∀ h, t = .queue h → h.native.index < w.natives.size) :
    (v.perform t).1 = (w.perform t).1 ∧ (w.perform t).2.Alike δ (v.perform t).2 := by
  cases t with
  | ref id => exact alike.ref (.inl among)
  | queue h => exact ⟨rfl, alike.queue (known h rfl)⟩
  | deleteStore n => exact ⟨rfl, alike.deleteStore n⟩
  | flush s total =>
      have emptied := alike.emptied s
      unfold World.perform World.releaseBatch
      dsimp only
      rw [alike.pending among s]
      exact ⟨rfl, (((emptied.releaseQueue among _ _).releaseQueue among _ _).releaseQueue among _ _).releaseQueue
        among _ _⟩
  | sweep s total again =>
      have logged : (if total = 0 then w else w.log (.released total)).Alike δ
          (if total = 0 then v else v.log (.released total)) := by
        split
        · exact alike
        · exact alike.log _
      unfold World.perform
      dsimp only
      rw [alike.thread among]
      split
      · split
        · exact ⟨rfl, alike⟩
        · exact ⟨rfl, { logged with lastFlush := fun _ => rfl }⟩
      · exact ⟨rfl, alike.modifyThread (f := fun t => { t with retired := [] }) fun _ _ same => same⟩

theorem isEnv {e : ObjId} {type : FuncType} {s : ObjId} (isEnv : w.shapes.IsEnv e type s) :
    v.shapes.IsEnv e type s := by
  obtain ⟨k, closure, known⟩ := isEnv_iff.mp isEnv
  obtain ⟨⟨k', o'⟩, found, object, -⟩ := alike.entry known
  cases object
  exact isEnv_iff.mpr ⟨k', closure, found⟩

theorem isReferent {r : ObjId} (isReferent : w.shapes.IsReferent r) : v.shapes.IsReferent r := by
  obtain ⟨label, payload, known⟩ := isReferent
  obtain ⟨⟨k, o⟩, found, shape⟩ := shapes_object?.mp known
  obtain rfl : o = .referent label payload := by
    cases o <;> simp [Object.shape] at shape ⊢
    exact shape
  obtain ⟨⟨k', o'⟩, found', object, -⟩ := alike.entry found
  cases object
  exact ⟨label, payload, shapes_object?.mpr ⟨_, found', rfl⟩⟩

theorem sweeping (sweeping : t.Sweeping w.shapes) : t.Sweeping v.shapes := by
  cases t with
  | ref e =>
      obtain ⟨type, s, isEnv⟩ := sweeping
      exact ⟨type, s, alike.isEnv isEnv⟩
  | flush | sweep => trivial
  | queue | deleteStore => exact sweeping

end Alike

/-! ## All of it -/

/-- The native object of a handle that is still to be queued is in the table. -/
theorem Draining.known (draining : w.Draining held (t :: rest)) (h : Handle) (same : t = .queue h) :
    h.native.index < w.natives.size := by
  subst same
  obtain ⟨i, isHandle, owner⟩ := draining.fits _ List.mem_cons_self
  have claim : (Object.handle h).claim? = some h.native := by simp [Object.claim?, Handle.isOwning, owner]
  exact draining.acc.claim_known isHandle claim

namespace Alike

/-- A task does the same in both runs, unless it is one of a flush and the runs differ by flushes. -/
theorem performed (alike : w.Alike δ v) (handing : w.Handing held (t :: rest)) :
    (δ = .flushes ∧ t.Sweeping w.shapes) ∨
      (v.perform t).1 = (w.perform t).1 ∧ (w.perform t).2.Alike δ (v.perform t).2 := by
  rcases eq_or_ne δ .flushes with rfl | among
  · by_cases sweeping : t.Sweeping w.shapes
    · exact .inl ⟨rfl, sweeping⟩
    · refine .inr ?_
      cases t with
      | ref id =>
          refine alike.ref (.inr fun e found => ?_)
          obtain ⟨k, o⟩ := e
          cases o with
          | env closure type s => exact absurd ⟨type, s, isEnv_iff.mpr ⟨k, closure, found⟩⟩ sweeping
          | _ => rfl
      | queue h => exact ⟨rfl, alike.queue (handing.toDraining.known h rfl)⟩
      | deleteStore n => exact ⟨rfl, alike.deleteStore n⟩
      | flush | sweep => exact absurd trivial sweeping
  · exact .inr (alike.perform among handing.toDraining.known)

/-- Releasing work leads to the same, whatever is queued. -/
theorem complete {tasks : List Task} {w v : World} (alike : w.Alike δ v) (handing : w.Handing held tasks)
    (handing' : v.Handing held' tasks) : (w.complete tasks).Alike δ (v.complete tasks) := by
  induction effort : w.effort tasks using Nat.strongRecOn generalizing w v tasks with
  | ind k ih =>
      cases tasks with
      | nil => exact alike
      | cons t rest =>
          have less := effort_perform_lt w t rest
          rw [effort] at less
          rcases alike.performed handing with ⟨rfl, sweeping⟩ | ⟨same, alike⟩
          · -- The flush is done on both sides, each with the environments that it drops.
            have front {w : World} {held : List ObjId} (handing : w.Handing held ([t] ++ rest))
                (sweeping : t.Sweeping w.shapes) (numbered : w.Numbered) :=
              handing.fronted (fun u mem => by rwa [List.mem_singleton.mp mem]) numbered
            have here := front handing sweeping alike.numbered
            have there := front handing' (alike.sweeping sweeping) alike.numbered'
            have fewer : (w.complete [t]).effort rest + 1 ≤ w.effort (t :: rest) := here.effort
            have swept := there.swept.right (here.swept.left alike)
            have next := ih _ (by omega) swept here.handing there.handing rfl
            rwa [← complete_append, ← complete_append] at next
          · rw [complete_cons, complete_cons v, same]
            have more' := handing'.perform
            rw [same] at more'
            exact ih _ less alike handing.perform more' rfl

end Alike

/-! ## Operations -/

theorem Draining.handing (draining : w.Draining held tasks) (retired : w.thread.retired = []) :
    w.Handing held tasks :=
  ⟨draining, fun e mem => by rw [retired] at mem; cases mem⟩

theorem Sound.releasing {id : ObjId} (sound : w.Sound (id :: held)) : w.Handing held [.ref id] := by
  have draining : w.Draining held [.ref id] := sound.draining sound.toAccounted (fun t mem => by
    rw [List.mem_singleton.mp mem]
    trivial) trivial
  exact draining.handing sound.retired

theorem Sound.flushing {s : ObjId} {n : NativeId} (sound : w.Sound held) (isStore : w.shapes.IsStore s n) :
    w.Handing held [.flush s 0] := by
  have draining : w.Draining held [.flush s 0] := sound.draining sound.toAccounted (fun t mem => by
    rw [List.mem_singleton.mp mem]
    exact ⟨n, isStore⟩) trivial
  exact draining.handing sound.retired

namespace Alike

theorem release {id : ObjId} (alike : w.Alike δ v) (sound : w.Sound (id :: held))
    (sound' : v.Sound (id :: held')) : (w.release id).Alike δ (v.release id) := by
  have done := alike.complete sound.releasing sound'.releasing
  rw [complete_cons, complete_cons v, List.append_nil, List.append_nil] at done
  exact done

/-- Dropping the same references. -/
theorem releaseAll (ids : List ObjId) {w v : World} (alike : w.Alike δ v) (sound : w.Sound (ids ++ held))
    (sound' : v.Sound (ids ++ held')) : (w.releaseAll ids).Alike δ (v.releaseAll ids) := by
  induction ids generalizing w v with
  | nil => exact alike
  | cons id rest ih =>
      exact ih (alike.release sound sound') sound.release sound'.release

theorem isStore {s : ObjId} {n : NativeId} (alike : w.Alike δ v) (isStore : w.shapes.IsStore s n) :
    v.shapes.IsStore s n := by
  rw [← storeNative?_eq_some] at isStore ⊢
  rw [alike.storeNative?, isStore]

/-- A flush that both runs do. -/
theorem flush {s : ObjId} {n : NativeId} (alike : w.Alike δ v) (isStore : w.shapes.IsStore s n)
    (sound : w.Sound held) (sound' : v.Sound held') : (w.flush s).Alike δ (v.flush s) :=
  alike.complete (sound.flushing isStore) (sound'.flushing (alike.isStore isStore))

end Alike

/-- A flush that the other run does not do. -/
theorem Sound.swept_flush {s : ObjId} {n : NativeId} (sound : w.Sound held) (isStore : w.shapes.IsStore s n)
    (numbered : w.Numbered) : Swept w (w.flush s) := by
  have handing : w.Handing held ([.flush s 0] ++ []) := sound.flushing isStore
  exact (handing.fronted (fun t mem => by rw [List.mem_singleton.mp mem]; trivial) numbered).swept

end HostEmbedding.World
