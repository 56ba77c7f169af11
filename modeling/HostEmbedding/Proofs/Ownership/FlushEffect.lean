import HostEmbedding.Proofs.Views.Releasing

/-!
# The effect of a flush

A flush between two operations empties the queues of its store and deletes what stood in them, one object
after another. What the finalizers hand back are environments that hold no closure any more, so dropping
them brings up nothing: nothing is queued meanwhile, and the flush ends after one batch.
-/

namespace HostEmbedding

/-- The queued objects in the order a flush deletes them, each with the kind of its queue. -/
def Pending.labelled (p : Pending) : List (HandleState × NativeId) :=
  p.memories.map (.memory 0, ·) ++ p.externs.map (.view, ·) ++ p.interrupts.map (.interrupt, ·) ++
    p.funcs.map (.func none, ·)

@[simp]
theorem Pending.labelled_natives (p : Pending) : p.labelled.map Prod.snd = p.inOrder := by
  simp [labelled, inOrder, Function.comp_def]

@[simp]
theorem Pending.length_labelled (p : Pending) : p.labelled.length = p.size := by
  rw [size, ← labelled_natives, List.length_map]

theorem Pending.mem_labelled {p : Pending} {q : HandleState × NativeId} (mem : q ∈ p.labelled) :
    q.2 ∈ p.ofKind q.1 := by
  simp only [labelled, List.mem_append, List.mem_map] at mem
  rcases mem with ((⟨n, mem, rfl⟩ | ⟨n, mem, rfl⟩) | ⟨n, mem, rfl⟩) | ⟨n, mem, rfl⟩ <;> exact mem

namespace World

variable {w v : World} {held : List ObjId} {moving : List NativeId} {s : ObjId} {rest : List Task}

def deleteAll (w : World) (qs : List (HandleState × NativeId)) : World :=
  qs.foldl (fun w q => w.releaseNative q.1 q.2) w

/-- The queues of a store have been emptied, and the first objects that stood in them have been deleted. -/
def released (w : World) (s : ObjId) (k : Nat) : World :=
  (w.modifyPending s fun _ => {}).deleteAll ((w.pending s).labelled.take k)

def number (w : World) (n : NativeId) : Nat := (w.tag n).1

/-- A log record as it is shown: an event, or nothing if its level is not asked for. -/
def noted (w : World) (r : LogRecord) : List Event :=
  match w.level with
  | some l => if r.level.rank ≤ l.rank then [.log r] else []
  | none => []

structure Flushed (w : World) (s : ObjId) : Prop where
  /-- It comes to an end: no task is left. -/
  ends : ∃ fuel, drain fuel [.flush s 0] w = ([], w.flush s)
  /-- It tells how many objects were queued. -/
  told : (w.flush s).lastFlush = (w.pending s).size
  /-- Afterwards nothing is queued in the store and nothing is left of what finalizers handed back. -/
  emptied : (w.flush s).pending s = {}
  retired : (w.flush s).thread.retired = []
  /-- What was queued was queued once and had not been deleted. -/
  distinct : (w.pending s).inOrder.Nodup
  live : ∀ n ∈ (w.pending s).inOrder, (w.native? n).isSome
  /-- Every queued object is deleted once, memories before extern views before interrupt handles before
  functions and each queue from its front; and nothing else is deleted, in between or afterwards. -/
  order : ∀ k n, (w.released s k).deletions n = w.deletions n + ((w.pending s).inOrder.take k).count n
  natives : (w.flush s).natives = (w.released s (w.pending s).size).natives
  /-- All other natives are as before, with what a store counts and what a memory holds. -/
  others : ∀ n ∉ (w.pending s).inOrder, (w.flush s).natives[n.index]? = w.natives[n.index]?
  /-- Every object is as before but for the queues of the store and for counts of environments. -/
  objects : ∀ id, id ≠ s → (∀ type t, ¬ w.shapes.IsEnv id type t) → World.entry? (w.flush s) id = w.entry? id
  attached : (w.flush s).attached? = w.attached?
  kept : (w.flush s).strong s = w.strong s
  /-- Nothing happens but what is logged: each deletion, in order, and in the end their number. -/
  events : (w.flush s).events =
    (if (w.pending s).size = 0 then [] else w.noted (.released (w.pending s).size)) ++
      ((w.pending s).labelled.reverse.flatMap fun q =>
        w.noted (.releasing q.1.kindName ((w.flush s).number q.2))) ++ w.events
  /-- No finalizer is left running, and none has done what it must not do. -/
  thread : (w.flush s).thread.frames = w.thread.frames ∧ (w.flush s).thread.finalizing = 0
  aborted : (w.flush s).aborted = none

/-! ## Deleting one object after another -/

theorem releaseBatch_eq (w : World) (p : Pending) : w.releaseBatch p = w.deleteAll p.labelled := by
  have queue (kind : HandleState) (ns : List NativeId) (w : World) :
      w.releaseQueue kind ns = w.deleteAll (ns.map (kind, ·)) :=
    (List.foldl_map (f := fun n => (kind, n)) (g := fun w q => World.releaseNative w q.1 q.2)).symm
  unfold releaseBatch
  rw [queue, queue, queue, queue]
  simp only [deleteAll, Pending.labelled, List.foldl_append]

theorem flushOnce_eq (w : World) (s : ObjId) : w.flushOnce s = w.released s (w.pending s).size := by
  unfold flushOnce released
  rw [releaseBatch_eq, ← Pending.length_labelled, List.take_length]

theorem hands_deleteAll (qs : List (HandleState × NativeId)) (w : World) :
    Hands w (w.deleteAll qs) qs.length := by
  induction qs generalizing w with
  | nil => exact ⟨rfl, Nat.le_refl _⟩
  | cons q rest ih =>
      rw [List.length_cons, Nat.add_comm]
      exact (hands_releaseNative w q.1 q.2).trans (ih _)

/-- Queued objects that are deleted leave the account. -/
theorem Accounted.deleteAll (qs : List (HandleState × NativeId)) {w : World}
    (acc : w.Accounted held (qs.map Prod.snd ++ moving)) (owns : ∀ q ∈ qs, w.Owns q.1 q.2) :
    (w.deleteAll qs).Accounted held moving := by
  induction qs generalizing w with
  | nil => exact acc
  | cons q rest ih =>
      refine ih (acc.releaseNative (owns q List.mem_cons_self)) fun x mem => ?_
      unfold Owns
      rw [(drains_releaseNative w q.1 q.2).shapes]
      exact owns x (List.mem_cons_of_mem q mem)

theorem drains_deleteAll (qs : List (HandleState × NativeId)) (w : World) : Drains w (w.deleteAll qs) := by
  induction qs generalizing w with
  | nil => exact .refl w
  | cons q rest ih => exact (drains_releaseNative w q.1 q.2).trans (ih _)

/-! ## What one deletion touches -/

/-- Of the table of natives only one entry may have changed, and no number that was given out. -/
structure Touches (w v : World) (n : NativeId) : Prop where
  others : ∀ x : NativeId, x ≠ n → v.natives[x.index]? = w.natives[x.index]?
  numbers : ∀ (x : NativeId) (t : Nat), (w.natives[x.index]?).bind NativeEntry.tag = some t →
    (v.natives[x.index]?).bind NativeEntry.tag = some t
  level : v.level = w.level

theorem Touches.trans {u : World} {n : NativeId} (first : Touches w v n) (second : Touches v u n) :
    Touches w u n :=
  ⟨fun x other => (second.others x other).trans (first.others x other),
    fun x t shown => second.numbers x t (first.numbers x t shown), second.level.trans first.level⟩

theorem touches_of_natives (n : NativeId) (natives : v.natives = w.natives) (level : v.level = w.level) :
    Touches w v n :=
  ⟨fun x _ => by rw [natives], fun x t shown => by rwa [natives], level⟩

theorem touches_modifyNative {n : NativeId} {f : NativeEntry → NativeEntry}
    (numbers : ∀ e t, w.natives[n.index]? = some e → e.tag = some t → (f e).tag = some t) :
    Touches w (w.modifyNative n f) n where
  others x other := by
    have apart : n.index ≠ x.index := fun same => other (congrArg NativeId.mk same.symm)
    simp only [modifyNative, Array.getElem?_modify, if_neg apart]
  numbers x t shown := by
    simp only [modifyNative, Array.getElem?_modify]
    split
    · next same =>
        obtain ⟨e, found, tag⟩ := Option.bind_eq_some_iff.mp shown
        rw [found]
        exact numbers e t (by rw [same]; exact found) tag
    · exact shown
  level := rfl

theorem touches_guard (w : World) (op : GuardedOp) (n : NativeId) : Touches w (w.guard op) n := by
  unfold guard
  split <;> exact touches_of_natives n rfl rfl

theorem touches_deleteNative (w : World) (op : GuardedOp) (n : NativeId) :
    Touches w ((w.guard op).deleteNative n) n :=
  (touches_guard w op n).trans (touches_modifyNative fun _ _ _ shown => shown)

theorem touches_deleteFunc (w : World) (n : NativeId) : Touches w (w.deleteFunc n) n := by
  have deleted := touches_deleteNative w .funcDelete n
  unfold deleteFunc
  dsimp only
  split
  · have entered := deleted.trans (touches_modifyNative (f := fun e => { e with finalized := e.finalized + 1 })
      fun _ _ _ shown => shown)
    exact entered.trans (touches_of_natives n rfl rfl)
  · exact deleted

theorem touches_log (w : World) (r : LogRecord) (n : NativeId) : Touches w (w.log r) n := by
  unfold log
  split
  · split <;> exact touches_of_natives n rfl rfl
  · exact touches_of_natives n rfl rfl

theorem touches_tag (w : World) (n : NativeId) : Touches w (w.tag n).2 n := by
  unfold tag
  split
  · exact touches_of_natives n rfl rfl
  · next none =>
      have first : Touches w (w.modifyNative n fun e => { e with tag := some (w.tags + 1) }) n :=
        touches_modifyNative fun e t found shown => by
          rw [found, Option.bind_some, shown] at none
          cases none
      exact ⟨first.others, first.numbers, rfl⟩

theorem touches_logAbout (w : World) (n : NativeId) (r : Nat → LogRecord) : Touches w (w.logAbout n r) n :=
  (touches_tag w n).trans (touches_log _ _ n)

/-- A queued object is shown, and then it is deleted. -/
theorem touches_deletion (w : World) (kind : HandleState) (n : NativeId) :
    Touches (w.logAbout n (.releasing kind.kindName)) (w.releaseNative kind n) n := by
  unfold releaseNative
  cases kind with
  | memory _ => exact touches_deleteNative _ _ n
  | interrupt => exact touches_deleteNative _ _ n
  | func _ => exact touches_deleteFunc _ n
  | view =>
      show Touches _ (deleteExtern _ n) n
      unfold deleteExtern
      split
      · exact touches_deleteFunc _ n
      · exact touches_deleteNative _ _ n
      · exact touches_of_natives n rfl rfl

theorem touches_releaseNative (w : World) (kind : HandleState) (n : NativeId) :
    Touches w (w.releaseNative kind n) n :=
  (touches_logAbout w n _).trans (touches_deletion w kind n)

/-- What was deleted has been shown. -/
theorem shown_releaseNative {n : NativeId} (known : n.index < w.natives.size) (kind : HandleState) :
    ((w.releaseNative kind n).natives[n.index]?).bind NativeEntry.tag = some (w.number n) :=
  (touches_deletion w kind n).numbers n _ (tag_logAbout known _)

/-! ## What is logged -/

/-- A log record changes nothing but what is shown. -/
theorem log_eq (w : World) (r : LogRecord) : w.log r = { w with events := w.noted r ++ w.events } := by
  obtain ⟨heap, natives, thread, level, events, tags, locks, lastFlush, aborted⟩ := w
  unfold log noted
  cases level with
  | none => rfl
  | some l =>
      dsimp only
      split <;> rfl

theorem noted_of_level (level : v.level = w.level) (r : LogRecord) : v.noted r = w.noted r := by
  unfold noted
  rw [level]

theorem events_deleteFunc (w : World) (n : NativeId) : (w.deleteFunc n).events = w.events := by
  have deleted : ((w.guard .funcDelete).deleteNative n).events = w.events := by
    unfold guard
    split <;> rfl
  unfold deleteFunc
  dsimp only
  split <;> exact deleted

/-- A deletion tells of itself and of nothing else, under the number that the object keeps. -/
theorem events_releaseNative (w : World) (kind : HandleState) (n : NativeId) :
    (w.releaseNative kind n).events = w.noted (.releasing kind.kindName (w.number n)) ++ w.events := by
  have shown : (w.logAbout n (.releasing kind.kindName)).events =
      w.noted (.releasing kind.kindName (w.number n)) ++ w.events := by
    have tagged : (w.tag n).2.events = w.events := by
      unfold tag
      split <;> rfl
    rw [← tagged, ← noted_of_level (touches_tag w n).level]
    exact congrArg World.events (log_eq (w.tag n).2 _)
  have deleted (u : World) (op : GuardedOp) : ((u.guard op).deleteNative n).events = u.events := by
    unfold guard
    split <;> rfl
  rw [← shown]
  unfold releaseNative
  cases kind with
  | memory _ => exact deleted _ _
  | interrupt => exact deleted _ _
  | func _ => exact events_deleteFunc _ n
  | view =>
      show (deleteExtern _ n).events = _
      unfold deleteExtern
      split
      · exact events_deleteFunc _ n
      · exact deleted _ _
      · rfl

/-- What has been shown keeps its number. -/
theorem number_of_shown {n : NativeId} {t : Nat} (shown : (w.natives[n.index]?).bind NativeEntry.tag = some t) :
    w.number n = t := by
  unfold number tag
  rw [shown]

/-! ## What deletions one after another change -/

theorem natives_deleteAll (qs : List (HandleState × NativeId)) {w : World} {n : NativeId}
    (other : n ∉ qs.map Prod.snd) : (w.deleteAll qs).natives[n.index]? = w.natives[n.index]? := by
  induction qs generalizing w with
  | nil => rfl
  | cons q rest ih =>
      rw [List.map_cons, List.mem_cons, not_or] at other
      exact (ih other.2).trans ((touches_releaseNative w q.1 q.2).others n other.1)

theorem level_deleteAll (qs : List (HandleState × NativeId)) (w : World) : (w.deleteAll qs).level = w.level := by
  induction qs generalizing w with
  | nil => rfl
  | cons q rest ih => exact (ih _).trans (touches_releaseNative w q.1 q.2).level

theorem shown_deleteAll (qs : List (HandleState × NativeId)) {w : World} {n : NativeId} {t : Nat}
    (shown : (w.natives[n.index]?).bind NativeEntry.tag = some t) :
    ((w.deleteAll qs).natives[n.index]?).bind NativeEntry.tag = some t := by
  induction qs generalizing w with
  | nil => exact shown
  | cons q rest ih => exact ih ((touches_releaseNative w q.1 q.2).numbers n t shown)

/-- Each deletion is logged in its turn. -/
theorem events_deleteAll (qs : List (HandleState × NativeId)) {w : World}
    (known : ∀ q ∈ qs, q.2.index < w.natives.size) :
    (w.deleteAll qs).events = (qs.reverse.flatMap fun q =>
      w.noted (.releasing q.1.kindName ((w.deleteAll qs).number q.2))) ++ w.events := by
  induction qs generalizing w with
  | nil => rfl
  | cons q rest ih =>
      have same := (touches_releaseNative w q.1 q.2).level
      have drains := drains_releaseNative w q.1 q.2
      have later := ih (w := w.releaseNative q.1 q.2) fun x mem => by
        rw [← nativeObject?_isSome, drains.natives, nativeObject?_isSome]
        exact known x (List.mem_cons_of_mem q mem)
      have number : ((w.releaseNative q.1 q.2).deleteAll rest).number q.2 = w.number q.2 :=
        number_of_shown (shown_deleteAll rest (shown_releaseNative (known q List.mem_cons_self) q.1))
      have first := events_releaseNative w q.1 q.2
      rw [← number] at first
      rw [first] at later
      simp only [noted_of_level same] at later
      rw [List.reverse_cons, List.flatMap_append, List.append_assoc, List.flatMap_singleton]
      exact later

/-! ## What finalizers hand back -/

theorem Lowered.refl (w : World) : w.Lowered [] w := ⟨rfl, rfl, fun _ => rfl, fun _ => rfl⟩

theorem Lowered.entry {ids : List ObjId} (lowered : w.Lowered ids v) {x : ObjId} (other : x ∉ ids) :
    v.entry? x = w.entry? x := by
  have object := lowered.object x
  have count := lowered.count x
  rw [List.count_eq_zero.mpr other, Nat.add_zero] at count
  cases here : w.entry? x with
  | none =>
      rw [here] at object
      exact Option.map_eq_none_iff.mp object
  | some e =>
      rw [here] at object
      obtain ⟨e', there, same⟩ := Option.map_eq_some_iff.mp object
      rw [strong_eq here, strong_eq there] at count
      obtain ⟨k, o⟩ := e
      obtain ⟨k', o'⟩ := e'
      cases same
      cases count
      exact there

theorem Lowered.pending {ids : List ObjId} (lowered : w.Lowered ids v) : v.pending = w.pending := by
  funext x
  have object := congrArg (Option.map queuesOf) (lowered.object x)
  rw [Option.map_map, Option.map_map] at object
  rw [pending_eq, pending_eq]
  exact congrArg (·.getD {}) object

theorem Lowered.attached? {ids : List ObjId} (lowered : w.Lowered ids v) : v.attached? = w.attached? := by
  funext x
  have object := congrArg (Option.bind · closureOf) (lowered.object x)
  rw [Option.bind_map, Option.bind_map] at object
  rw [attached?_eq, attached?_eq]
  exact object

/-- The drop of an environment that was handed back ends at most the environment, which holds nothing. -/
theorem Handing.lowers {e : ObjId} {type : FuncType} (handing : w.Handing held (.ref e :: rest))
    (isEnv : w.shapes.IsEnv e type s) :
    (w.perform (.ref e)).1 = [] ∧ w.Lowered [e] (w.perform (.ref e)).2 := by
  have acc : w.Accounted (e :: (rest.flatMap Task.refs ++ held)) (rest.flatMap Task.natives) := handing.acc
  have alive := acc.alive List.mem_cons_self
  by_cases several : 2 ≤ w.strong e
  · exact perform_lowered several
  · have last : w.strong e = 1 := by omega
    obtain ⟨k, closure, entry⟩ := isEnv_iff.mp isEnv
    obtain rfl : k = 1 := (strong_eq entry).symm.trans last
    obtain rfl : closure = none := by
      cases closure with
      | none => rfl
      | some c => exact absurd last (acc.not_last (attached?_eq_some.mpr ⟨1, type, s, entry⟩))
    have performed : w.perform (.ref e) = ([], w.modifyEntry e fun e => { e with strong := 0 }) := by
      unfold World.perform
      dsimp only
      rw [entry]
      rfl
    rw [performed]
    exact ⟨rfl, lowered_modifyEntry entry⟩

theorem Handing.lowersAll (ids : List ObjId) {w : World} (handing : w.Handing held (ids.map .ref ++ rest))
    (envs : ∀ e ∈ ids, ∃ type s, w.shapes.IsEnv e type s) : w.Lowered ids (w.releaseAll ids) := by
  induction ids generalizing w with
  | nil => exact .refl w
  | cons e ids ih =>
      obtain ⟨type, s, isEnv⟩ := envs e List.mem_cons_self
      obtain ⟨none, lowered⟩ := handing.lowers isEnv
      have released : w.release e = (w.perform (.ref e)).2 := by
        unfold World.release
        dsimp only
        rw [none]
        rfl
      have next := handing.perform
      rw [none, List.nil_append] at next
      have later := ih next fun x mem => by
        rw [(drains_perform w _).shapes]
        exact envs x (List.mem_cons_of_mem e mem)
      rw [← released] at lowered later
      exact lowered.trans later

/-! ## The end of a flush -/

/-- A flush is over: it logs how many objects it released, if there were any, and tells it. -/
def closed (w : World) (total : Nat) : World :=
  { (if total = 0 then w else w.log (.released total)) with lastFlush := total }

theorem closed_eq (w : World) (total : Nat) :
    w.closed total = { w with
      events := (if total = 0 then [] else w.noted (.released total)) ++ w.events, lastFlush := total } := by
  unfold closed
  split
  · rfl
  · rw [log_eq]

/-- Emptying empty queues changes nothing. -/
theorem modifyPending_empty (empty : w.pending s = {}) : (w.modifyPending s fun _ => {}) = w := by
  refine eq_of_entries rfl fun x => ?_
  unfold modifyPending
  rw [entry?_modifyEntry]
  split
  · next same =>
      rw [pending_eq] at empty
      rw [same]
      cases found : w.entry? s with
      | none => rfl
      | some e =>
          obtain ⟨k, o⟩ := e
          rw [found] at empty
          cases o with
          | store n c p =>
              cases (show p = {} from empty)
              rfl
          | _ => rfl
  · rfl

/-- With nothing queued and nothing handed back a flush ends, after another look at the queues if something
was released. -/
theorem complete_closing {total : Nat} {again : Bool} (retired : w.thread.retired = [])
    (empty : w.pending s = {}) : w.complete [.sweep s total again] = w.closed total := by
  have last : w.complete [.sweep s total false] = w.closed total := by
    rw [complete_cons]
    unfold World.perform
    rw [retired]
    rfl
  cases again with
  | false => exact last
  | true =>
      have looks : w.perform (.sweep s total true) = ([.flush s total], w) := by
        unfold World.perform
        rw [retired]
        rfl
      have finds : w.perform (.flush s total) = ([.sweep s total false], w) := by
        unfold World.perform
        dsimp only
        rw [empty, modifyPending_empty empty]
        rfl
      rw [complete_cons, looks, List.append_nil, complete_cons, finds]
      exact last

/-! ## The whole flush -/

/-- The environments that a flush of a store makes the finalizers hand back. -/
def returned (w : World) (s : ObjId) : List ObjId := (w.pending s).inOrder.filterMap w.lentTo

/-- A flush deletes what was queued, drops what was handed back, and is over. -/
theorem Sound.flush_eq {n : NativeId} (sound : w.Sound held) (isStore : w.shapes.IsStore s n) :
    ∃ u, ((w.released s (w.pending s).size).modifyThread fun t => { t with retired := [] }).Lowered
      (w.returned s) u ∧ w.flush s = u.closed (w.pending s).size := by
  have handing := sound.flushing isStore
  have orderly : w.Orderly [.flush s 0] := ⟨sound.finalizing, sound.aborted, fun busy => absurd sound.retired busy⟩
  have round := handing.toDraining.round orderly
  have handed : (w.flushOnce s).thread.retired = w.returned s := round.handed
  have performed : w.perform (.flush s 0) =
      ([.sweep s (0 + (w.pending s).size) ((w.pending s).size ≠ 0)], w.flushOnce s) := rfl
  have swept := handing.perform
  rw [performed, List.append_nil] at swept
  have lowered : ((w.flushOnce s).modifyThread fun t => { t with retired := [] }).Lowered (w.returned s)
      (((w.flushOnce s).modifyThread fun t => { t with retired := [] }).releaseAll (w.returned s)) := by
    by_cases idle : (w.flushOnce s).thread.retired = []
    · rw [← handed, idle]
      exact .refl _
    · have next := swept.perform
      rw [perform_sweep idle, List.append_nil] at next
      rw [← handed]
      exact next.lowersAll _ swept.handed
  refine ⟨_, by rw [← flushOnce_eq]; exact lowered, ?_⟩
  have dropped : w.flush s = (((w.flushOnce s).modifyThread fun t => { t with retired := [] }).releaseAll
      (w.returned s)).complete [.sweep s (0 + (w.pending s).size) ((w.pending s).size ≠ 0)] := round.dropped
  rw [Nat.zero_add] at dropped
  refine dropped.trans (complete_closing ?_ ?_)
  · rw [lowered.rest]
    rfl
  · have hands := hands_releaseBatch (w.modifyPending s fun _ => {}) (w.pending s)
    have emptied : (w.flushOnce s).pending s = {} := by
      rw [flushOnce, pending_of_heap hands.heap, pending_modifyPending isStore, if_pos rfl]
    rw [lowered.pending]
    exact emptied

/-- The queues of a store that is flushed, taken out of the account. -/
theorem Sound.batch {n : NativeId} (sound : w.Sound held) (isStore : w.shapes.IsStore s n) :
    (w.modifyPending s fun _ => {}).Accounted held (w.pending s).inOrder ∧
      ∀ q ∈ (w.pending s).labelled, (w.modifyPending s fun _ => {}).Owns q.1 q.2 := by
  obtain ⟨moved, fits⟩ := (sound.flushing isStore).toDraining.batch
  have all : (w.modifyPending s fun _ => {}).Accounted held ((w.pending s).inOrder ++ []) := moved
  rw [List.append_nil] at all
  exact ⟨all, fun q mem => fits.owns q.1 rfl q.2 (Pending.mem_labelled mem)⟩

theorem Sound.order {n : NativeId} (sound : w.Sound held) (isStore : w.shapes.IsStore s n) (k : Nat)
    (x : NativeId) :
    (w.released s k).deletions x = w.deletions x + ((w.pending s).inOrder.take k).count x := by
  obtain ⟨moved, owns⟩ := sound.batch isStore
  let qs := (w.pending s).labelled
  have parts : (w.pending s).inOrder = (qs.take k).map Prod.snd ++ (qs.drop k).map Prod.snd := by
    rw [← List.map_append, List.take_append_drop, Pending.labelled_natives]
  rw [parts] at moved
  have first : (w.pending s).inOrder.take k = (qs.take k).map Prod.snd := by
    rw [List.map_take, Pending.labelled_natives]
  rw [first]
  exact moved.deletions_moved (moved.deleteAll _ fun q mem => owns q (List.mem_of_mem_take mem))
    (hands_deleteAll _ _).heap (drains_deleteAll _ _).natives x

/-- What a store has queued stands there once, and has not been deleted. -/
theorem Sound.queued_once {n : NativeId} (sound : w.Sound held) (isStore : w.shapes.IsStore s n) :
    (w.pending s).inOrder.Nodup ∧ ∀ x ∈ (w.pending s).inOrder, (w.native? x).isSome := by
  obtain ⟨moved, -⟩ := sound.batch isStore
  have placed (x : NativeId) := moved.placed x
  refine ⟨List.nodup_iff_count_le_one.mpr fun x => ?_, fun x mem => ?_⟩
  · have place := placed x
    split at place <;> omega
  · have place := placed x
    have counted := List.count_pos_iff.mpr mem
    split at place
    · next known =>
        have fresh : w.deletions x = 0 := by
          change _ + _ + _ + w.deletions x = 1 at place
          omega
        rw [native?_eq, if_pos fresh]
        exact nativeObject?_isSome.mpr known
    · omega

/-- A flush between two operations. -/
theorem Sound.flushed {n : NativeId} (sound : w.Sound held) (isStore : w.shapes.IsStore s n) :
    w.Flushed s := by
  obtain ⟨u, lowered, flush⟩ := sound.flush_eq isStore
  have flushed := sound.flush isStore
  obtain ⟨distinct, live⟩ := sound.queued_once isStore
  let qs := (w.pending s).labelled
  have whole : w.released s (w.pending s).size = (w.modifyPending s fun _ => {}).deleteAll qs := by
    unfold released
    rw [← Pending.length_labelled, List.take_length]
  have handsOver := hands_deleteAll qs (w.modifyPending s fun _ => {})
  have heap : (w.released s (w.pending s).size).heap = (w.modifyPending s fun _ => {}).heap := by
    rw [whole]
    exact handsOver.heap
  have natives : (w.flush s).natives = (w.released s (w.pending s).size).natives := by
    rw [flush, closed_eq, lowered.rest]
    rfl
  have envs : ∀ e ∈ w.returned s, ∃ type t, w.shapes.IsEnv e type t := fun e mem => by
    obtain ⟨x, -, lent⟩ := List.mem_filterMap.mp mem
    obtain ⟨i, h, type, -, -, isEnv⟩ := sound.toAccounted.owner_of_lentTo lent
    exact ⟨type, h.store, isEnv⟩
  have entry (id : ObjId) (plain : ∀ type t, ¬ w.shapes.IsEnv id type t) :
      World.entry? (w.flush s) id = World.entry? (w.modifyPending s fun _ => {}) id := by
    have other : id ∉ w.returned s := fun mem => by
      obtain ⟨type, t, isEnv⟩ := envs id mem
      exact plain type t isEnv
    have same : World.entry? (w.flush s) id = u.entry? id := by
      rw [flush, closed_eq]
      rfl
    rw [same, lowered.entry other]
    exact congrFun (entry?_of_heap heap) id
  constructor
  case ends =>
      exact ⟨_, Prod.ext (drain_done (Nat.le_refl _)) (complete_eq w _).symm⟩
  case told =>
      rw [flush, closed_eq]
  case emptied =>
      exact pending_flush isStore
  case retired =>
      exact flushed.retired
  case distinct =>
      exact distinct
  case live =>
      exact live
  case order =>
      exact sound.order isStore
  case natives =>
      exact natives
  case others =>
      intro x other
      rw [natives, whole]
      rw [← Pending.labelled_natives] at other
      exact natives_deleteAll qs other
  case objects =>
      intro id other plain
      rw [entry id plain, modifyPending, entry?_modifyEntry, if_neg other]
  case attached =>
      have emptied : (w.modifyPending s fun _ => {}).attached? = w.attached? :=
        attached?_modifyEntry fun e _ => by
          obtain ⟨k, o⟩ := e
          cases o <;> rfl
      have same : (w.flush s).attached? = u.attached? := by
        rw [flush, closed_eq]
        rfl
      rw [same, lowered.attached?, ← emptied]
      exact attached?_of_heap heap
  case kept =>
      have plain : ∀ type t, ¬ w.shapes.IsEnv s type t := fun type t isEnv => by
        obtain ⟨config, known⟩ := isStore
        cases known.symm.trans isEnv
      have emptied := congrFun (strong_modifyPending w s fun _ => {}) s
      unfold strong at emptied ⊢
      rw [entry s plain]
      exact emptied
  case events =>
      have known : ∀ q ∈ qs, q.2.index < w.natives.size := fun q mem => by
        obtain ⟨i, h, isHandle, -, native, -⟩ := (sound.batch isStore).2 q mem
        rw [(drains_modifyPending w s _).shapes] at isHandle
        obtain ⟨o, found, -⟩ := sound.handle_native isHandle
        rw [← nativeObject?_isSome, ← native, found]
        rfl
      have logged := events_deleteAll qs (w := w.modifyPending s fun _ => {}) known
      have told : (w.flush s).events = (if (w.pending s).size = 0 then [] else
          u.noted (.released (w.pending s).size)) ++ u.events := by rw [flush, closed_eq]
      have level : u.level = w.level := by
        rw [lowered.rest, whole]
        exact level_deleteAll qs _
      have shown : u.events = ((w.modifyPending s fun _ => {}).deleteAll qs).events := by
        rw [lowered.rest, whole]
        rfl
      have tags : (w.flush s).tags = ((w.modifyPending s fun _ => {}).deleteAll qs).tags := by
        rw [flush, closed_eq, lowered.rest, whole]
        rfl
      have numbers : (w.flush s).number = ((w.modifyPending s fun _ => {}).deleteAll qs).number := by
        funext x
        rw [whole] at natives
        unfold number tag
        rw [natives, tags]
        split <;> rfl
      rw [told, shown, logged, noted_of_level level, numbers, List.append_assoc]
      rfl
  case thread =>
      exact ⟨(drains_flush w s).frames, flushed.finalizing⟩
  case aborted =>
      exact flushed.aborted

/-- A flush takes nothing away but environments. -/
theorem Flushed.strong (flushed : w.Flushed s) {id : ObjId} (plain : ∀ type t, ¬ w.shapes.IsEnv id type t) :
    (w.flush s).strong id = w.strong id := by
  by_cases same : id = s
  · rw [same]
    exact flushed.kept
  · unfold World.strong
    rw [flushed.objects id same plain]

/-! ## A flush beside what is counted -/

theorem deleteAll_withHeap (qs : List (HandleState × NativeId)) (w : World) (heap : Array Entry) :
    (w.withHeap heap).deleteAll qs = (w.deleteAll qs).withHeap heap := by
  induction qs generalizing w with
  | nil => rfl
  | cons q rest ih =>
      show ((w.withHeap heap).releaseNative q.1 q.2).deleteAll rest = _
      rw [releaseNative_withHeap]
      exact ih _

theorem retain_modifyPending (w : World) (id s : ObjId) (f : Pending → Pending) :
    (w.retain id).modifyPending s f = (w.modifyPending s f).retain id := by
  refine eq_of_entries rfl fun x => ?_
  simp only [retain, modifyPending, entry?_modifyEntry]
  split
  · split
    · cases w.entry? x with
      | none => rfl
      | some e =>
          obtain ⟨k, o⟩ := e
          cases o <;> rfl
    · rfl
  · rfl

theorem pending_retain (w : World) (id : ObjId) : (w.retain id).pending = w.pending :=
  pending_modifyEntry fun _ _ => rfl

theorem object_retain (w : World) (id x : ObjId) :
    Option.map Entry.object (World.entry? (w.retain id) x) = Option.map Entry.object ( w.entry? x) := by
  unfold retain
  rw [entry?_modifyEntry]
  split
  · rw [Option.map_map]
    rfl
  · rfl

/-- Deleting what is queued takes no notice of counts. -/
theorem released_retain (w : World) (id s : ObjId) (k : Nat) :
    (w.retain id).released s k = (w.released s k).retain id := by
  have hands := hands_deleteAll ((w.pending s).labelled.take k) (w.modifyPending s fun _ => {})
  unfold released
  rw [pending_retain, retain_modifyPending]
  refine (deleteAll_withHeap _ (w.modifyPending s fun _ => {}) _).trans ?_
  unfold retain modifyEntry
  rw [hands.heap]
  rfl

/-- What is counted once more before a flush of a store is counted once more after it, unless it is an
environment. -/
theorem Sound.flush_retain {n : NativeId} {id : ObjId} (sound : w.Sound held) (isStore : w.shapes.IsStore s n)
    (alive : w.strong id ≠ 0) (plain : ∀ type t, ¬ w.shapes.IsEnv id type t) :
    (w.retain id).flush s = (w.flush s).retain id := by
  obtain ⟨u, lowered, flush⟩ := sound.flush_eq isStore
  obtain ⟨u', lowered', flush'⟩ := (sound.retain alive).flush_eq (s := s) (n := n) (by
    rw [shapes_retain]
    exact isStore)
  let cleared (w : World) := w.modifyThread fun t => { t with retired := [] }
  rw [pending_retain] at lowered' flush'
  rw [released_retain] at lowered'
  have returned : (w.retain id).returned s = w.returned s := by
    unfold World.returned
    rw [pending_retain]
    rfl
  rw [returned] at lowered'
  have counted : (cleared (w.released s (w.pending s).size)).strong id ≠ 0 := by
    have hands := hands_deleteAll ((w.pending s).labelled.take (w.pending s).size) (w.modifyPending s fun _ => {})
    have same : (cleared (w.released s (w.pending s).size)).strong id = w.strong id :=
      congrFun ((strong_of_heap hands.heap).trans (strong_modifyPending w s _)) id
    rwa [same]
  have other : id ∉ w.returned s := fun mem => by
    obtain ⟨x, -, lent⟩ := List.mem_filterMap.mp mem
    obtain ⟨i, h, type, -, -, isEnv⟩ := sound.toAccounted.owner_of_lentTo lent
    exact plain type h.store isEnv
  have same : u' = u.retain id := by
    refine eq_of_counts ?_ (fun x => ?_) fun x => ?_
    · rw [lowered'.rest, lowered.rest]
      rfl
    · exact ((lowered'.object x).trans (object_retain _ id x)).trans
        ((lowered.object x).symm.trans (object_retain u id x).symm)
    · have kept : u.strong id ≠ 0 := by
        have count := lowered.count id
        rw [List.count_eq_zero.mpr other, Nat.add_zero] at count
        rwa [count]
      have before := lowered.count x
      have after : u'.strong x + (w.returned s).count x = _ :=
        (lowered'.count x).trans (strong_retain counted x)
      rw [strong_retain kept]
      change u.strong x + _ = (cleared (w.released s (w.pending s).size)).strong x at before
      omega
  rw [flush', flush, same, closed_eq, closed_eq]
  rfl

theorem Sound.flush_retainAll {n : NativeId} (ids : List ObjId) {w : World} {held : List ObjId}
    (sound : w.Sound held) (isStore : w.shapes.IsStore s n) (alive : ∀ id ∈ ids, w.strong id ≠ 0)
    (plain : ∀ id ∈ ids, ∀ type t, ¬ w.shapes.IsEnv id type t) :
    (w.retainAll ids).flush s = (w.flush s).retainAll ids := by
  induction ids generalizing w held with
  | nil => rfl
  | cons id ids ih =>
      have alive' := alive id List.mem_cons_self
      have shapes := shapes_retain w id
      have later := ih (sound.retain alive') (by rw [shapes]; exact isStore)
        (fun x mem => strong_retain_ne_zero (alive x (List.mem_cons_of_mem id mem)))
        (by rw [shapes]; exact fun x mem => plain x (List.mem_cons_of_mem id mem))
      show ((w.retain id).retainAll ids).flush s = ((w.flush s).retain id).retainAll ids
      rw [later, sound.flush_retain isStore alive' (plain id List.mem_cons_self)]

end World

end HostEmbedding
