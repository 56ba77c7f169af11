import HostEmbedding.Proofs.Alike.Code
import HostEmbedding.Proofs.Ownership.Detaching

/-!
# Worlds of two runs

The worlds of two scripts that are variations of each other hold the same objects under the same
addresses. Functions of other shapes change only the code of closures. Flushes also change what is
queued and what has been deleted, and with it how often environments are referred to: an environment
is shared by a handle and a native function, and no operation asks how often.
-/

namespace HostEmbedding

variable {δ : Variation}

/-! ## Entries -/

/-- The events that are the same in both runs. Under other flushes these are the drops: how many pointers
were released is logged, and so is each release. Under other shapes only what host code records of
itself differs: its parameters as it got them and the positions of its steps. -/
def Variation.shows : Variation → Event → Bool
  | .flushes, e => e.drop?.isSome
  | _, .entered .. => false
  | _, .stepDone .. => false
  | _, _ => true

theorem Variation.hides_stepDone (δ : Variation) (label : String) (i : Nat) (a : Answer) :
    δ.shows (.stepDone label i a) = false := by
  cases δ <;> rfl

theorem Variation.hides_entered (δ : Variation) (label : String) (args : List Shown) :
    δ.shows (.entered label args) = false := by
  cases δ <;> rfl

inductive Object.Alike (δ : Variation) : Object → Object → Prop
  | store {n : NativeId} {config : Config} {p q : Pending} (same : δ ≠ .flushes → q = p) :
      Object.Alike δ (.store n config p) (.store n config q)
  | handle (h : Handle) : Object.Alike δ (.handle h) (.handle h)
  | env (closure : Option ObjId) (type : FuncType) (store : ObjId) :
      Object.Alike δ (.env closure type store) (.env closure type store)
  | closure {code code' : HostCode} (captures : Scope) (like : code.Like δ code') :
      Object.Alike δ (.closure code captures) (.closure code' captures)
  | referent (label : String) (payload : Payload) :
      Object.Alike δ (.referent label payload) (.referent label payload)
  | cell (content : Option Item) : Object.Alike δ (.cell content) (.cell content)

structure Entry.Alike (δ : Variation) (e e' : Entry) : Prop where
  object : e.object.Alike δ e'.object
  strong : δ ≠ .flushes ∨ e.object.isEnv = false → e'.strong = e.strong

structure NativeEntry.Alike (δ : Variation) (e e' : NativeEntry) : Prop where
  object : e'.object = e.object
  tag : e'.tag = e.tag
  same : δ ≠ .flushes → e' = e

namespace World

def IsNumbered (w : World) (n : NativeId) : Prop := ((w.natives[n.index]?).bind NativeEntry.tag).isSome

/-- Whatever is queued has been shown before, so releasing it gives out no number. -/
def Numbered (w : World) : Prop :=
  ∀ id e, w.entry? id = some e → ∀ n ∈ e.object.queued, w.IsNumbered n

structure Alike (δ : Variation) (w v : World) : Prop where
  size : v.heap.size = w.heap.size
  entries : ∀ id, Option.Rel (Entry.Alike δ) ( w.entry? id) ( v.entry? id)
  table : v.natives.size = w.natives.size
  natives : ∀ n : NativeId, Option.Rel (NativeEntry.Alike δ) w.natives[n.index]? v.natives[n.index]?
  frames : v.thread.frames = w.thread.frames
  thread : δ ≠ .flushes → v.thread = w.thread
  level : v.level = w.level
  tags : v.tags = w.tags
  locks : v.locks = w.locks
  events : v.events.filter δ.shows = w.events.filter δ.shows
  lastFlush : δ ≠ .flushes → v.lastFlush = w.lastFlush
  numbered : w.Numbered
  numbered' : v.Numbered

variable {w v : World}

/-! ## Numbers of what is queued -/

theorem Numbered.modifyEntry (numbered : w.Numbered) {id : ObjId} {f : Entry → Entry}
    (queues : ∀ e, w.entry? id = some e → ∀ n ∈ (f e).object.queued,
      n ∈ e.object.queued ∨ w.IsNumbered n) : (w.modifyEntry id f).Numbered := by
  intro x e found n mem
  rw [entry?_modifyEntry] at found
  split at found
  · next same =>
      subst same
      obtain ⟨old, known, rfl⟩ := Option.map_eq_some_iff.mp found
      rcases queues old known n mem with mem | shown
      · exact numbered x old known n mem
      · exact shown
  · exact numbered x e found n mem

theorem Numbered.alloc (numbered : w.Numbered) {o : Object} (empty : o.queued = []) (k : Nat) :
    (w.alloc o k).2.Numbered := by
  intro x e found n mem
  rw [entry?_alloc] at found
  split at found
  · obtain rfl := Option.some.inj found
    rw [empty] at mem
    cases mem
  · exact numbered x e found n mem

theorem IsNumbered.modifyNative {n : NativeId} (shown : w.IsNumbered n) {x : NativeId}
    {f : NativeEntry → NativeEntry} (tags : ∀ e, e.tag.isSome → (f e).tag.isSome) :
    (w.modifyNative x f).IsNumbered n := by
  unfold IsNumbered at shown ⊢
  show ((w.natives.modify x.index f)[n.index]?.bind NativeEntry.tag).isSome
  rw [Array.getElem?_modify]
  cases entry : w.natives[n.index]? with
  | none =>
      rw [entry] at shown
      cases shown
  | some e =>
      rw [entry] at shown
      split
      · exact tags e shown
      · exact shown

theorem Numbered.modifyNative (numbered : w.Numbered) {x : NativeId} {f : NativeEntry → NativeEntry}
    (tags : ∀ e, e.tag.isSome → (f e).tag.isSome) : (w.modifyNative x f).Numbered :=
  fun id e found n mem => (numbered id e found n mem).modifyNative tags

theorem Numbered.allocNative (numbered : w.Numbered) (o : Native) : (w.allocNative o).2.Numbered := by
  intro id e found n mem
  have shown := numbered id e found n mem
  unfold IsNumbered at shown ⊢
  show ((w.natives.push ⟨o, 0, 0, none⟩)[n.index]?.bind NativeEntry.tag).isSome
  rw [Array.getElem?_push]
  split
  · next last =>
      rw [last, Array.getElem?_eq_none (Nat.le_refl _)] at shown
      cases shown
  · exact shown

/-- Two runs start with nothing. -/
theorem Alike.empty (level : Option LogLevel) :
    (World.empty level).Alike δ (World.empty level) := by
  have absent (id : ObjId) : World.entry? (World.empty level) id = none := by simp [World.empty, World.entry?]
  have nothing (n : NativeId) : (World.empty level).natives[n.index]? = none := by simp [World.empty]
  have numbered : (World.empty level).Numbered := fun id e found => by
    rw [absent] at found
    cases found
  refine ⟨rfl, fun id => ?_, rfl, fun n => ?_, rfl, fun _ => rfl, rfl, rfl, rfl, rfl, fun _ => rfl, numbered,
    numbered⟩
  · rw [absent]
    exact .none
  · rw [nothing]
    exact .none

namespace Alike

/-! ## Reading -/

variable (alike : w.Alike δ v)
include alike

theorem entry {id : ObjId} {e : Entry} (found : w.entry? id = some e) :
    ∃ e', v.entry? id = some e' ∧ e.Alike δ e' := by
  have related := alike.entries id
  rw [found] at related
  cases known : v.entry? id with
  | none =>
      rw [known] at related
      cases related
  | some e' =>
      rw [known] at related
      cases related with
      | some alike => exact ⟨e', rfl, alike⟩

theorem entry_none {id : ObjId} : v.entry? id = none ↔ w.entry? id = none := by
  have related := alike.entries id
  constructor
  · intro absent
    rw [absent] at related
    cases found : w.entry? id with
    | none => rfl
    | some e =>
        rw [found] at related
        cases related
  · intro absent
    rw [absent] at related
    cases found : v.entry? id with
    | none => rfl
    | some e =>
        rw [found] at related
        cases related

theorem entry_back {id : ObjId} {e' : Entry} (found : v.entry? id = some e') :
    ∃ e, w.entry? id = some e ∧ e.Alike δ e' := by
  cases known : w.entry? id with
  | none => exact absurd (found.symm.trans (alike.entry_none.mpr known)) (Option.some_ne_none _)
  | some e =>
      obtain ⟨e'', found', related⟩ := alike.entry known
      obtain rfl := Option.some.inj (found.symm.trans found')
      exact ⟨e, rfl, related⟩

/-- What is counted as often in both runs: everything under other shapes, and all but environments under
other flushes. -/
theorem strong {id : ObjId} (counts : δ ≠ .flushes ∨ ∀ e, w.entry? id = some e → e.object.isEnv = false) :
    v.strong id = w.strong id := by
  unfold World.strong
  cases known : w.entry? id with
  | none => rw [alike.entry_none.mpr known]
  | some e =>
      obtain ⟨e', found, related⟩ := alike.entry known
      rw [found]
      exact related.strong (counts.imp_right fun plain => plain e known)

theorem object? {id : ObjId} {o : Object} (plain : o.isEnv = false) (found : w.object? id = some o) :
    ∃ o', v.object? id = some o' ∧ o.Alike δ o' := by
  obtain ⟨k, known, alive⟩ := object?_eq_some.mp found
  obtain ⟨⟨k', o'⟩, known', object, strong⟩ := alike.entry known
  obtain rfl : k' = k := strong (.inr plain)
  exact ⟨o', object?_eq_some.mpr ⟨k', known', alive⟩, object⟩

theorem object?_back {id : ObjId} {o' : Object} (plain : o'.isEnv = false)
    (found : v.object? id = some o') : ∃ o, w.object? id = some o ∧ o.Alike δ o' := by
  obtain ⟨k', known', alive⟩ := object?_eq_some.mp found
  obtain ⟨⟨k, o⟩, known, object, strong⟩ := alike.entry_back known'
  have plain' : o.isEnv = false := by
    cases object with
    | env => exact plain
    | _ => rfl
  obtain rfl : k' = k := strong (.inr plain')
  exact ⟨o, object?_eq_some.mpr ⟨k', known, alive⟩, object⟩

/-- What has no variation is alive in both runs or in neither. -/
theorem object?_iff {id : ObjId} {o : Object} (plain : o.isEnv = false)
    (fixed : ∀ o', o.Alike δ o' ∨ o'.Alike δ o → o' = o) :
    v.object? id = some o ↔ w.object? id = some o := by
  constructor
  · intro found
    obtain ⟨o', back, object⟩ := alike.object?_back plain found
    rw [back, fixed o' (.inr object)]
  · intro found
    obtain ⟨o', there, object⟩ := alike.object? plain found
    rw [there, fixed o' (.inl object)]

theorem cell {id : ObjId} {content : Option Item} :
    v.object? id = some (.cell content) ↔ w.object? id = some (.cell content) :=
  alike.object?_iff rfl fun o' related => by rcases related with related | related <;> cases related <;> rfl

theorem handle? (id : ObjId) : v.handle? id = w.handle? id := by
  have live (w : World) (h : Handle) : w.handle? id = some h ↔ w.object? id = some (.handle h) := by
    unfold World.handle?
    split
    · next found => simp [found]
    · next other => exact ⟨fun absent => (nomatch absent), fun found => absurd found (other h)⟩
  refine Option.ext fun h => ?_
  rw [live, live]
  exact alike.object?_iff rfl fun o' related => by
    rcases related with related | related <;> cases related <;> rfl

theorem payload? (id : ObjId) : v.payload? id = w.payload? id := by
  have live (w : World) (p : Payload) :
      w.payload? id = some p ↔ ∃ label, w.object? id = some (.referent label p) := by
    unfold World.payload?
    split
    · next found => simp [found]
    · next other => exact ⟨fun absent => (nomatch absent), fun ⟨label, found⟩ => absurd found (other label p)⟩
  refine Option.ext fun p => ?_
  rw [live, live]
  refine exists_congr fun label => alike.object?_iff rfl fun o' related => ?_
  rcases related with related | related <;> cases related <;> rfl

theorem closure? {id : ObjId} {code : HostCode} {captures : Scope}
    (found : w.closure? id = some (code, captures)) :
    ∃ code', v.closure? id = some (code', captures) ∧ code.Like δ code' := by
  obtain ⟨isClosure, alive⟩ := closure?_eq_some.mp found
  obtain ⟨k, known⟩ := isClosure_iff.mp isClosure
  have counted : k ≠ 0 := by rwa [strong_eq known] at alive
  obtain ⟨o', found', object⟩ := alike.object? rfl (object?_eq_some.mpr ⟨k, known, counted⟩)
  cases object with
  | closure _ like =>
      refine ⟨_, ?_, like⟩
      unfold World.closure?
      rw [found']

theorem captures (id : ObjId) :
    (v.closure? id).map Prod.snd = (w.closure? id).map Prod.snd := by
  cases found : w.closure? id with
  | some p =>
      obtain ⟨code', found', -⟩ := alike.closure? found
      rw [found']
      rfl
  | none =>
      cases found' : v.closure? id with
      | none => rfl
      | some p =>
          obtain ⟨isClosure, alive⟩ := closure?_eq_some.mp found'
          obtain ⟨k, known⟩ := isClosure_iff.mp isClosure
          have counted : k ≠ 0 := by rwa [strong_eq known] at alive
          obtain ⟨o, back, object⟩ := alike.object?_back rfl (object?_eq_some.mpr ⟨k, known, counted⟩)
          cases object with
          | closure captures like =>
              unfold World.closure? at found
              rw [back] at found
              cases found

theorem label (id : ObjId) : v.label id = w.label id := by
  unfold World.label
  cases known : w.entry? id with
  | none => rw [alike.entry_none.mpr known]
  | some e =>
      obtain ⟨⟨k', o'⟩, found, object, -⟩ := alike.entry known
      obtain ⟨k, o⟩ := e
      rw [found]
      dsimp only at object ⊢
      cases object <;> rfl

theorem storeNative? (id : ObjId) : v.storeNative? id = w.storeNative? id := by
  unfold World.storeNative?
  cases known : w.entry? id with
  | none => rw [alike.entry_none.mpr known]
  | some e =>
      obtain ⟨⟨k', o'⟩, found, object, -⟩ := alike.entry known
      obtain ⟨k, o⟩ := e
      rw [found]
      dsimp only at object ⊢
      cases object <;> rfl

theorem storeConfig (id : ObjId) : v.storeConfig id = w.storeConfig id := by
  unfold World.storeConfig
  cases known : w.entry? id with
  | none => rw [alike.entry_none.mpr known]
  | some e =>
      obtain ⟨⟨k', o'⟩, found, object, -⟩ := alike.entry known
      obtain ⟨k, o⟩ := e
      rw [found]
      dsimp only at object ⊢
      cases object <;> rfl

/-- Under other shapes the same is queued. -/
theorem pending (among : δ ≠ .flushes) (id : ObjId) : v.pending id = w.pending id := by
  unfold World.pending
  cases known : w.entry? id with
  | none => rw [alike.entry_none.mpr known]
  | some e =>
      obtain ⟨⟨k', o'⟩, found, object, -⟩ := alike.entry known
      obtain ⟨k, o⟩ := e
      rw [found]
      dsimp only at object ⊢
      cases object with
      | store same => rw [same among]
      | _ => rfl

theorem shown (s : Scalar ObjId) : v.shown s = w.shown s :=
  congrArg s.map (funext alike.label)

theorem shownVals (vs : List (Val ObjId)) : v.shownVals vs = w.shownVals vs :=
  congrArg vs.map (funext fun _ => alike.shown _)

theorem native {n : NativeId} {e : NativeEntry} (found : w.natives[n.index]? = some e) :
    ∃ e', v.natives[n.index]? = some e' ∧ e.Alike δ e' := by
  have related := alike.natives n
  rw [found] at related
  cases known : v.natives[n.index]? with
  | none =>
      rw [known] at related
      cases related
  | some e' =>
      rw [known] at related
      cases related with
      | some alike => exact ⟨e', rfl, alike⟩

theorem native_none {n : NativeId} (absent : w.natives[n.index]? = none) : v.natives[n.index]? = none := by
  rw [Array.getElem?_eq_none_iff] at absent ⊢
  rw [alike.table]
  exact absent

theorem nativeObject? (n : NativeId) : v.nativeObject? n = w.nativeObject? n := by
  unfold World.nativeObject? bodies
  rw [List.getElem?_map, List.getElem?_map, Array.getElem?_toList, Array.getElem?_toList]
  cases known : w.natives[n.index]? with
  | none => rw [alike.native_none known]
  | some e =>
      obtain ⟨e', found, related⟩ := alike.native known
      rw [found]
      exact congrArg some related.object

theorem tag (n : NativeId) :
    (v.natives[n.index]?).bind NativeEntry.tag = (w.natives[n.index]?).bind NativeEntry.tag := by
  cases known : w.natives[n.index]? with
  | none => rw [alike.native_none known]
  | some e =>
      obtain ⟨e', found, related⟩ := alike.native known
      rw [found]
      exact related.tag

theorem deletions (among : δ ≠ .flushes) (n : NativeId) : v.deletions n = w.deletions n := by
  unfold World.deletions bodies
  rw [List.getElem?_map, List.getElem?_map, Array.getElem?_toList, Array.getElem?_toList]
  cases known : w.natives[n.index]? with
  | none => rw [alike.native_none known]
  | some e =>
      obtain ⟨e', found, related⟩ := alike.native known
      rw [found, related.same among]

/-- What is deleted in both runs or in neither is the same object. -/
theorem native? {n : NativeId} (same : v.deletions n = w.deletions n) : v.native? n = w.native? n := by
  rw [native?_eq, native?_eq, same, alike.nativeObject?]

/-! ## Changing -/

theorem modifyEntry {id : ObjId} {f g : Entry → Entry}
    (keeps : ∀ e e', w.entry? id = some e → v.entry? id = some e' → e.Alike δ e' → (f e).Alike δ (g e'))
    (queues : ∀ e, w.entry? id = some e → ∀ n ∈ (f e).object.queued,
      n ∈ e.object.queued ∨ w.IsNumbered n)
    (queues' : ∀ e, v.entry? id = some e → ∀ n ∈ (g e).object.queued,
      n ∈ e.object.queued ∨ v.IsNumbered n) :
    (w.modifyEntry id f).Alike δ (v.modifyEntry id g) where
  size := by simp [World.modifyEntry, alike.size]
  entries x := by
    rw [entry?_modifyEntry, entry?_modifyEntry]
    split
    · next same =>
        subst same
        cases known : w.entry? x with
        | none =>
            rw [alike.entry_none.mpr known]
            exact .none
        | some e =>
            obtain ⟨e', found, related⟩ := alike.entry known
            rw [found]
            exact .some (keeps e e' known found related)
    · exact alike.entries x
  table := alike.table
  natives := alike.natives
  frames := alike.frames
  thread := alike.thread
  level := alike.level
  tags := alike.tags
  locks := alike.locks
  events := alike.events
  lastFlush := alike.lastFlush
  numbered := alike.numbered.modifyEntry queues
  numbered' := alike.numbered'.modifyEntry queues'

/-- A change of a count. -/
theorem modifyStrong (id : ObjId) {f : Nat → Nat} :
    (w.modifyEntry id fun e => { e with strong := f e.strong }).Alike δ
      (v.modifyEntry id fun e => { e with strong := f e.strong }) :=
  alike.modifyEntry
    (fun _ _ _ _ related => ⟨related.object, fun counts => congrArg f (related.strong counts)⟩)
    (fun _ _ _ mem => .inl mem) (fun _ _ _ mem => .inl mem)

theorem retain (id : ObjId) : (w.retain id).Alike δ (v.retain id) := alike.modifyStrong id

omit alike in
theorem retainAll (ids : List ObjId) {w v : World} (alike : w.Alike δ v) :
    (w.retainAll ids).Alike δ (v.retainAll ids) := by
  induction ids generalizing w v with
  | nil => exact alike
  | cons id rest ih => exact ih (alike.retain id)

/-- Replacing an object by one that queues nothing. -/
theorem setObject (id : ObjId) {o : Object} (like : o.Alike δ o)
    (was : ∀ e, w.entry? id = some e → e.object.isEnv = false) (empty : o.queued = []) :
    (w.setObject id o).Alike δ (v.setObject id o) := by
  have none {P : NativeId → Prop} : ∀ n ∈ o.queued, P n := by
    rw [empty]
    exact fun _ mem => nomatch mem
  exact alike.modifyEntry
    (fun e _ found _ related => ⟨like, fun _ => related.strong (.inr (was e found))⟩)
    (fun _ _ => none) (fun _ _ => none)

/-- Two new objects stand under one address. -/
theorem alloc {o o' : Object} (object : o.Alike δ o') (empty : o.queued = []) (empty' : o'.queued = [])
    (k : Nat) :
    (v.alloc o' k).1 = (w.alloc o k).1 ∧ (w.alloc o k).2.Alike δ (v.alloc o' k).2 := by
  have address : (v.alloc o' k).1 = (w.alloc o k).1 := congrArg ObjId.mk alike.size
  refine ⟨address, ?_⟩
  exact {
    size := by simp [World.alloc, alike.size]
    entries := fun x => by
      rw [entry?_alloc, entry?_alloc, address]
      split
      · exact .some ⟨object, fun _ => rfl⟩
      · exact alike.entries x
    table := alike.table
    natives := alike.natives
    frames := alike.frames
    thread := alike.thread
    level := alike.level
    tags := alike.tags
    locks := alike.locks
    events := alike.events
    lastFlush := alike.lastFlush
    numbered := alike.numbered.alloc empty k
    numbered' := alike.numbered'.alloc empty' k }

theorem modifyNative (n : NativeId) {f g : NativeEntry → NativeEntry}
    (keeps : ∀ e e', e.Alike δ e' → (f e).Alike δ (g e')) (tags : ∀ e, e.tag.isSome → (f e).tag.isSome)
    (tags' : ∀ e, e.tag.isSome → (g e).tag.isSome) :
    (w.modifyNative n f).Alike δ (v.modifyNative n g) where
  size := alike.size
  entries := alike.entries
  table := by simp [World.modifyNative, alike.table]
  natives x := by
    show Option.Rel _ (w.natives.modify n.index f)[x.index]? (v.natives.modify n.index g)[x.index]?
    rw [Array.getElem?_modify, Array.getElem?_modify]
    cases known : w.natives[x.index]? with
    | none =>
        rw [alike.native_none known]
        split <;> exact .none
    | some e =>
        obtain ⟨e', found, related⟩ := alike.native known
        rw [found]
        split
        · exact .some (keeps e e' related)
        · exact .some related
  frames := alike.frames
  thread := alike.thread
  level := alike.level
  tags := alike.tags
  locks := alike.locks
  events := alike.events
  lastFlush := alike.lastFlush
  numbered := alike.numbered.modifyNative tags
  numbered' := alike.numbered'.modifyNative tags'

theorem setNative (n : NativeId) (o : Native) : (w.setNative n o).Alike δ (v.setNative n o) :=
  alike.modifyNative n
    (fun _ _ related => ⟨rfl, related.tag, fun among => by rw [related.same among]⟩) (fun _ shown => shown)
    (fun _ shown => shown)

theorem modifyNativeStore (n : NativeId) (f : NativeStore → NativeStore) :
    (w.modifyNativeStore n f).Alike δ (v.modifyNativeStore n f) := by
  refine alike.modifyNative n (fun e e' related => ?_) (fun e shown => ?_) fun e shown => ?_
  case refine_2 | refine_3 =>
    split
    · exact shown
    · exact shown
  refine ⟨?_, ?_, fun among => by rw [related.same among]⟩
  · rw [related.object]
    split
    · rfl
    · exact related.object
  · rw [related.object]
    split
    · exact related.tag
    · exact related.tag

theorem deleteNative (n : NativeId) : (w.deleteNative n).Alike δ (v.deleteNative n) :=
  alike.modifyNative n
    (fun _ _ related => ⟨related.object, related.tag, fun among => by rw [related.same among]⟩)
    (fun _ shown => shown) (fun _ shown => shown)

/-- Two new native objects stand under one address. -/
theorem allocNative (o : Native) :
    (v.allocNative o).1 = (w.allocNative o).1 ∧ (w.allocNative o).2.Alike δ (v.allocNative o).2 := by
  refine ⟨congrArg NativeId.mk alike.table, ?_⟩
  exact {
    size := alike.size
    entries := alike.entries
    table := by simp [World.allocNative, alike.table]
    natives := fun x => by
      show Option.Rel _ (w.natives.push ⟨o, 0, 0, none⟩)[x.index]? (v.natives.push ⟨o, 0, 0, none⟩)[x.index]?
      rw [Array.getElem?_push, Array.getElem?_push, alike.table]
      split
      · exact .some ⟨rfl, rfl, fun _ => rfl⟩
      · exact alike.natives x
    frames := alike.frames
    thread := alike.thread
    level := alike.level
    tags := alike.tags
    locks := alike.locks
    events := alike.events
    lastFlush := alike.lastFlush
    numbered := alike.numbered.allocNative o
    numbered' := alike.numbered'.allocNative o }

/-- A change of the running thread. -/
theorem modifyThread {f : ThreadState → ThreadState}
    (frames : ∀ t t', t'.frames = t.frames → (f t').frames = (f t).frames) :
    (w.modifyThread f).Alike δ (v.modifyThread f) :=
  { alike with
    frames := frames _ _ alike.frames
    thread := fun among => congrArg f (alike.thread among) }

theorem emit (e : Event) : (w.emit e).Alike δ (v.emit e) :=
  { alike with
    events := by
      show (e :: v.events).filter δ.shows = (e :: w.events).filter δ.shows
      rw [List.filter_cons, List.filter_cons, alike.events] }

/-- Events that are not compared. -/
theorem emit_hidden {e e' : Event} (hidden : δ.shows e = false) (hidden' : δ.shows e' = false) :
    (w.emit e).Alike δ (v.emit e') :=
  { alike with
    events := by
      show (e' :: v.events).filter δ.shows = (e :: w.events).filter δ.shows
      rw [List.filter_cons_of_neg (by simp [hidden']), List.filter_cons_of_neg (by simp [hidden]),
        alike.events] }

/-- Events that are not compared, of which each run may have one. -/
theorem unseen {e e' : Event} (hidden : δ.shows e = false) (hidden' : δ.shows e' = false)
    (quiet quiet' : Bool) :
    (if quiet then w else w.emit e).Alike δ (if quiet' then v else v.emit e') := by
  have left : (w.emit e).Alike δ v :=
    { alike with
      events := by
        show v.events.filter δ.shows = (e :: w.events).filter δ.shows
        rw [List.filter_cons_of_neg (by simp [hidden]), alike.events] }
  have right {u : World} (alike : u.Alike δ v) : u.Alike δ (v.emit e') :=
    { alike with
      events := by
        show (e' :: v.events).filter δ.shows = u.events.filter δ.shows
        rw [List.filter_cons_of_neg (by simp [hidden']), alike.events] }
  cases quiet <;> cases quiet'
  · exact right left
  · exact left
  · exact right alike
  · exact alike

theorem log (r : LogRecord) : (w.log r).Alike δ (v.log r) := by
  unfold World.log
  rw [alike.level]
  split
  · split
    · exact alike.emit _
    · exact alike
  · exact alike

/-- A native object is shown under the same number. -/
theorem tagged (n : NativeId) : (v.tag n).1 = (w.tag n).1 ∧ (w.tag n).2.Alike δ (v.tag n).2 := by
  unfold World.tag
  rw [alike.tag, alike.tags]
  split
  · exact ⟨rfl, alike⟩
  · have shown : (w.modifyNative n fun e => { e with tag := some (w.tags + 1) }).Alike δ
        (v.modifyNative n fun e => { e with tag := some (w.tags + 1) }) :=
      alike.modifyNative n
        (fun _ _ related => ⟨related.object, rfl, fun among => by rw [related.same among]⟩) (fun _ _ => rfl)
        (fun _ _ => rfl)
    exact ⟨rfl, { shown with tags := rfl }⟩

theorem logAbout (n : NativeId) (r : Nat → LogRecord) : (w.logAbout n r).Alike δ (v.logAbout n r) := by
  obtain ⟨number, alike⟩ := alike.tagged n
  unfold World.logAbout
  dsimp only
  rw [number]
  exact alike.log _

theorem guard (op : GuardedOp) : (w.guard op).Alike δ (v.guard op) := by
  have untouched (w : World) : ∃ aborted, w.guard op = { w with aborted := aborted } := by
    unfold World.guard
    split
    · exact ⟨w.aborted, rfl⟩
    · exact ⟨_, rfl⟩
  obtain ⟨a, here⟩ := untouched w
  obtain ⟨b, there⟩ := untouched v
  rw [here, there]
  exact { alike with }

end Alike

end World

end HostEmbedding
