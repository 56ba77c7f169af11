import HostEmbedding.Proofs.Ownership.Places
import HostEmbedding.Proofs.Ownership.Retaining

/-!
# Worlds of two calls

A call keeps the handle that it was asked for until it ends. When one run calls through a view and another
run calls through the owning handle, their worlds hold the same objects and differ in nothing but counts: the
one run counts the view once more, and the other one its owner. The view may have been dropped in the second
run; then the first run also counts the store once more, which the view keeps.
-/

namespace HostEmbedding

structure View where
  handle : ObjId
  owner : ObjId
  store : ObjId

namespace View

variable {p : View}

def Of (p : View) (Γ : Shapes) : Prop :=
  ∃ h k, Γ.IsHandle p.handle h ∧ h.owner = some p.owner ∧ h.store = p.store ∧ h.state.env? = none ∧
    Γ.IsHandle p.owner k ∧ k.owner = none ∧ k.store = p.store

/-- What is counted once more in the run that keeps the view. -/
def spared (p : View) (gone : Bool) : List ObjId := if gone then [p.handle, p.store] else [p.handle]

/-- What is counted once more in the run that keeps the owner. -/
def added (p : View) (gone : Bool) : List ObjId := if gone then [] else [p.owner]

theorem Of.mono {Γ Δ : Shapes} (of : p.Of Γ) (grows : Γ.Grows Δ) : p.Of Δ := by
  obtain ⟨h, k, known, owner, store, env, known', owning, store'⟩ := of
  exact ⟨h, k, grows.object known, owner, store, env, grows.object known', owning, store'⟩

end View

namespace World

variable {p : View} {gone : Bool} {w v : World} {id : ObjId}

/-! ## Another heap -/

def withHeap (w : World) (heap : Array Entry) : World := { w with heap }

section

variable (w : World) (heap : Array Entry) (n : NativeId)

theorem withHeap_heap : w.withHeap w.heap = w := rfl

theorem log_withHeap (r : LogRecord) : (w.withHeap heap).log r = (w.log r).withHeap heap := by
  have level : (w.withHeap heap).level = w.level := rfl
  unfold World.log
  rw [level]
  split
  · split <;> rfl
  · rfl

theorem tag_withHeap : (w.withHeap heap).tag n = ((w.tag n).1, (w.tag n).2.withHeap heap) := by
  have natives : (w.withHeap heap).natives = w.natives := rfl
  unfold World.tag
  rw [natives]
  split <;> rfl

theorem logAbout_withHeap (r : Nat → LogRecord) :
    (w.withHeap heap).logAbout n r = (w.logAbout n r).withHeap heap := by
  unfold World.logAbout
  rw [tag_withHeap]
  exact log_withHeap _ heap _

theorem guard_withHeap (op : GuardedOp) : (w.withHeap heap).guard op = (w.guard op).withHeap heap := by
  have thread : (w.withHeap heap).thread = w.thread := rfl
  unfold World.guard
  rw [thread]
  split <;> rfl

theorem deleteMemory_withHeap : (w.withHeap heap).deleteMemory n = (w.deleteMemory n).withHeap heap := by
  unfold World.deleteMemory
  rw [guard_withHeap]
  rfl

theorem deleteInterrupt_withHeap :
    (w.withHeap heap).deleteInterrupt n = (w.deleteInterrupt n).withHeap heap := by
  unfold World.deleteInterrupt
  rw [guard_withHeap]
  rfl

theorem deleteFunc_withHeap : (w.withHeap heap).deleteFunc n = (w.deleteFunc n).withHeap heap := by
  have func : (w.withHeap heap).nativeFunc? n = w.nativeFunc? n := rfl
  unfold World.deleteFunc
  rw [func, guard_withHeap]
  dsimp only
  split <;> rfl

theorem deleteExtern_withHeap : (w.withHeap heap).deleteExtern n = (w.deleteExtern n).withHeap heap := by
  have kind : (w.withHeap heap).externKind? n = w.externKind? n := rfl
  unfold World.deleteExtern
  rw [kind]
  split
  · exact deleteFunc_withHeap w heap n
  · exact deleteMemory_withHeap w heap n
  · rfl

theorem releaseNative_withHeap (kind : HandleState) :
    (w.withHeap heap).releaseNative kind n = (w.releaseNative kind n).withHeap heap := by
  unfold World.releaseNative
  rw [logAbout_withHeap]
  cases kind with
  | memory lock => exact deleteMemory_withHeap _ heap n
  | interrupt => exact deleteInterrupt_withHeap _ heap n
  | view => exact deleteExtern_withHeap _ heap n
  | func env => exact deleteFunc_withHeap _ heap n

theorem releaseQueue_withHeap (kind : HandleState) (ns : List NativeId) :
    (w.withHeap heap).releaseQueue kind ns = (w.releaseQueue kind ns).withHeap heap := by
  induction ns generalizing w with
  | nil => rfl
  | cons n rest ih =>
      show ((w.withHeap heap).releaseNative kind n).releaseQueue kind rest = _
      rw [releaseNative_withHeap]
      exact ih _

theorem releaseBatch_withHeap (batch : Pending) :
    (w.withHeap heap).releaseBatch batch = (w.releaseBatch batch).withHeap heap := by
  unfold World.releaseBatch
  dsimp only
  rw [releaseQueue_withHeap, releaseQueue_withHeap, releaseQueue_withHeap, releaseQueue_withHeap]

end

/-! ## The relation -/

/-- The worlds of a run that keeps a view and of a run that keeps its owner instead; `gone` tells whether
the second one has dropped the view. -/
structure Beside (p : View) (gone : Bool) (w v : World) : Prop where
  rest : v = w.withHeap v.heap
  size : v.heap.size = w.heap.size
  object : ∀ id, Option.map Entry.object ( v.entry? id) = Option.map Entry.object ( w.entry? id)
  count : ∀ id, v.strong id + (p.spared gone).count id = w.strong id + (p.added gone).count id
  kept : w.strong p.handle ≠ 0
  view : v.strong p.handle = 0 ↔ gone = true
  alive : ∀ id, id ≠ p.handle → (v.strong id = 0 ↔ w.strong id = 0)
  shape : p.Of w.shapes

namespace Beside

/-! ## Reading -/

theorem cases (beside : w.Beside p gone v) (id : ObjId) :
    ( w.entry? id = none ∧ v.entry? id = none) ∨
      ∃ k j o, w.entry? id = some ⟨k, o⟩ ∧ v.entry? id = some ⟨j, o⟩ := by
  have object := beside.object id
  cases here : w.entry? id with
  | none =>
      rw [here] at object
      exact .inl ⟨rfl, Option.map_eq_none_iff.mp object⟩
  | some e =>
      rw [here] at object
      obtain ⟨e', there, same⟩ := Option.map_eq_some_iff.mp object
      obtain ⟨k, o⟩ := e
      obtain ⟨j, o'⟩ := e'
      obtain rfl : o' = o := same
      exact .inr ⟨k, j, o', rfl, there⟩

theorem entry (beside : w.Beside p gone v) {k : Nat} {o : Object} (found : w.entry? id = some ⟨k, o⟩) :
    v.entry? id = some ⟨v.strong id, o⟩ := by
  rcases beside.cases id with ⟨here, -⟩ | ⟨k', j, o', here, there⟩
  · rw [here] at found
    cases found
  · cases found.symm.trans here
    rw [there, strong_eq there]

theorem shapes (beside : w.Beside p gone v) : v.shapes = w.shapes := by
  have objects : v.shapes.object? = w.shapes.object? := by
    funext id
    unfold World.shapes
    dsimp only
    rcases beside.cases id with ⟨here, there⟩ | ⟨k, j, o, here, there⟩
    · rw [here, there]
    · rw [here, there]
      rfl
  have natives : v.shapes.native? = w.shapes.native? := by rw [beside.rest]; rfl
  exact congrArg₂ Shapes.mk objects natives

/-- A view that is known is not a store, a closure, a reference or a cell. -/
theorem ne_view (beside : w.Beside p gone v) {k : Nat} {o : Object} (found : w.entry? id = some ⟨k, o⟩)
    (other : ∀ h, o ≠ .handle h) : id ≠ p.handle := by
  rintro rfl
  obtain ⟨h, -, known, -⟩ := beside.shape
  obtain ⟨j, entry⟩ := isHandle_iff.mp known
  cases found.symm.trans entry
  exact other h rfl

theorem object?_eq (beside : w.Beside p gone v) (kept : id ≠ p.handle ∨ gone = false) :
    v.object? id = w.object? id := by
  have alive : v.strong id = 0 ↔ w.strong id = 0 := by
    by_cases same : id = p.handle
    · subst same
      rw [beside.view, kept.resolve_left (not_not.mpr rfl)]
      simp [beside.kept]
    · exact beside.alive id same
  unfold World.object?
  rcases beside.cases id with ⟨here, there⟩ | ⟨k, j, o, here, there⟩
  · rw [here, there]
  · rw [strong_eq here, strong_eq there] at alive
    rw [here, there]
    dsimp only
    simp only [alive]

/-- Only whether the view is alive can be told apart. -/
theorem object?_iff (beside : w.Beside p gone v) {o : Object} (other : ∀ h, o ≠ .handle h) :
    v.object? id = some o ↔ w.object? id = some o := by
  have known {u : World} (found : u.object? id = some o) (same : ∀ k, u.entry? id = some ⟨k, o⟩ →
      ∃ j, w.entry? id = some ⟨j, o⟩) : id ≠ p.handle := by
    obtain ⟨k, entry, -⟩ := object?_eq_some.mp found
    obtain ⟨j, entry⟩ := same k entry
    exact beside.ne_view entry other
  constructor
  · intro found
    have apart := known found fun k entry => by
      rcases beside.cases id with ⟨-, there⟩ | ⟨k, j, o, here, there⟩
      · cases entry.symm.trans there
      · cases entry.symm.trans there
        exact ⟨k, here⟩
    rwa [beside.object?_eq (.inl apart)] at found
  · intro found
    have apart := known found fun k entry => ⟨k, entry⟩
    rwa [beside.object?_eq (.inl apart)]

theorem closure?_eq (beside : w.Beside p gone v) (id : ObjId) : v.closure? id = w.closure? id := by
  have live (u : World) (code : HostCode) (captures : Scope) :
      u.closure? id = some (code, captures) ↔ u.object? id = some (.closure code captures) := by
    unfold World.closure?
    split
    · next found => simp [found]
    · next other => exact ⟨fun absent => (nomatch absent), fun found => absurd found (other code captures)⟩
  refine Option.ext fun ⟨code, captures⟩ => ?_
  rw [live, live]
  exact beside.object?_iff fun _ same => nomatch same

theorem payload?_eq (beside : w.Beside p gone v) (id : ObjId) : v.payload? id = w.payload? id := by
  have live (u : World) (payload : Payload) :
      u.payload? id = some payload ↔ ∃ label, u.object? id = some (.referent label payload) := by
    unfold World.payload?
    split
    · next found => simp [found]
    · next other => exact ⟨fun absent => (nomatch absent), fun ⟨label, found⟩ => absurd found (other label payload)⟩
  refine Option.ext fun payload => ?_
  rw [live, live]
  exact exists_congr fun label => beside.object?_iff fun _ same => nomatch same

theorem label_eq (beside : w.Beside p gone v) : v.label = w.label := by
  funext id
  unfold World.label
  rcases beside.cases id with ⟨here, there⟩ | ⟨k, j, o, here, there⟩
  · rw [here, there]
  · cases o <;> simp only [here, there]

theorem shown_eq (beside : w.Beside p gone v) : v.shown = w.shown := by
  funext s
  unfold World.shown
  rw [beside.label_eq]

theorem shownVals_eq (beside : w.Beside p gone v) : v.shownVals = w.shownVals := by
  funext vs
  unfold World.shownVals
  rw [beside.shown_eq]

theorem pending_eq (beside : w.Beside p gone v) : v.pending = w.pending := by
  funext id
  unfold World.pending
  rcases beside.cases id with ⟨here, there⟩ | ⟨k, j, o, here, there⟩
  · rw [here, there]
  · cases o <;> simp only [here, there]

theorem storeNative?_eq (beside : w.Beside p gone v) : v.storeNative? = w.storeNative? := by
  funext id
  unfold World.storeNative?
  rcases beside.cases id with ⟨here, there⟩ | ⟨k, j, o, here, there⟩
  · rw [here, there]
  · cases o <;> simp only [here, there]

theorem storeConfig_eq (beside : w.Beside p gone v) : v.storeConfig = w.storeConfig := by
  funext id
  unfold World.storeConfig
  rcases beside.cases id with ⟨here, there⟩ | ⟨k, j, o, here, there⟩
  · rw [here, there]
  · cases o <;> simp only [here, there]

/-! ## Changing -/

/-- What is done to the rest of both worlds. -/
theorem blind {F : World → World} (beside : w.Beside p gone v)
    (blind : ∀ w heap, F (w.withHeap heap) = (F w).withHeap heap) : (F w).Beside p gone (F v) := by
  have kept (w : World) : (F w).heap = w.heap := by
    have same := blind w w.heap
    rw [withHeap_heap] at same
    have heaps := congrArg World.heap same
    exact heaps
  have entries (w : World) : World.entry? (F w) = w.entry? := entry?_of_heap (kept w)
  have strong (w : World) : (F w).strong = w.strong := strong_of_heap (kept w)
  constructor
  case rest =>
      rw [kept, ← blind, ← beside.rest]
  case size =>
      rw [kept, kept, beside.size]
  case object =>
      rw [entries, entries]
      exact beside.object
  case count =>
      rw [strong, strong]
      exact beside.count
  case kept =>
      rw [strong]
      exact beside.kept
  case view =>
      rw [strong]
      exact beside.view
  case alive =>
      rw [strong, strong]
      exact beside.alive
  case shape =>
      obtain ⟨h, k, known, owner, store, env, known', owning, store'⟩ := beside.shape
      simp only [isHandle_iff] at known known'
      refine ⟨h, k, ?_, owner, store, env, ?_, owning, store'⟩
      · rw [isHandle_iff, entries]
        exact known
      · rw [isHandle_iff, entries]
        exact known'

/-- A change of one entry that counts as many references as before in both worlds. -/
theorem modifyEntry (beside : w.Beside p gone v) (id : ObjId) {f : Entry → Entry}
    (object : ∀ k j o, (f ⟨k, o⟩).object = (f ⟨j, o⟩).object) (strong : ∀ e, (f e).strong = e.strong)
    (shape : ∀ e, w.entry? id = some e → (f e).object.shape = e.object.shape) :
    (w.modifyEntry id f).Beside p gone (v.modifyEntry id f) := by
  have counts (u : World) : (u.modifyEntry id f).strong = u.strong := by
    funext x
    cases found : World.entry? u id with
    | none => exact congrFun (strong_of_heap (modifyEntry_of_none found f)) x
    | some e =>
        rw [strong_modifyEntry found]
        split
        · next same => rw [same, strong_eq found, strong]
        · rfl
  constructor
  case rest =>
      rw [beside.rest]
      rfl
  case size =>
      simp [World.modifyEntry, beside.size]
  case object =>
      intro x
      rw [entry?_modifyEntry, entry?_modifyEntry]
      split
      · rcases beside.cases x with ⟨here, there⟩ | ⟨k, j, o, here, there⟩
        · rw [here, there]
        · rw [here, there]
          exact congrArg some (object j k o)
      · exact beside.object x
  case count =>
      rw [counts, counts]
      exact beside.count
  case kept =>
      rw [counts]
      exact beside.kept
  case view =>
      rw [counts]
      exact beside.view
  case alive =>
      rw [counts, counts]
      exact beside.alive
  case shape =>
      rw [View.Of, shapes_modifyEntry shape]
      exact beside.shape

/-- Nothing is counted once more but the view, its owner and their store, and those are there. -/
theorem count_absent (beside : w.Beside p gone v) (absent : w.entry? id = none) :
    (p.spared gone).count id = 0 ∧ (p.added gone).count id = 0 := by
  have known {x : ObjId} {k : Handle} (known : w.shapes.IsHandle x k) : x ≠ id := by
    rintro rfl
    obtain ⟨j, entry⟩ := isHandle_iff.mp known
    cases absent.symm.trans entry
  have count := beside.count id
  have dead : v.entry? id = none := by
    rcases beside.cases id with ⟨-, there⟩ | ⟨k, j, o, here, -⟩
    · exact there
    · cases absent.symm.trans here
  obtain ⟨h, k, handle, -, -, -, owner, -⟩ := beside.shape
  rw [strong_of_none absent, strong_of_none dead] at count
  have added : (p.added gone).count id = 0 := by
    unfold View.added
    split
    · rfl
    · exact List.count_eq_zero.mpr (by simpa using (known owner).symm)
  omega

/-- Counting one more reference in both worlds. -/
theorem retain (beside : w.Beside p gone v) (alive : v.strong id ≠ 0) :
    (w.retain id).Beside p gone (v.retain id) := by
  have alive' : w.strong id ≠ 0 := by
    by_cases same : id = p.handle
    · rw [same]
      exact beside.kept
    · exact fun dead => alive ((beside.alive id same).mpr dead)
  have here := strong_retain alive'
  have there := strong_retain alive
  constructor
  case rest =>
      rw [beside.rest]
      rfl
  case size =>
      simp [World.retain, World.modifyEntry, beside.size]
  case object =>
      intro x
      unfold World.retain
      rw [entry?_modifyEntry, entry?_modifyEntry]
      split
      · rw [Option.map_map, Option.map_map]
        exact beside.object x
      · exact beside.object x
  case count =>
      intro x
      have count := beside.count x
      rw [here, there]
      omega
  case kept =>
      rw [here]
      have kept := beside.kept
      omega
  case view =>
      have view := beside.view
      rw [there]
      rw [← view]
      by_cases same : id = p.handle
      · subst same
        simp [alive]
      · simp [same]
  case alive =>
      intro x apart
      have before := beside.alive x apart
      rw [here, there]
      omega
  case shape =>
      rw [shapes_retain]
      exact beside.shape

theorem retainAll (ids : List ObjId) {w v : World} (beside : w.Beside p gone v)
    (alive : ∀ id ∈ ids, v.strong id ≠ 0) : (w.retainAll ids).Beside p gone (v.retainAll ids) := by
  induction ids generalizing w v with
  | nil => exact beside
  | cons id rest ih =>
      exact ih (beside.retain (alive id List.mem_cons_self)) fun x mem =>
        strong_retain_ne_zero (alive x (List.mem_cons_of_mem id mem))

/-- A new object stands under the same address in both worlds. -/
theorem alloc (beside : w.Beside p gone v) (o : Object) (k : Nat) :
    (v.alloc o k).1 = (w.alloc o k).1 ∧ (w.alloc o k).2.Beside p gone (v.alloc o k).2 := by
  have address : (v.alloc o k).1 = (w.alloc o k).1 := congrArg ObjId.mk beside.size
  have absent := entry?_alloc_self w o k
  obtain ⟨spared, added⟩ := beside.count_absent absent
  have apart : p.handle ≠ (w.alloc o k).1 := by
    obtain ⟨h, -, known, -⟩ := beside.shape
    obtain ⟨j, entry⟩ := isHandle_iff.mp known
    rintro same
    rw [same, absent] at entry
    cases entry
  refine ⟨address, ?_⟩
  constructor
  case rest =>
      rw [beside.rest]
      rfl
  case size =>
      simp [World.alloc, beside.size]
  case object =>
      intro x
      rw [entry?_alloc, entry?_alloc, address]
      split
      · rfl
      · exact beside.object x
  case count =>
      intro x
      rw [strong_alloc, strong_alloc, address]
      split
      · next same => rw [same, spared, added]
      · exact beside.count x
  case kept =>
      rw [strong_alloc, if_neg apart]
      exact beside.kept
  case view =>
      rw [strong_alloc, address, if_neg apart]
      exact beside.view
  case alive =>
      intro x other
      rw [strong_alloc, strong_alloc, address]
      split
      · exact Iff.rfl
      · exact beside.alive x other
  case shape =>
      exact beside.shape.mono (shapes_alloc w o k)

theorem setObject (beside : w.Beside p gone v) {o o' : Object} (found : w.object? id = some o)
    (shape : o'.shape = o.shape) : (w.setObject id o').Beside p gone (v.setObject id o') := by
  obtain ⟨k, entry, -⟩ := object?_eq_some.mp found
  refine beside.modifyEntry id (fun _ _ _ => rfl) (fun _ => rfl) fun e known => ?_
  cases entry.symm.trans known
  exact shape

end Beside

end World

end HostEmbedding
