import HostEmbedding.World.Release
import Mathlib

/-!
# Holdings

What the heap and the native table hold, read as lists: the references that live objects own, the
environments that live functions were lent, the natives that live objects claim, the natives that
stand in queues, and what was dropped. Every operation changes one entry or adds one, so each of
these lists changes by what that entry contributes.
-/

namespace HostEmbedding

/-- What is dropped once: a closure or the content of a reference, under its label. -/
inductive Drop where
  | closure (label : String)
  | content (label : String)
  deriving DecidableEq

def Event.drop? : Event → Option Drop
  | .closureDropped label => some (.closure label)
  | .dropped label => some (.content label)
  | _ => none

namespace Object

/-- The native object that an object is responsible for: a store for its native store, an owning
handle for what it owns. -/
def claim? : Object → Option NativeId
  | .store native _ _ => some native
  | .handle h => if h.isOwning then some h.native else none
  | _ => none

def queued : Object → List NativeId
  | .store _ _ pending => pending.inOrder
  | _ => []

def drop? : Object → Option Drop
  | .closure code _ => some (.closure code.label)
  | .referent label _ => some (.content label)
  | _ => none

end Object

namespace Entry

def owned (e : Entry) : List ObjId := if e.strong = 0 then [] else e.object.refs

def claimed (e : Entry) : List NativeId := if e.strong = 0 then [] else e.object.claim?.toList

def queued (e : Entry) : List NativeId := e.object.queued

/-- The drop that a dead entry was. -/
def fallen (e : Entry) : List Drop := if e.strong = 0 then e.object.drop?.toList else []

end Entry

def Native.env? : Native → Option ObjId
  | .func ⟨_, _, .host env⟩ => some env
  | _ => none

/-- The environment that a native object was lent while it has not been deleted. -/
def Native.lent (b : Native × Nat) : List ObjId := if b.2 = 0 then b.1.env?.toList else []

namespace World

/-- What every entry of the heap contributes, in order. -/
def gather {α : Type} (f : Entry → List α) (w : World) : List α := w.heap.toList.flatMap f

def owned (w : World) : List ObjId := w.gather Entry.owned

def claimed (w : World) : List NativeId := w.gather Entry.claimed

def queued (w : World) : List NativeId := w.gather Entry.queued

/-- What was dropped. -/
def fallen (w : World) : List Drop := w.gather Entry.fallen

/-- The native objects with their deletions: all of the table that is not a record. -/
def bodies (w : World) : List (Native × Nat) := w.natives.toList.map fun e => (e.object, e.deletions)

/-- The environments that live native functions were lent. -/
def lent (w : World) : List ObjId := w.bodies.flatMap Native.lent

def nativeObject? (w : World) (n : NativeId) : Option Native := (w.bodies[n.index]?).map Prod.fst

def deletions (w : World) (n : NativeId) : Nat := ((w.bodies[n.index]?).map Prod.snd).getD 0

def finalizations (w : World) (n : NativeId) : Nat :=
  ((w.natives[n.index]?).map NativeEntry.finalized).getD 0

/-- Every function was finalized as often as it was deleted. -/
def Finalized (w : World) : Prop :=
  ∀ n f, w.nativeObject? n = some (.func f) → w.finalizations n = w.deletions n

def attached? (w : World) (env : ObjId) : Option ObjId :=
  match w.entry? env with
  | some ⟨_, .env closure _ _⟩ => closure
  | _ => none

def drops (w : World) : List Drop := w.events.filterMap Event.drop?

end World

/-! ## One entry of a list -/

section Lists

variable {α β : Type}

/-- Changing one element changes a gathered list by what that element contributes. -/
theorem count_flatMap_modify [DecidableEq β] (f : α → List β) (g : α → α) {l : List α} {i : Nat}
    {a : α} (found : l[i]? = some a) (b : β) :
    ((l.modify i g).flatMap f).count b + (f a).count b =
      (l.flatMap f).count b + (f (g a)).count b := by
  induction l generalizing i with
  | nil => simp at found
  | cons x rest ih =>
      cases i with
      | zero =>
          have same : x = a := by simpa using found
          subst same
          simp only [List.modify_zero_cons, List.flatMap_cons, List.count_append]
          omega
      | succ i =>
          have inner := ih (i := i) (by simpa using found)
          simp only [List.modify_succ_cons, List.flatMap_cons, List.count_append]
          omega

/-- A change that keeps what each element contributes keeps the gathered list. -/
theorem flatMap_modify_of_eq (f : α → List β) (g : α → α) (keeps : ∀ a, f (g a) = f a)
    (l : List α) (i : Nat) : (l.modify i g).flatMap f = l.flatMap f := by
  induction l generalizing i with
  | nil => cases i <;> rfl
  | cons x rest ih =>
      cases i with
      | zero => simp [keeps]
      | succ i => simp [ih]

/-- Changing one element changes a sum by the difference at that element. -/
theorem sum_map_modify (f : α → Nat) (g : α → α) {l : List α} {i : Nat} {a : α}
    (found : l[i]? = some a) :
    ((l.modify i g).map f).sum + f a = (l.map f).sum + f (g a) := by
  induction l generalizing i with
  | nil => simp at found
  | cons x rest ih =>
      cases i with
      | zero =>
          have same : x = a := by simpa using found
          subst same
          simp only [List.modify_zero_cons, List.map_cons, List.sum_cons]
          omega
      | succ i =>
          have inner := ih (i := i) (by simpa using found)
          simp only [List.modify_succ_cons, List.map_cons, List.sum_cons]
          omega

end Lists

namespace World

variable {w : World}

/-! ## The heap after a change -/

theorem entry?_eq (w : World) (id : ObjId) : w.entry? id = w.heap.toList[id.index]? := by
  simp [ entry?]

theorem entry?_modifyEntry (w : World) (id : ObjId) (g : Entry → Entry) (x : ObjId) :
    World.entry? (w.modifyEntry id g) x =
      if x = id then Option.map g ( w.entry? x) else w.entry? x := by
  obtain ⟨i⟩ := id
  obtain ⟨j⟩ := x
  simp only [ entry?, modifyEntry, Array.getElem?_modify, ObjId.mk.injEq, eq_comm (a := i)]

theorem gather_modifyEntry {α : Type} [DecidableEq α] (f : Entry → List α) (g : Entry → Entry)
    {id : ObjId} {e : Entry} (found : w.entry? id = some e) (a : α) :
    ((w.modifyEntry id g).gather f).count a + (f e).count a =
      (w.gather f).count a + (f (g e)).count a := by
  have inList : w.heap.toList[id.index]? = some e := by rw [← entry?_eq, found]
  have changed := count_flatMap_modify f g inList a
  simpa [gather, modifyEntry] using changed

theorem modifyEntry_of_none {id : ObjId} (absent : w.entry? id = none) (g : Entry → Entry) :
    (w.modifyEntry id g).heap = w.heap := by
  have beyond : w.heap.size ≤ id.index := by
    simpa [ entry?] using absent
  apply Array.ext_getElem?
  intro i
  simp only [modifyEntry, Array.getElem?_modify]
  split
  · next same =>
      subst same
      simp [Array.getElem?_eq_none beyond]
  · rfl

theorem entry?_alloc (w : World) (o : Object) (strong : Nat) (x : ObjId) :
    World.entry? (w.alloc o strong).2 x =
      if x = (w.alloc o strong).1 then some ⟨strong, o⟩ else w.entry? x := by
  obtain ⟨j⟩ := x
  simp [ entry?, alloc, Array.getElem?_push]

theorem gather_alloc {α : Type} (f : Entry → List α) (w : World) (o : Object) (strong : Nat) :
    (w.alloc o strong).2.gather f = w.gather f ++ f ⟨strong, o⟩ := by
  simp [gather, alloc]

theorem entry?_alloc_self (w : World) (o : Object) (strong : Nat) :
    w.entry? (w.alloc o strong).1 = none := by
  simp [ entry?, alloc]

/-! ## Environments -/

def closureOf : Object → Option ObjId
  | .env closure _ _ => closure
  | _ => none

theorem attached?_eq (w : World) (e : ObjId) :
    w.attached? e = ( w.entry? e).bind fun x => closureOf x.object := by
  unfold attached?
  cases found : w.entry? e with
  | none => rfl
  | some x =>
      obtain ⟨k, o⟩ := x
      cases o <;> rfl

theorem attached?_eq_some {e c : ObjId} :
    w.attached? e = some c ↔ ∃ k t s, w.entry? e = some ⟨k, .env (some c) t s⟩ := by
  constructor
  · intro attached
    unfold attached? at attached
    split at attached
    · next k closure t s found =>
        subst attached
        exact ⟨k, t, s, found⟩
    · cases attached
  · rintro ⟨k, t, s, found⟩
    simp [attached?, found]

theorem attached?_modifyEntry {id : ObjId} {g : Entry → Entry}
    (keeps : ∀ e, w.entry? id = some e → closureOf (g e).object = closureOf e.object) :
    (w.modifyEntry id g).attached? = w.attached? := by
  funext x
  simp only [attached?_eq, entry?_modifyEntry]
  split
  · next same =>
      subst same
      cases found : w.entry? x with
      | none => rfl
      | some e => simp [keeps e found]
  · rfl

/-- A change of an entry that attaches no closure. -/
theorem attached?_of_modifyEntry {id e c : ObjId} {g : Entry → Entry}
    (keeps : ∀ x, w.entry? id = some x → ∀ d, closureOf (g x).object = some d →
      closureOf x.object = some d)
    (holds : (w.modifyEntry id g).attached? e = some c) : w.attached? e = some c := by
  rw [attached?_eq, entry?_modifyEntry] at holds
  rw [attached?_eq]
  split at holds
  · next same =>
      subst same
      cases found : w.entry? e with
      | none => rw [found] at holds; cases holds
      | some x =>
          rw [found] at holds
          exact keeps x found c holds
  · exact holds

/-! ## Worlds with one heap -/

section

variable {v : World} (heap : v.heap = w.heap)
include heap

theorem entry?_of_heap : v.entry? = w.entry? := by
  funext id
  simp [ entry?, heap]

theorem strong_of_heap : v.strong = w.strong := by
  funext id
  simp [strong, entry?_of_heap heap]

theorem pending_of_heap : v.pending = w.pending := by
  funext id
  simp [pending, entry?_of_heap heap]

theorem attached?_of_heap : v.attached? = w.attached? := by
  funext id
  simp [attached?, entry?_of_heap heap]

theorem gather_of_heap {α : Type} (f : Entry → List α) : v.gather f = w.gather f := by
  simp [gather, heap]

end

/-! ## Membership -/

theorem mem_gather {α : Type} {f : Entry → List α} {a : α} :
    a ∈ w.gather f ↔ ∃ id e, w.entry? id = some e ∧ a ∈ f e := by
  simp only [gather, List.mem_flatMap]
  constructor
  · rintro ⟨e, held, mem⟩
    obtain ⟨i, found⟩ := List.mem_iff_getElem?.mp held
    exact ⟨⟨i⟩, e, by rw [entry?_eq]; exact found, mem⟩
  · rintro ⟨id, e, found, mem⟩
    rw [entry?_eq] at found
    exact ⟨e, List.mem_of_getElem? found, mem⟩

theorem strong_eq {id : ObjId} {e : Entry} (found : w.entry? id = some e) :
    w.strong id = e.strong := by
  simp [strong, found]

theorem strong_of_none {id : ObjId} (absent : w.entry? id = none) : w.strong id = 0 := by
  simp [strong, absent]

/-- An object with a positive count is an entry. -/
theorem exists_entry_of_strong {id : ObjId} (alive : w.strong id ≠ 0) :
    ∃ e, w.entry? id = some e ∧ e.strong ≠ 0 := by
  cases found : w.entry? id with
  | none => exact absurd (strong_of_none found) alive
  | some e => exact ⟨e, rfl, by rwa [strong_eq found] at alive⟩

theorem mem_owned {id : ObjId} :
    id ∈ w.owned ↔ ∃ x e, w.entry? x = some e ∧ e.strong ≠ 0 ∧ id ∈ e.object.refs := by
  simp only [owned, mem_gather, Entry.owned]
  constructor
  · rintro ⟨x, e, found, mem⟩
    split at mem
    · simp at mem
    · next alive => exact ⟨x, e, found, alive, mem⟩
  · rintro ⟨x, e, found, alive, mem⟩
    exact ⟨x, e, found, by rw [if_neg alive]; exact mem⟩

theorem mem_claimed {n : NativeId} :
    n ∈ w.claimed ↔ ∃ x e, w.entry? x = some e ∧ e.strong ≠ 0 ∧ e.object.claim? = some n := by
  simp only [claimed, mem_gather, Entry.claimed]
  constructor
  · rintro ⟨x, e, found, mem⟩
    split at mem
    · simp at mem
    · next alive => exact ⟨x, e, found, alive, by simpa using mem⟩
  · rintro ⟨x, e, found, alive, claim⟩
    exact ⟨x, e, found, by rw [if_neg alive]; simpa using claim⟩

theorem mem_queued {n : NativeId} :
    n ∈ w.queued ↔ ∃ s, n ∈ (w.pending s).inOrder := by
  simp only [queued, mem_gather, Entry.queued]
  constructor
  · rintro ⟨s, ⟨k, o⟩, found, mem⟩
    cases o with
    | store native config p => exact ⟨s, by simpa [pending, found, Object.queued] using mem⟩
    | _ => simp [Object.queued] at mem
  · rintro ⟨s, mem⟩
    unfold pending at mem
    split at mem
    · next k native config p found => exact ⟨s, _, found, mem⟩
    · simp [Pending.inOrder] at mem

/-! ## The native table after a change -/

theorem bodies_modifyNative (n : NativeId) {f : NativeEntry → NativeEntry}
    {g : Native × Nat → Native × Nat}
    (acts : ∀ e, ((f e).object, (f e).deletions) = g (e.object, e.deletions)) :
    (w.modifyNative n f).bodies = w.bodies.modify n.index g := by
  apply List.ext_getElem?
  intro i
  simp only [bodies, modifyNative, Array.toList_modify, List.getElem?_map, List.getElem?_modify]
  split
  · cases w.natives.toList[i]? with
    | none => rfl
    | some e => simp [acts]
  · cases w.natives.toList[i]? <;> rfl

theorem bodies_modifyNative_of_eq (w : World) (n : NativeId) {f : NativeEntry → NativeEntry}
    (keeps : ∀ e, (f e).object = e.object ∧ (f e).deletions = e.deletions) :
    (w.modifyNative n f).bodies = w.bodies := by
  rw [bodies_modifyNative n (g := id) (by simp [keeps])]
  exact List.modify_id n.index w.bodies

theorem bodies_allocNative (w : World) (o : Native) :
    (w.allocNative o).2.bodies = w.bodies ++ [(o, 0)] := by
  simp [bodies, allocNative]

theorem bodies_deleteNative (w : World) (n : NativeId) :
    (w.deleteNative n).bodies = w.bodies.modify n.index fun b => (b.1, b.2 + 1) :=
  bodies_modifyNative n fun _ => rfl

theorem bodies_length (w : World) : w.bodies.length = w.natives.size := by
  simp [bodies]

theorem size_allocNative (w : World) (o : Native) :
    (w.allocNative o).2.natives.size = w.natives.size + 1 := by
  simp [allocNative]

theorem nativeObject?_allocNative (w : World) (o : Native) (n : NativeId) :
    (w.allocNative o).2.nativeObject? n =
      if n = (w.allocNative o).1 then some o else w.nativeObject? n := by
  obtain ⟨i⟩ := n
  have fresh : (w.allocNative o).1 = ⟨w.bodies.length⟩ := by rw [bodies_length]; rfl
  simp only [nativeObject?, bodies_allocNative, fresh, NativeId.mk.injEq]
  by_cases same : i = w.bodies.length
  · subst same
    simp
  · rw [if_neg same, List.getElem?_append]
    split
    · rfl
    · next beyond =>
        rw [List.getElem?_eq_none (by simp; omega), List.getElem?_eq_none (by omega)]

theorem deletions_allocNative (w : World) (o : Native) (n : NativeId) :
    (w.allocNative o).2.deletions n = w.deletions n := by
  simp only [deletions, bodies_allocNative, List.getElem?_append, List.getElem?_singleton]
  split
  · rfl
  · next beyond =>
      rw [List.getElem?_eq_none (by omega)]
      split <;> rfl

/-- The live native object at an address is the one that has no deletion. -/
theorem native?_eq (w : World) (n : NativeId) :
    w.native? n = if w.deletions n = 0 then w.nativeObject? n else none := by
  unfold native? nativeObject? deletions bodies
  cases found : w.natives[n.index]? with
  | none => simp [found]
  | some e =>
      by_cases deleted : e.deletions = 0 <;>
        simp [found, NativeEntry.isLive, deleted]

theorem native?_guard (w : World) (op : GuardedOp) : (w.guard op).native? = w.native? := by
  unfold guard
  split <;> rfl

theorem nativeObject?_of_native? {n : NativeId} {o : Native} (live : w.native? n = some o) :
    w.nativeObject? n = some o := by
  rw [native?_eq] at live
  split at live
  · exact live
  · cases live

theorem nativeObject?_isSome {n : NativeId} :
    (w.nativeObject? n).isSome = true ↔ n.index < w.natives.size := by
  simp [nativeObject?, bodies]

theorem nativeObject?_deleteNative (w : World) (n x : NativeId) :
    (w.deleteNative n).nativeObject? x = w.nativeObject? x := by
  simp only [nativeObject?, bodies_deleteNative, List.getElem?_modify]
  split <;> cases w.bodies[x.index]? <;> rfl

theorem deletions_deleteNative {n : NativeId} (known : n.index < w.natives.size) (x : NativeId) :
    (w.deleteNative n).deletions x = w.deletions x + if x = n then 1 else 0 := by
  obtain ⟨i⟩ := n
  obtain ⟨j⟩ := x
  simp only [deletions, bodies_deleteNative, List.getElem?_modify, NativeId.mk.injEq]
  by_cases same : j = i
  · subst same
    have present : j < w.bodies.length := by rw [bodies_length]; exact known
    simp [List.getElem?_eq_getElem present]
  · simp [same, Ne.symm same]

theorem finalizations_modifyNative (w : World) (n : NativeId) {f : NativeEntry → NativeEntry} {k : Nat}
    (acts : ∀ e, (f e).finalized = e.finalized + k) (known : n.index < w.natives.size) (x : NativeId) :
    (w.modifyNative n f).finalizations x = w.finalizations x + if x = n then k else 0 := by
  obtain ⟨i⟩ := n
  obtain ⟨j⟩ := x
  simp only [finalizations, modifyNative, Array.getElem?_modify, NativeId.mk.injEq]
  by_cases same : j = i
  · subst same
    have known : j < w.natives.size := known
    simp [known, acts]
  · simp [same, Ne.symm same]

theorem finalizations_modifyNative_of_eq (w : World) (n : NativeId) {f : NativeEntry → NativeEntry}
    (keeps : ∀ e, (f e).finalized = e.finalized) :
    (w.modifyNative n f).finalizations = w.finalizations := by
  funext x
  simp only [finalizations, modifyNative, Array.getElem?_modify]
  split
  · cases w.natives[x.index]? <;> simp [keeps]
  · rfl

theorem finalizations_allocNative (w : World) (o : Native) (n : NativeId) :
    (w.allocNative o).2.finalizations n = w.finalizations n := by
  simp only [finalizations, allocNative, Array.getElem?_push]
  split
  · next same => simp [same]
  · rfl

theorem lent_deleteNative {n : NativeId} {o : Native} (found : w.nativeObject? n = some o)
    (live : w.deletions n = 0) (id : ObjId) :
    (w.deleteNative n).lent.count id + o.env?.toList.count id = w.lent.count id := by
  unfold nativeObject? at found
  unfold deletions at live
  cases body : w.bodies[n.index]? with
  | none => simp [body] at found
  | some b =>
      obtain ⟨o', k⟩ := b
      simp only [body, Option.map_some, Option.some.injEq, Option.getD_some] at found live
      subst found
      subst live
      have changed := count_flatMap_modify Native.lent (fun b => (b.1, b.2 + 1)) body id
      simpa [lent, bodies_deleteNative, Native.lent] using changed

end World

end HostEmbedding
