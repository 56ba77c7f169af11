import HostEmbedding.Proofs.Ownership.Shapes

/-!
# The account

Two conservation laws hold of a world. The count of every object is the number of references to it:
those held outside the heap, those that live objects own, those that live native functions were lent
and those that finalizers handed back. Every native object is in exactly one place: claimed by a live
object, queued, on its way between the two, or deleted once. Each operation keeps both laws because
what one side loses the other gains.
-/

namespace HostEmbedding.World

/-- The part of the account that holds in the middle of an operation; `held` are the references from
outside the heap and `moving` the natives on their way. -/
structure Balanced (w : World) (held : List ObjId) (moving : List NativeId) : Prop where
  objects : ∀ {id e}, w.entry? id = some e → e.object.Fits w.shapes id
  claimsUnique : ∀ {i j o p n}, w.shapes.object? i = some o → w.shapes.object? j = some p →
    o.claim? = some n → p.claim? = some n → i = j
  envsUnique : ∀ {i j h k e}, w.shapes.IsHandle i h → w.shapes.IsHandle j k →
    h.state.env? = some e → k.state.env? = some e → i = j
  counted : ∀ id, w.strong id =
    held.count id + w.owned.count id + w.lent.count id + w.thread.retired.count id
  placed : ∀ n, w.claimed.count n + w.queued.count n + moving.count n + w.deletions n =
    if n.index < w.natives.size then 1 else 0
  finalizing : w.thread.finalizing = 0
  aborted : w.aborted = none

/-- The whole account: every native object has an object that claims it or did, and a closure stays
attached exactly as long as the owning handle of its function lives. -/
structure Accounted (w : World) (held : List ObjId) (moving : List NativeId) : Prop
    extends Balanced w held moving where
  claimsTotal : ∀ {n o}, w.shapes.native? n = some o →
    ∃ i p, w.shapes.object? i = some p ∧ p.claim? = some n
  attached : ∀ {i h e}, w.shapes.IsHandle i h → h.state.env? = some e →
    (w.strong i = 0 ↔ w.attached? e = none)
  attachedOwned : ∀ {e c}, w.attached? e = some c →
    ∃ i h, w.shapes.IsHandle i h ∧ h.state.env? = some e

/-- Two worlds that differ at most in what is shown, not in what is kept. -/
structure Same (w v : World) : Prop where
  heap : v.heap = w.heap
  bodies : v.bodies = w.bodies
  thread : v.thread = w.thread
  aborted : v.aborted = w.aborted
  drops : v.drops = w.drops
  finalizations : v.finalizations = w.finalizations

variable {w v : World} {held held' : List ObjId} {moving moving' : List NativeId}

/-! ## Worlds that are the same -/

namespace Same

theorem refl (w : World) : Same w w := ⟨rfl, rfl, rfl, rfl, rfl, rfl⟩

theorem trans {u : World} (first : Same w v) (second : Same v u) : Same w u :=
  ⟨second.heap.trans first.heap, second.bodies.trans first.bodies,
    second.thread.trans first.thread, second.aborted.trans first.aborted,
    second.drops.trans first.drops, second.finalizations.trans first.finalizations⟩

variable (same : Same w v)
include same

theorem entries : v.entry? = w.entry? := entry?_of_heap same.heap

theorem strong : v.strong = w.strong := strong_of_heap same.heap

theorem pending : v.pending = w.pending := pending_of_heap same.heap

theorem attached? : v.attached? = w.attached? := attached?_of_heap same.heap

theorem gather {α : Type} (f : Entry → List α) : v.gather f = w.gather f :=
  gather_of_heap same.heap f

theorem lent : v.lent = w.lent := by
  simp [World.lent, same.bodies]

theorem nativeObject? : v.nativeObject? = w.nativeObject? := by
  funext n
  simp [World.nativeObject?, same.bodies]

theorem deletions : v.deletions = w.deletions := by
  funext n
  simp [World.deletions, same.bodies]

theorem size : v.natives.size = w.natives.size := by
  rw [← bodies_length, same.bodies, bodies_length]

theorem shapes : v.shapes = w.shapes := by
  simp [World.shapes, same.entries, same.nativeObject?]

end Same

theorem Balanced.same (bal : w.Balanced held moving) (same : Same w v) :
    v.Balanced held moving where
  objects := by rw [same.entries, same.shapes]; exact bal.objects
  claimsUnique := by rw [same.shapes]; exact bal.claimsUnique
  envsUnique := by rw [same.shapes]; exact bal.envsUnique
  counted := by
    simp only [owned, same.strong, same.gather, same.lent, same.thread]
    exact bal.counted
  placed := by
    simp only [claimed, queued, same.gather, same.deletions, same.size]
    exact bal.placed
  finalizing := by rw [same.thread]; exact bal.finalizing
  aborted := same.aborted.trans bal.aborted

theorem Finalized.same (finalized : w.Finalized) (same : Same w v) : v.Finalized := by
  intro n f found
  rw [same.nativeObject?] at found
  rw [same.finalizations, same.deletions]
  exact finalized n f found

theorem Accounted.same (acc : w.Accounted held moving) (same : Same w v) :
    v.Accounted held moving where
  toBalanced := acc.toBalanced.same same
  claimsTotal := by rw [same.shapes]; exact acc.claimsTotal
  attached := by rw [same.shapes, same.strong, same.attached?]; exact acc.attached
  attachedOwned := by rw [same.shapes, same.attached?]; exact acc.attachedOwned

theorem same_emit (w : World) {e : Event} (silent : e.drop? = none) : Same w (w.emit e) :=
  ⟨rfl, rfl, rfl, rfl, by simp [World.drops, emit, silent], rfl⟩

theorem same_log (w : World) (r : LogRecord) : Same w (w.log r) := by
  unfold log
  split
  · split
    · exact same_emit w rfl
    · exact .refl w
  · exact .refl w

theorem same_tag (w : World) (n : NativeId) : Same w (w.tag n).2 := by
  unfold tag
  split
  · exact .refl w
  · exact ⟨rfl, bodies_modifyNative_of_eq w n fun _ => ⟨rfl, rfl⟩, rfl, rfl, rfl,
      finalizations_modifyNative_of_eq w n fun _ => rfl⟩

theorem same_logAbout (w : World) (n : NativeId) (r : Nat → LogRecord) :
    Same w (w.logAbout n r) :=
  (same_tag w n).trans (same_log _ _)

/-- Showing an item at most numbers a native object. -/
theorem same_debug? {i : Item} {text : String} (found : w.debug? i = some (text, v)) : Same w v := by
  have handle (h : Handle) : Same w (w.debugHandle h).2 := same_tag _ _
  cases i <;> simp only [debug?, debugFunc, Option.map_eq_some_iff, Option.bind_eq_some_iff,
    Option.some.injEq, reduceCtorEq] at found
  case engine => cases found; exact .refl _
  case value => cases found; exact .refl _
  case store => obtain ⟨n, -, same⟩ := found; cases same; exact same_tag _ _
  case func => obtain ⟨h, -, same⟩ := found; cases same; exact handle h
  case interrupt => obtain ⟨h, -, same⟩ := found; cases same; exact handle h
  case typedFunc => obtain ⟨h, -, same⟩ := found; cases same; exact handle h
  case memory => obtain ⟨h, -, mem, -, same⟩ := found; cases same; exact handle h
  case view => obtain ⟨h, -, kind, -, same⟩ := found; cases same; exact handle h

theorem guard_eq (quiet : w.thread.finalizing = 0) (op : GuardedOp) : w.guard op = w := by
  simp [guard, quiet]

/-- The order in which outside references are listed does not matter. -/
theorem Balanced.regroup (bal : w.Balanced held moving)
    (same : ∀ id, held'.count id = held.count id) : w.Balanced held' moving :=
  { bal with counted := fun id => by rw [same id]; exact bal.counted id }

/-! ## One entry changes -/

theorem strong_modifyEntry {id : ObjId} {e : Entry} {g : Entry → Entry}
    (found : w.entry? id = some e) (x : ObjId) :
    (w.modifyEntry id g).strong x = if x = id then (g e).strong else w.strong x := by
  unfold strong
  rw [entry?_modifyEntry]
  by_cases same : x = id
  · subst same
    simp [found]
  · simp [same]

/-- Changing one entry within its shape keeps the balance when what the entry gives up, its count
included, is what the outside takes over. -/
theorem Balanced.modifyEntry (bal : w.Balanced held moving) {id : ObjId} {e : Entry}
    {g : Entry → Entry} (found : w.entry? id = some e)
    (shape : (g e).object.shape = e.object.shape) (fits : (g e).object.Fits w.shapes id)
    (counts : ∀ x, (if x = id then (g e).strong else 0) + held.count x + e.owned.count x =
      (if x = id then e.strong else 0) + held'.count x + (g e).owned.count x)
    (places : ∀ n, moving'.count n + (g e).claimed.count n + (g e).queued.count n =
      moving.count n + e.claimed.count n + e.queued.count n) :
    (w.modifyEntry id g).Balanced held' moving' := by
  have shapes : (w.modifyEntry id g).shapes = w.shapes :=
    shapes_modifyEntry fun e' found' => by
      rw [found] at found'
      cases found'
      exact shape
  refine ⟨?_, ?_, ?_, ?_, ?_, bal.finalizing, bal.aborted⟩
  · intro x e' found'
    rw [shapes]
    rw [entry?_modifyEntry] at found'
    split at found'
    · next same =>
        subst same
        rw [found] at found'
        cases found'
        exact fits
    · exact bal.objects found'
  · rw [shapes]; exact bal.claimsUnique
  · rw [shapes]; exact bal.envsUnique
  · intro x
    have before := bal.counted x
    have change := counts x
    have gathered := gather_modifyEntry Entry.owned g found x
    have count := strong_modifyEntry (g := g) found x
    have lent : (w.modifyEntry id g).lent = w.lent := rfl
    have thread : (w.modifyEntry id g).thread = w.thread := rfl
    rw [lent, thread, count]
    unfold owned at before ⊢
    split
    · next same =>
        subst same
        rw [if_pos rfl, if_pos rfl] at change
        rw [strong_eq found] at before
        omega
    · next other =>
        rw [if_neg other, if_neg other] at change
        omega
  · intro n
    have before := bal.placed n
    have change := places n
    have claims := gather_modifyEntry Entry.claimed g found n
    have queues := gather_modifyEntry Entry.queued g found n
    have deletions : (w.modifyEntry id g).deletions n = w.deletions n := rfl
    have size : (w.modifyEntry id g).natives.size = w.natives.size := rfl
    rw [deletions, size]
    unfold claimed queued at before ⊢
    omega

theorem strong_alloc (w : World) (o : Object) (strong : Nat) (x : ObjId) :
    (w.alloc o strong).2.strong x =
      if x = (w.alloc o strong).1 then strong else w.strong x := by
  unfold World.strong
  rw [entry?_alloc]
  by_cases same : x = (w.alloc o strong).1
  · rw [if_pos same, if_pos same]
  · rw [if_neg same, if_neg same]

/-! ## Something new -/

/-- No object claims or claimed a native object. -/
def Unclaimed (w : World) (n : NativeId) : Prop :=
  ∀ i o, w.shapes.object? i = some o → o.claim? ≠ some n

/-- No handle holds or held an environment. -/
def Unshared (w : World) (env : ObjId) : Prop :=
  ∀ i h, w.shapes.IsHandle i h → h.state.env? ≠ some env

/-- Adding an object keeps the balance when the outside gives up what the object owns and claims, and
takes over its count. -/
theorem Balanced.alloc (bal : w.Balanced held moving) {o : Object} {strong : Nat}
    (alive : strong ≠ 0)
    (fits : o.Fits (w.alloc o strong).2.shapes (w.alloc o strong).1)
    (unclaimed : ∀ n, o.claim? = some n → w.Unclaimed n)
    (unshared : ∀ h e, o = .handle h → h.state.env? = some e → w.Unshared e)
    (counts : ∀ x, held'.count x + o.refs.count x =
      held.count x + if x = (w.alloc o strong).1 then strong else 0)
    (places : ∀ n, moving'.count n + o.claim?.toList.count n + o.queued.count n =
      moving.count n) :
    (w.alloc o strong).2.Balanced held' moving' := by
  have grows := shapes_alloc w o strong
  refine ⟨?_, ?_, ?_, ?_, ?_, bal.finalizing, bal.aborted⟩
  · intro x e found
    rw [entry?_alloc] at found
    split at found
    · next same =>
        subst same
        cases found
        exact fits
    · exact (bal.objects found).mono grows
  · intro i j p q n first second claim claim'
    rcases shapes_alloc_cases first with ⟨rfl, rfl⟩ | first
    · rcases shapes_alloc_cases second with ⟨rfl, rfl⟩ | second
      · rfl
      · exact absurd claim' (unclaimed n (by simpa using claim) j q second)
    · rcases shapes_alloc_cases second with ⟨rfl, rfl⟩ | second
      · exact absurd claim (unclaimed n (by simpa using claim') i p first)
      · exact bal.claimsUnique first second claim claim'
  · intro i j h k e first second env env'
    rcases shapes_alloc_cases first with ⟨rfl, shape⟩ | first
    · rcases shapes_alloc_cases second with ⟨rfl, shape'⟩ | second
      · rfl
      · have same : o = .handle h := Object.shape_eq_handle.mp shape.symm
        exact absurd env' (unshared h e same env j k second)
    · rcases shapes_alloc_cases second with ⟨rfl, shape'⟩ | second
      · have same : o = .handle k := Object.shape_eq_handle.mp shape'.symm
        exact absurd env (unshared k e same env' i h first)
      · exact bal.envsUnique first second env env'
  · intro x
    have before := bal.counted x
    have change := counts x
    have gathered : (w.alloc o strong).2.owned = w.owned ++ o.refs := by
      unfold owned
      rw [gather_alloc, Entry.owned, if_neg alive]
    have lent : (w.alloc o strong).2.lent = w.lent := rfl
    have thread : (w.alloc o strong).2.thread = w.thread := rfl
    rw [gathered, lent, thread, List.count_append]
    split at change
    · next same =>
        subst same
        have absent : w.strong (w.alloc o strong).1 = 0 := strong_of_none (entry?_alloc_self w o strong)
        rw [absent] at before
        rw [strong_eq (entry?_alloc w o strong _ ▸ if_pos rfl)]
        dsimp only
        omega
    · next other =>
        have kept : (w.alloc o strong).2.strong x = w.strong x := by
          unfold World.strong
          rw [entry?_alloc, if_neg other]
        rw [kept]
        omega
  · intro n
    have before := bal.placed n
    have change := places n
    have claims : (w.alloc o strong).2.claimed = w.claimed ++ o.claim?.toList := by
      unfold claimed
      rw [gather_alloc, Entry.claimed, if_neg alive]
    have queues : (w.alloc o strong).2.queued = w.queued ++ o.queued := by
      unfold queued
      rw [gather_alloc, Entry.queued]
    have deletions : (w.alloc o strong).2.deletions n = w.deletions n := rfl
    have size : (w.alloc o strong).2.natives.size = w.natives.size := rfl
    rw [claims, queues, deletions, size, List.count_append, List.count_append]
    omega

/-- A claimed native object is in the table. -/
theorem Balanced.claim_known (bal : w.Balanced held moving) {i : ObjId} {o : Object} {n : NativeId}
    (found : w.shapes.object? i = some o) (claim : o.claim? = some n) : n.index < w.natives.size := by
  obtain ⟨⟨k, p⟩, entry, rfl⟩ := shapes_object?.mp found
  rw [Object.claim?_shape] at claim
  have fits := bal.objects entry
  have known {x : Native} (h : w.shapes.native? n = some x) : n.index < w.natives.size := by
    rw [← nativeObject?_isSome]
    cases some : w.nativeObject? n with
    | none => simp [shapes, some] at h
    | some _ => rfl
  cases p with
  | store native config p =>
      cases claim
      exact known fits.1
  | handle h =>
      obtain ⟨s, -, state⟩ := Handle.Fits.state fits
      simp only [Object.claim?] at claim
      split at claim
      · next owning =>
          cases claim
          cases kind : h.state with
          | memory lock =>
              rw [kind] at state
              obtain ⟨limits, cap, native⟩ := state
              exact known native
          | func env =>
              rw [kind] at state
              obtain ⟨e, type, native, -⟩ := state
              exact known native
          | view =>
              rw [kind] at state
              exact absurd owning (by rw [state]; decide)
          | interrupt =>
              rw [kind] at state
              exact known state
      · cases claim
  | _ => cases claim

/-- The environment of a handle: only the owning handle of a function has one. -/
theorem Balanced.env_known (bal : w.Balanced held moving) {id e : ObjId} {h : Handle}
    (known : w.shapes.IsHandle id h) (env : h.state.env? = some e) :
    h.owner = none ∧ ∃ s type, w.shapes.IsStore h.store s ∧ w.shapes.IsEnv e type h.store ∧
      w.shapes.native? h.native = some (.func ⟨s, type.toNative, .host e⟩) := by
  obtain ⟨k, found⟩ := isHandle_iff.mp known
  have handle : h.Fits w.shapes := bal.objects found
  obtain ⟨s, isStore, fits⟩ := handle.state
  cases state : h.state with
  | func held =>
      rw [state] at fits env
      obtain ⟨e', type, native, isEnv, same⟩ := fits
      cases owner : h.owner with
      | none =>
          have owning : h.isOwning = true := by simp [Handle.isOwning, owner]
          rw [owning, if_pos rfl] at same
          rw [same] at env
          cases env
          exact ⟨rfl, s, type, isStore, isEnv, native⟩
      | some o =>
          have view : h.isOwning = false := by simp [Handle.isOwning, owner]
          rw [view] at same
          cases same
          cases env
  | _ => simp [state, HandleState.env?] at env

/-- A closure is attached to its own environment and to no other. -/
theorem Balanced.env_of_attached (bal : w.Balanced held moving) {e c : ObjId}
    (attached : w.attached? e = some c) : e = c.env := by
  obtain ⟨k, t, s, found⟩ := attached?_eq_some.mp attached
  obtain ⟨-, own, code, captures, same, -, -, only⟩ : Object.Fits w.shapes e (.env (some c) t s) :=
    bal.objects found
  rw [same, only c rfl]

/-- A fresh native object is claimed by nothing. -/
theorem Balanced.unclaimed_allocNative (bal : w.Balanced held moving) (o : Native) :
    (w.allocNative o).2.Unclaimed (w.allocNative o).1 := by
  intro i p found claim
  have known := bal.claim_known (i := i) (o := p) found claim
  simp [World.allocNative] at known

/-- Adding a native object keeps the balance when the outside gives up the environment it is lent;
the object is on its way to whoever claims it. -/
theorem Balanced.allocNative (bal : w.Balanced held moving) {o : Native}
    (counts : ∀ x, held'.count x + o.env?.toList.count x = held.count x) :
    (w.allocNative o).2.Balanced held' ((w.allocNative o).1 :: moving) := by
  have grows := shapes_allocNative w o
  have lent : (w.allocNative o).2.lent = w.lent ++ o.env?.toList := by
    simp [World.lent, bodies_allocNative, Native.lent]
  refine ⟨?_, bal.claimsUnique, bal.envsUnique, ?_, ?_, bal.finalizing, bal.aborted⟩
  · intro x e found
    exact Object.Fits.mono grows (bal.objects found)
  · intro x
    have before := bal.counted x
    have change := counts x
    have count : (w.allocNative o).2.strong x = w.strong x := rfl
    have owned : (w.allocNative o).2.owned = w.owned := rfl
    have thread : (w.allocNative o).2.thread = w.thread := rfl
    rw [count, owned, thread, lent, List.count_append]
    omega
  · intro n
    have before := bal.placed n
    have claims : (w.allocNative o).2.claimed = w.claimed := rfl
    have queues : (w.allocNative o).2.queued = w.queued := rfl
    have fresh : (w.allocNative o).1 = ⟨w.natives.size⟩ := rfl
    rw [claims, queues, deletions_allocNative, size_allocNative, fresh, List.count_cons]
    by_cases same : n = ⟨w.natives.size⟩
    · subst same
      simp only [lt_irrefl, if_false] at before
      simp
      omega
    · have other : n.index ≠ w.natives.size := fun eq => same (congrArg NativeId.mk eq)
      have apart : ((⟨w.natives.size⟩ : NativeId) == n) = false := by
        simpa using Ne.symm same
      simp only [apart, Bool.false_eq_true, if_false, Nat.add_zero]
      split at before <;> split <;> omega

end HostEmbedding.World
