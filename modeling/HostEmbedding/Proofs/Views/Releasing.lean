import HostEmbedding.Proofs.Alike.Release
import HostEmbedding.Proofs.Views.Beside

/-!
# Releasing beside a call

Dropping the same references does the same in the two worlds, because whatever they count differently is
never the last reference: the view is kept by the one call, its owner by the other one and by the view, and
the store by both. The only drop that differs is the last one of the view itself. It leaves the first world
as it was, and in the second world it drops one reference to the store and one to the owner.
-/

namespace HostEmbedding

variable {p : View}

/-- The owner is not the view. -/
theorem View.Of.owner_ne {Γ : Shapes} (of : p.Of Γ) : p.owner ≠ p.handle := by
  obtain ⟨h, k, known, owner, -, -, known', owning, -⟩ := of
  intro same
  rw [same] at known'
  cases Object.handle.inj (Option.some.inj (known.symm.trans known'))
  rw [owner] at owning
  cases owning

namespace World

variable {gone : Bool} {w v : World} {held held' others others' : List ObjId} {moving moving' : List NativeId}
  {id : ObjId} {t : Task} {tasks rest : List Task}

/-! ## How often something is counted -/

theorem Balanced.count_le (bal : w.Balanced held moving) (id : ObjId) : held.count id ≤ w.strong id := by
  rw [bal.counted]
  omega

/-- What a live object refers to is counted beside what is held. -/
theorem Balanced.count_lt (bal : w.Balanced held moving) {x : ObjId} {o : Object} {k : Nat}
    (found : w.entry? x = some ⟨k, o⟩) (alive : k ≠ 0) (owned : id ∈ o.refs) :
    held.count id < w.strong id := by
  have mem : id ∈ w.owned := mem_owned.mpr ⟨x, ⟨k, o⟩, found, alive, owned⟩
  have positive := List.count_pos_iff.mpr mem
  rw [bal.counted]
  omega

/-- The store of a view is neither the view nor its owner. -/
theorem Balanced.store_ne (bal : w.Balanced held moving) (of : p.Of w.shapes) :
    p.store ≠ p.handle ∧ p.store ≠ p.owner := by
  obtain ⟨h, k, known, -, store, -, known', -, store'⟩ := of
  have apart {x : ObjId} {h : Handle} (known : w.shapes.IsHandle x h) (store : h.store = p.store) :
      p.store ≠ x := by
    obtain ⟨j, entry⟩ := isHandle_iff.mp known
    have fits : h.Fits w.shapes := bal.objects entry
    obtain ⟨s, ⟨config, isStore⟩, -⟩ := fits.state
    rintro rfl
    rw [store] at isStore
    cases known.symm.trans isStore
  exact ⟨apart known store, apart known' store'⟩

/-- A live view keeps its owner. -/
theorem Balanced.owner_shared (bal : w.Balanced held moving) (of : p.Of w.shapes)
    (alive : w.strong p.handle ≠ 0) : held.count p.owner < w.strong p.owner := by
  obtain ⟨h, -, known, owner, -⟩ := of
  obtain ⟨k, entry⟩ := isHandle_iff.mp known
  rw [strong_eq entry] at alive
  exact bal.count_lt entry alive (by simp [Object.refs, Handle.refs, owner])

/-- A live owner keeps its store. -/
theorem Balanced.store_shared (bal : w.Balanced held moving) (of : p.Of w.shapes)
    (alive : w.strong p.owner ≠ 0) : held.count p.store < w.strong p.store := by
  obtain ⟨-, k, -, -, -, -, known, -, store⟩ := of
  obtain ⟨j, entry⟩ := isHandle_iff.mp known
  rw [strong_eq entry] at alive
  exact bal.count_lt entry alive (by simp [Object.refs, Handle.refs, store])

namespace Beside

theorem of' (beside : w.Beside p gone v) : p.Of v.shapes := by
  rw [beside.shapes]
  exact beside.shape

/-! ## One drop -/

/-- Changing one count by as much in both worlds. -/
theorem recount (beside : w.Beside p gone v) {k j k' j' : Nat} {o : Object}
    (here : w.entry? id = some ⟨k, o⟩) (there : v.entry? id = some ⟨j, o⟩) (moved : j' + k = k' + j)
    (ends : j' = 0 ↔ k' = 0) (view : id = p.handle → j ≠ 0 ∧ k' ≠ 0) :
    (w.modifyEntry id fun e => { e with strong := k' }).Beside p gone
      (v.modifyEntry id fun e => { e with strong := j' }) := by
  have strong (x : ObjId) := strong_modifyEntry (g := fun e => { e with strong := k' }) here x
  have strong' (x : ObjId) := strong_modifyEntry (g := fun e => { e with strong := j' }) there x
  have shapes : (w.modifyEntry id fun e => { e with strong := k' }).shapes = w.shapes :=
    shapes_modifyEntry fun _ _ => rfl
  constructor
  case rest =>
      rw [beside.rest]
      rfl
  case size =>
      simp [World.modifyEntry, beside.size]
  case object =>
      intro x
      rw [entry?_modifyEntry, entry?_modifyEntry]
      split
      · rw [Option.map_map, Option.map_map]
        exact beside.object x
      · exact beside.object x
  case count =>
      intro x
      have count := beside.count x
      rw [strong, strong']
      split
      · next same =>
          rw [same, strong_eq here, strong_eq there] at count
          rw [same]
          dsimp only at count ⊢
          omega
      · exact count
  case kept =>
      rw [strong]
      split
      · next same => exact (view same.symm).2
      · exact beside.kept
  case view =>
      rw [strong', ← beside.view]
      split
      · next same =>
          obtain ⟨before, after⟩ := view same.symm
          rw [same, strong_eq there]
          dsimp only
          omega
      · exact Iff.rfl
  case alive =>
      intro x apart
      rw [strong, strong']
      split
      · exact ends
      · exact beside.alive x apart
  case shape =>
      rw [shapes]
      exact beside.shape

/-- What remains to be done for a dropped object is the same in both worlds. -/
theorem dispose (beside : w.Beside p gone v) (id : ObjId) (o : Object) :
    (v.dispose id o).1 = (w.dispose id o).1 ∧ (w.dispose id o).2.Beside p gone (v.dispose id o).2 := by
  have detached (e : ObjId) :
      (v.detach e).1 = (w.detach e).1 ∧ (w.detach e).2.Beside p gone (v.detach e).2 := by
    unfold World.detach
    rcases beside.cases e with ⟨here, there⟩ | ⟨k, j, o, here, there⟩
    · rw [here, there]
      exact ⟨rfl, beside⟩
    · rw [here, there]
      cases o with
      | env closure type store =>
          cases closure with
          | none => exact ⟨rfl, beside⟩
          | some c =>
              refine ⟨rfl, beside.modifyEntry e (fun _ _ _ => rfl) (fun _ => rfl) fun e' known => ?_⟩
              cases here.symm.trans known
              rfl
      | _ => exact ⟨rfl, beside⟩
  cases o with
  | closure code captures => exact ⟨rfl, beside.blind (F := (·.emit (.closureDropped code.label))) fun _ _ => rfl⟩
  | referent label payload => exact ⟨rfl, beside.blind (F := (·.emit (.dropped label))) fun _ _ => rfl⟩
  | handle h =>
      unfold World.dispose
      dsimp only
      split
      · split
        · next e _ =>
            obtain ⟨tasks, beside⟩ := detached e
            rw [tasks]
            exact ⟨rfl, beside⟩
        · exact ⟨rfl, beside⟩
      · exact ⟨rfl, beside⟩
  | store | env | cell => exact ⟨rfl, beside⟩

/-- Dropping one of several references in both worlds. -/
theorem drop_shared (beside : w.Beside p gone v) (here : 2 ≤ w.strong id) (there : 2 ≤ v.strong id) :
    (v.perform (.ref id)).1 = (w.perform (.ref id)).1 ∧
      (w.perform (.ref id)).2.Beside p gone (v.perform (.ref id)).2 := by
  rcases beside.cases id with ⟨absent, -⟩ | ⟨k, j, o, found, found'⟩
  · rw [strong_of_none absent] at here
    cases here
  · rw [strong_eq found] at here
    rw [strong_eq found'] at there
    obtain ⟨a, rfl⟩ := Nat.exists_eq_add_of_le' here
    obtain ⟨b, rfl⟩ := Nat.exists_eq_add_of_le' there
    rw [perform_of_shared found, perform_of_shared found']
    exact ⟨rfl, beside.recount found found' (by omega) (by omega) fun _ => ⟨by omega, by omega⟩⟩

/-- Dropping a reference to what is counted as often in both worlds. -/
theorem drop_even (beside : w.Beside p gone v) (even : v.strong id = w.strong id) (other : id ≠ p.handle) :
    (v.perform (.ref id)).1 = (w.perform (.ref id)).1 ∧
      (w.perform (.ref id)).2.Beside p gone (v.perform (.ref id)).2 := by
  rcases beside.cases id with ⟨absent, absent'⟩ | ⟨k, j, o, found, found'⟩
  · unfold World.perform
    dsimp only
    rw [absent, absent']
    exact ⟨rfl, beside⟩
  · rw [strong_eq found, strong_eq found'] at even
    dsimp only at even
    subst even
    match j, found, found' with
    | 0, found, found' =>
        unfold World.perform
        dsimp only
        rw [found, found']
        exact ⟨rfl, beside⟩
    | 1, found, found' =>
        have dead := beside.recount found found' (show 0 + 1 = 0 + 1 from rfl) Iff.rfl fun same => absurd same other
        unfold World.perform
        dsimp only
        rw [found, found']
        exact dead.dispose id o
    | j + 2, found, found' =>
        exact beside.drop_shared (by rw [strong_eq found]; exact Nat.le_add_left 2 j)
          (by rw [strong_eq found']; exact Nat.le_add_left 2 j)

/-- Dropping a reference that is not the last one of the view. -/
theorem drop (beside : w.Beside p gone v) (bal : w.Balanced (id :: others) moving)
    (bal' : v.Balanced (id :: others') moving') (keeps : p.handle ∈ others) (keeps' : p.owner ∈ others')
    (more : id = p.handle → v.strong id ≠ 1) :
    (v.perform (.ref id)).1 = (w.perform (.ref id)).1 ∧
      (w.perform (.ref id)).2.Beside p gone (v.perform (.ref id)).2 := by
  have counted {u : World} {ids : List ObjId} {natives : List NativeId}
      (bal : u.Balanced (id :: ids) natives) (mem : id ∈ ids) : 2 ≤ u.strong id := by
    have le := bal.count_le id
    have positive := List.count_pos_iff.mpr mem
    rw [List.count_cons_self] at le
    omega
  have alive' : v.strong p.owner ≠ 0 := bal'.alive (List.mem_cons_of_mem id keeps')
  by_cases view : id = p.handle
  · have le := bal'.count_le id
    rw [List.count_cons_self] at le
    have := more view
    exact beside.drop_shared (counted bal (view ▸ keeps)) (by omega)
  by_cases owner : id = p.owner
  · have lt := bal.owner_shared beside.shape beside.kept
    rw [← owner, List.count_cons_self] at lt
    exact beside.drop_shared (by omega) (counted bal' (owner ▸ keeps'))
  by_cases store : id = p.store
  · have alive : w.strong p.owner ≠ 0 := by
      have lt := bal.owner_shared beside.shape beside.kept
      omega
    have lt := bal.store_shared beside.shape alive
    have lt' := bal'.store_shared beside.of' alive'
    rw [← store, List.count_cons_self] at lt lt'
    exact beside.drop_shared (by omega) (by omega)
  · have count := beside.count id
    have spared : (p.spared gone).count id = 0 := by
      unfold View.spared
      split <;> simp [Ne.symm view, Ne.symm store]
    have added : (p.added gone).count id = 0 := by
      unfold View.added
      split <;> simp [Ne.symm owner]
    exact beside.drop_even (by omega) view

end Beside

/-! ## The last drop of the view -/

/-- The same world, but some references are not counted any more. -/
structure Lowered (w : World) (ids : List ObjId) (u : World) : Prop where
  rest : u = w.withHeap u.heap
  size : u.heap.size = w.heap.size
  object : ∀ x, Option.map Entry.object ( u.entry? x) = Option.map Entry.object ( w.entry? x)
  count : ∀ x, u.strong x + ids.count x = w.strong x

namespace Lowered

variable {ids more : List ObjId} {u : World}

theorem trans (first : w.Lowered ids u) (second : u.Lowered more v) : w.Lowered (ids ++ more) v where
  rest := by
    rw [second.rest, first.rest]
    rfl
  size := second.size.trans first.size
  object x := (second.object x).trans (first.object x)
  count x := by
    have one := first.count x
    have two := second.count x
    rw [List.count_append]
    omega

theorem shapes (lowered : w.Lowered ids u) : u.shapes = w.shapes := by
  have objects : u.shapes.object? = w.shapes.object? := by
    funext x
    have object := congrArg (Option.map Object.shape) (lowered.object x)
    rw [Option.map_map, Option.map_map] at object
    exact object
  have natives : u.shapes.native? = w.shapes.native? := by rw [lowered.rest]; rfl
  exact congrArg₂ Shapes.mk objects natives

end Lowered

theorem lowered_modifyEntry {k : Nat} {o : Object} (found : w.entry? id = some ⟨k + 1, o⟩) :
    w.Lowered [id] (w.modifyEntry id fun e => { e with strong := k }) where
  rest := rfl
  size := by simp [World.modifyEntry]
  object x := by
    rw [entry?_modifyEntry]
    split
    · rw [Option.map_map]
      rfl
    · rfl
  count x := by
    rw [strong_modifyEntry found, List.count_singleton]
    split
    · next same => simp [same, strong_eq found]
    · next other => simp [Ne.symm other]

theorem perform_lowered (several : 2 ≤ w.strong id) :
    (w.perform (.ref id)).1 = [] ∧ w.Lowered [id] (w.perform (.ref id)).2 := by
  obtain ⟨⟨k, o⟩, found, -⟩ := exists_entry_of_strong (show w.strong id ≠ 0 by omega)
  rw [strong_eq found] at several
  obtain ⟨k, rfl⟩ := Nat.exists_eq_add_of_le' several
  rw [perform_of_shared found]
  exact ⟨rfl, lowered_modifyEntry found⟩

/-- The last drop of the view brings up a drop of the store and one of the owner. -/
theorem perform_view (of : p.Of w.shapes) (last : w.strong p.handle = 1) :
    (w.perform (.ref p.handle)).1 = [.ref p.store, .ref p.owner] ∧
      w.Lowered [p.handle] (w.perform (.ref p.handle)).2 := by
  obtain ⟨h, -, known, owner, store, env, -⟩ := of
  obtain ⟨k, found⟩ := isHandle_iff.mp known
  rw [strong_eq found] at last
  obtain rfl : k = 1 := last
  have performed : w.perform (.ref p.handle) =
      (w.modifyEntry p.handle fun e => { e with strong := 0 }).dispose p.handle (.handle h) := by
    unfold World.perform
    dsimp only
    rw [found]
  have disposed (u : World) : u.dispose p.handle (.handle h) = ([.ref p.store, .ref p.owner], u) := by
    unfold World.dispose
    simp [Handle.isOwning, Handle.refs, owner, store, env]
  rw [performed, disposed]
  exact ⟨rfl, lowered_modifyEntry found⟩

namespace Beside

/-- After the last drop of the view the first world still counts it once, and its references. -/
theorem lose (beside : w.Beside p false v) {w₁ v₁ : World} (here : w.Lowered [p.handle] w₁)
    (there : v.Lowered [p.handle, p.store, p.owner] v₁) (last : v.strong p.handle = 1)
    (bal : v₁.Balanced held' moving') (keeps' : p.owner ∈ held') : w₁.Beside p true v₁ := by
  have of : p.Of v₁.shapes := by
    rw [there.shapes]
    exact beside.of'
  have owner_ne := of.owner_ne
  obtain ⟨store_ne, -⟩ := bal.store_ne of
  have count (x : ObjId) : v₁.strong x + [p.handle, p.store].count x = w₁.strong x := by
    have before : v.strong x + [p.handle].count x = w.strong x + [p.owner].count x := beside.count x
    have one := here.count x
    have three := there.count x
    simp only [List.count_cons, List.count_nil] at before one three ⊢
    omega
  have dead : v₁.strong p.handle = 0 := by
    have three := there.count p.handle
    rw [List.count_cons_self, last] at three
    omega
  constructor
  case rest =>
      rw [there.rest, beside.rest, here.rest]
      rfl
  case size =>
      rw [there.size, here.size, beside.size]
  case object =>
      intro x
      rw [there.object, here.object, beside.object]
  case count =>
      exact count
  case kept =>
      rw [← count p.handle, List.count_cons_self]
      omega
  case view =>
      exact ⟨fun _ => rfl, fun _ => dead⟩
  case alive =>
      intro x apart
      have even := count x
      by_cases store : x = p.store
      · subst store
        have alive := bal.store_shared of (bal.alive keeps')
        have positive : 0 < v₁.strong p.store := by omega
        omega
      · have absent : [p.handle, p.store].count x = 0 := by simp [Ne.symm apart, Ne.symm store]
        omega
  case shape =>
      rw [here.shapes]
      exact beside.shape

/-- The last drop of the view, with everything that it brings up. -/
theorem drop_view (beside : w.Beside p gone v) (draining' : v.Draining held' (.ref p.handle :: rest))
    (keeps' : p.owner ∈ held')
    (last : v.strong p.handle = 1) :
    (w.perform (.ref p.handle)).1 = [] ∧ ∃ v₁, v.complete (.ref p.handle :: rest) = v₁.complete rest ∧
      v₁.Draining held' rest ∧ (w.perform (.ref p.handle)).2.Beside p true v₁ := by
  obtain rfl : gone = false := by
    cases gone with
    | false => rfl
    | true =>
        have dead := beside.view.mpr rfl
        omega
  have several : 2 ≤ w.strong p.handle := by
    have count : v.strong p.handle + [p.handle].count p.handle = w.strong p.handle + [p.owner].count p.handle :=
      beside.count p.handle
    rw [List.count_cons_self] at count
    simp only [List.count_cons, List.count_nil, beq_iff_eq, beside.shape.owner_ne, if_false] at count
    omega
  obtain ⟨none, here⟩ := perform_lowered several
  obtain ⟨tasks₁, view⟩ := perform_view beside.of' last
  have first := draining'.perform
  have done := complete_cons v (.ref p.handle) rest
  rw [tasks₁] at first done
  generalize (v.perform (.ref p.handle)).2 = v₁ at first view done
  have of₁ : p.Of v₁.shapes := by
    rw [view.shapes]
    exact beside.of'
  have alive₁ : v₁.strong p.owner ≠ 0 := first.acc.alive (by simp [Task.refs])
  obtain ⟨tasks₂, store⟩ : (v₁.perform (.ref p.store)).1 = [] ∧ v₁.Lowered [p.store] (v₁.perform (.ref p.store)).2 := by
    have shared := first.acc.store_shared of₁ alive₁
    refine perform_lowered ?_
    simp only [List.cons_append, List.flatMap_cons, Task.refs, List.nil_append, List.count_cons_self] at shared
    omega
  have second : (v₁.perform (.ref p.store)).2.Draining held' (.ref p.owner :: rest) := by
    have performed := first.perform
    rw [tasks₂] at performed
    exact performed
  obtain ⟨tasks₃, owner⟩ : ((v₁.perform (.ref p.store)).2.perform (.ref p.owner)).1 = [] ∧
      (v₁.perform (.ref p.store)).2.Lowered [p.owner] ((v₁.perform (.ref p.store)).2.perform (.ref p.owner)).2 := by
    have held := List.count_pos_iff.mpr keeps'
    have le := second.acc.count_le p.owner
    refine perform_lowered ?_
    simp only [List.flatMap_cons, Task.refs, List.cons_append, List.count_cons_self, List.count_append] at le
    omega
  have third := second.perform
  rw [tasks₃] at third
  refine ⟨none, _, ?_, third, beside.lose here ((view.trans store).trans owner) last third.acc.toBalanced
    (List.mem_append_right _ keeps')⟩
  rw [done, List.cons_append, complete_cons, tasks₂, List.nil_append, List.cons_append, complete_cons, tasks₃]
  rfl

/-! ## All of it -/

theorem thread_eq (beside : w.Beside p gone v) : v.thread = w.thread := by
  rw [beside.rest]
  rfl

theorem modifyPending (beside : w.Beside p gone v) (store : ObjId) (f : Pending → Pending) :
    (w.modifyPending store f).Beside p gone (v.modifyPending store f) :=
  beside.modifyEntry store (fun _ _ o => by cases o <;> rfl) (fun ⟨_, o⟩ => by cases o <;> rfl)
    fun ⟨_, o⟩ _ => by cases o <;> rfl

/-- A task does the same in both worlds unless it is the last drop of the view. -/
theorem perform (beside : w.Beside p gone v) (draining : w.Draining held (t :: rest))
    (draining' : v.Draining held' (t :: rest)) (keeps : p.handle ∈ held) (keeps' : p.owner ∈ held')
    (more : t = .ref p.handle → v.strong p.handle ≠ 1) :
    (v.perform t).1 = (w.perform t).1 ∧ (w.perform t).2.Beside p gone (v.perform t).2 := by
  cases t with
  | ref id =>
      exact beside.drop draining.acc.toBalanced draining'.acc.toBalanced (List.mem_append_right _ keeps)
        (List.mem_append_right _ keeps') fun same => by
          subst same
          exact more rfl
  | queue h =>
      exact ⟨rfl, (beside.modifyPending h.store _).blind (F := (·.logAbout h.native _)) fun w heap =>
        logAbout_withHeap w heap _ _⟩
  | flush s total =>
      unfold World.perform
      dsimp only
      rw [beside.pending_eq]
      exact ⟨rfl, (beside.modifyPending s _).blind (F := (·.releaseBatch _)) fun w heap =>
        releaseBatch_withHeap w heap _⟩
  | sweep s total again =>
      unfold World.perform
      dsimp only
      rw [beside.thread_eq]
      split
      · split
        · exact ⟨rfl, beside⟩
        · refine ⟨rfl, ?_⟩
          split
          · exact beside.blind (F := fun w => { w with lastFlush := total }) fun _ _ => rfl
          · exact beside.blind (F := fun w => { w.log (.released total) with lastFlush := total })
              fun w heap => by rw [log_withHeap]; rfl
      · exact ⟨rfl, beside.blind (F := (·.modifyThread fun t => { t with retired := [] })) fun _ _ => rfl⟩
  | deleteStore n =>
      have deleted : ((w.guard .storeDelete).deleteNative n).Beside p gone
          ((v.guard .storeDelete).deleteNative n) :=
        beside.blind (F := fun w => (w.guard .storeDelete).deleteNative n) fun w heap => by
          rw [guard_withHeap]
          rfl
      exact ⟨rfl, deleted.blind (F := (·.logAbout n _)) fun w heap => logAbout_withHeap w heap n _⟩

/-- Releasing work leads to the same, but for what the two calls keep. -/
theorem complete {tasks : List Task} {w v : World} {gone : Bool} (beside : w.Beside p gone v)
    (draining : w.Draining held tasks) (draining' : v.Draining held' tasks) (keeps : p.handle ∈ held)
    (keeps' : p.owner ∈ held') : ∃ gone', (w.complete tasks).Beside p gone' (v.complete tasks) := by
  induction effort : w.effort tasks using Nat.strongRecOn generalizing w v tasks gone with
  | ind k ih =>
      cases tasks with
      | nil => exact ⟨gone, beside⟩
      | cons t rest =>
          have less := effort_perform_lt w t rest
          rw [effort] at less
          have next := draining.perform
          by_cases last : t = .ref p.handle ∧ v.strong p.handle = 1
          · obtain ⟨rfl, last⟩ := last
            obtain ⟨none, v₁, done, next', beside⟩ := beside.drop_view draining' keeps' last
            rw [none] at less next
            rw [complete_cons, none, done]
            exact ih _ less beside next next' rfl
          · obtain ⟨same, beside⟩ := beside.perform draining draining' keeps keeps' fun view one =>
              last ⟨view, one⟩
            have next' := draining'.perform
            rw [same] at next'
            rw [complete_cons, complete_cons v, same]
            exact ih _ less beside next next' rfl

/-! ## Operations -/

theorem release (beside : w.Beside p gone v) (sound : w.Sound (id :: held)) (sound' : v.Sound (id :: held'))
    (keeps : p.handle ∈ held) (keeps' : p.owner ∈ held') :
    ∃ gone', (w.release id).Beside p gone' (v.release id) := by
  have done := beside.complete sound.releasing.toDraining sound'.releasing.toDraining keeps keeps'
  rw [complete_cons, complete_cons v, List.append_nil, List.append_nil] at done
  exact done

/-- Dropping the same references. -/
theorem releaseAll (ids : List ObjId) {w v : World} {gone : Bool} (beside : w.Beside p gone v)
    (sound : w.Sound (ids ++ held)) (sound' : v.Sound (ids ++ held')) (keeps : p.handle ∈ held)
    (keeps' : p.owner ∈ held') : ∃ gone', (w.releaseAll ids).Beside p gone' (v.releaseAll ids) := by
  induction ids generalizing w v gone with
  | nil => exact ⟨gone, beside⟩
  | cons id rest ih =>
      obtain ⟨gone', beside⟩ := beside.release sound sound' (List.mem_append_right rest keeps)
        (List.mem_append_right rest keeps')
      exact ih beside sound.release sound'.release

theorem flush {s : ObjId} {n : NativeId} (beside : w.Beside p gone v) (isStore : w.shapes.IsStore s n)
    (sound : w.Sound held) (sound' : v.Sound held') (keeps : p.handle ∈ held) (keeps' : p.owner ∈ held') :
    ∃ gone', (w.flush s).Beside p gone' (v.flush s) :=
  beside.complete (sound.flushing isStore).toDraining
    (sound'.flushing (by rw [beside.shapes]; exact isStore)).toDraining keeps keeps'

/-! ## The end of the calls -/

/-- When both calls drop what they were asked for, nothing is left of the difference. -/
theorem meet (beside : w.Beside p gone v) (bal : w.Balanced (p.handle :: held) moving)
    (bal' : v.Balanced (p.owner :: held') moving') : v.release p.owner = w.release p.handle := by
  have owner_ne := beside.shape.owner_ne
  cases gone with
  | false =>
      have count (x : ObjId) : v.strong x + [p.handle].count x = w.strong x + [p.owner].count x := beside.count x
      have view : v.strong p.handle ≠ 0 := fun dead => nomatch beside.view.mp dead
      have several : 2 ≤ w.strong p.handle := by
        have even := count p.handle
        simp only [List.count_cons, List.count_nil, beq_self_eq_true, if_true, beq_iff_eq, owner_ne, if_false] at even
        omega
      have several' : 2 ≤ v.strong p.owner := by
        have even := count p.owner
        have shared := bal.owner_shared beside.shape beside.kept
        simp only [List.count_cons, List.count_nil, beq_self_eq_true, if_true, beq_iff_eq, owner_ne.symm,
          if_false] at even
        omega
      obtain ⟨none, here⟩ := perform_lowered several
      obtain ⟨none', there⟩ := perform_lowered several'
      have released {u : World} {id : ObjId} (none : (u.perform (.ref id)).1 = []) :
          u.release id = (u.perform (.ref id)).2 := by
        show (u.perform (.ref id)).2.complete (u.perform (.ref id)).1 = _
        rw [none]
        rfl
      rw [released none, released none']
      refine eq_of_counts ?_ (fun x => ?_) fun x => ?_
      · rw [there.rest, beside.rest, here.rest]
        rfl
      · rw [there.object, here.object, beside.object]
      · have even := count x
        have one := here.count x
        have one' := there.count x
        omega
  | true =>
      have count (x : ObjId) : v.strong x + [p.handle, p.store].count x = w.strong x := beside.count x
      have dead : v.strong p.handle = 0 := beside.view.mpr rfl
      obtain ⟨store_ne, -⟩ := bal.store_ne beside.shape
      have last : w.strong p.handle = 1 := by
        have even := count p.handle
        simp only [List.count_cons, List.count_nil, beq_self_eq_true, if_true, beq_iff_eq, store_ne, if_false] at even
        omega
      obtain ⟨tasks, view⟩ := perform_view beside.shape last
      have several : 2 ≤ (w.perform (.ref p.handle)).2.strong p.store := by
        have shared := bal'.store_shared beside.of' (bal'.alive List.mem_cons_self)
        have even := count p.store
        have one := view.count p.store
        simp only [List.count_cons, List.count_nil, beq_self_eq_true, if_true, beq_iff_eq, store_ne.symm,
          if_false] at even one
        omega
      obtain ⟨none, store⟩ := perform_lowered several
      have lowered := view.trans store
      -- Without the view and its reference to the store the first world is the second one.
      have same : ((w.perform (.ref p.handle)).2.perform (.ref p.store)).2 = v := by
        refine eq_of_counts ?_ (fun x => ?_) fun x => ?_
        · rw [lowered.rest, beside.rest]
          rfl
        · rw [lowered.object, beside.object]
        · have even := count x
          have two := lowered.count x
          simp only [List.singleton_append] at two
          omega
      have released (u : World) (id : ObjId) : u.release id = u.complete [.ref id] :=
        (complete_refs [id] u).symm
      rw [released w, complete_cons, tasks, List.append_nil, complete_cons, none, same, List.nil_append, released v]

end Beside

end World

end HostEmbedding
