import HostEmbedding.Proofs.Ownership.Operations

/-!
# Counting and dropping

Counting one more reference of something alive raises one count. Dropping one of several references lowers
one count and does nothing else, so a reference that is counted and dropped leaves nothing behind.
-/

namespace HostEmbedding.World

variable {w v : World} {id : ObjId}

/-- A world is known by its entries and what is not the heap. -/
theorem eq_of_entries (rest : v = { w with heap := v.heap }) (entries : ∀ id, v.entry? id = w.entry? id) :
    v = w := by
  have heap : v.heap = w.heap := Array.ext_getElem? fun i => entries ⟨i⟩
  rw [rest, heap]

/-- Worlds that agree on their objects and counts, and on what is not the heap, are the same. -/
theorem eq_of_counts (rest : v = { w with heap := v.heap })
    (object : ∀ id, Option.map Entry.object ( v.entry? id) = Option.map Entry.object ( w.entry? id))
    (strong : ∀ id, v.strong id = w.strong id) : v = w := by
  refine eq_of_entries rest fun id => ?_
  have objects := object id
  have counts := strong id
  cases here : w.entry? id with
  | none =>
      rw [here] at objects
      exact Option.map_eq_none_iff.mp objects
  | some e =>
      rw [here] at objects
      obtain ⟨e', there, same⟩ := Option.map_eq_some_iff.mp objects
      rw [strong_eq here, strong_eq there] at counts
      obtain ⟨k, o⟩ := e
      obtain ⟨k', o'⟩ := e'
      cases same
      cases counts
      exact there

/-- Dropping one of several references brings up nothing. -/
theorem perform_of_shared {k : Nat} {o : Object} (found : w.entry? id = some ⟨k + 2, o⟩) :
    w.perform (.ref id) = ([], w.modifyEntry id fun e => { e with strong := k + 1 }) := by
  unfold World.perform
  dsimp only
  rw [found]

theorem release_of_shared {k : Nat} {o : Object} (found : w.entry? id = some ⟨k + 2, o⟩) :
    w.release id = w.modifyEntry id fun e => { e with strong := k + 1 } := by
  unfold World.release
  rw [perform_of_shared found]
  rfl

/-- A reference that is counted and dropped at once leaves nothing behind. -/
theorem release_retain (alive : w.strong id ≠ 0) : (w.retain id).release id = w := by
  obtain ⟨⟨k, o⟩, found, positive⟩ := exists_entry_of_strong alive
  obtain ⟨j, rfl⟩ := Nat.exists_eq_succ_of_ne_zero positive
  have entry : World.entry? (w.retain id) id = some ⟨j + 2, o⟩ := by
    unfold World.retain
    rw [entry?_modifyEntry, if_pos rfl, found]
    rfl
  rw [release_of_shared entry]
  refine eq_of_entries rfl fun x => ?_
  unfold World.retain
  rw [entry?_modifyEntry, entry?_modifyEntry]
  split
  · next same =>
      rw [same, found]
      rfl
  · rfl

theorem retain_comm (w : World) (a b : ObjId) : (w.retain a).retain b = (w.retain b).retain a := by
  have heaps : ((w.retain a).retain b).heap = ((w.retain b).retain a).heap := by
    refine Array.ext_getElem? fun i => ?_
    simp only [World.retain, World.modifyEntry, Array.getElem?_modify]
    split <;> split <;> simp
  exact congrArg (fun heap => { w with heap }) heaps

theorem retainAll_retain (w : World) (ids : List ObjId) (id : ObjId) :
    (w.retain id).retainAll ids = (w.retainAll ids).retain id := by
  induction ids generalizing w with
  | nil => rfl
  | cons a ids ih =>
      show ((w.retain id).retain a).retainAll ids = ((w.retain a).retainAll ids).retain id
      rw [retain_comm, ih]

/-- References that are counted beside others leave those alive. -/
theorem strong_retainAll_ne_zero (ids : List ObjId) {id : ObjId} (alive : w.strong id ≠ 0) :
    (w.retainAll ids).strong id ≠ 0 := by
  induction ids generalizing w with
  | nil => exact alive
  | cons a ids ih => exact ih (strong_retain_ne_zero alive)

/-- References that are counted once more and dropped leave nothing behind. -/
theorem releaseAll_retainAll {ids : List ObjId} (alive : ∀ r ∈ ids, w.strong r ≠ 0) :
    (w.retainAll ids).releaseAll ids = w := by
  induction ids with
  | nil => rfl
  | cons a ids ih =>
      have first : ((w.retain a).retainAll ids).release a = w.retainAll ids := by
        rw [retainAll_retain]
        exact release_retain (strong_retainAll_ne_zero ids (alive a List.mem_cons_self))
      show (((w.retain a).retainAll ids).release a).releaseAll ids = w
      rw [first]
      exact ih fun r mem => alive r (List.mem_cons_of_mem a mem)

theorem strong_retain {id : ObjId} (alive : w.strong id ≠ 0) (x : ObjId) :
    (w.retain id).strong x = w.strong x + [id].count x := by
  obtain ⟨e, found, -⟩ := exists_entry_of_strong alive
  unfold World.retain
  rw [strong_modifyEntry found, List.count_singleton]
  by_cases here : x = id
  · subst here
    simp [strong_eq found]
  · simp [here, Ne.symm here]

/-- Each reference is counted once more for each time it is named. -/
theorem strong_retainAll {ids : List ObjId} (alive : ∀ r ∈ ids, w.strong r ≠ 0) (x : ObjId) :
    (w.retainAll ids).strong x = w.strong x + ids.count x := by
  induction ids generalizing w with
  | nil => rfl
  | cons a ids ih =>
      have later : ∀ r ∈ ids, (w.retain a).strong r ≠ 0 := fun r mem =>
        strong_retain_ne_zero (alive r (List.mem_cons_of_mem a mem))
      show ((w.retain a).retainAll ids).strong x = _
      rw [ih later, strong_retain (alive a List.mem_cons_self), Nat.add_assoc, ← List.count_append]
      rfl

end HostEmbedding.World
