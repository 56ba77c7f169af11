import HostEmbedding.Proofs.Ownership.Places

/-!
# The ownership graph

An object that is alive owns the references that it holds. What the outside reaches along them is
alive, because every reference is counted. When no object owns itself, the converse holds: a count
comes from somewhere, and going back from owner to owner ends outside. Environments are the one
exception, as a native function keeps the one that it was lent until it is deleted.
-/

namespace HostEmbedding

def Object.isEnv : Object → Bool
  | .env .. => true
  | _ => false

namespace World

variable {w : World} {held : List ObjId} {moving : List NativeId} {id : ObjId}

def Edge (w : World) (a b : ObjId) : Prop :=
  ∃ e, w.entry? a = some e ∧ e.strong ≠ 0 ∧ b ∈ e.object.refs

/-- No live object owns itself, along however many steps. -/
def Acyclic (w : World) : Prop := ∀ a, ¬ Relation.TransGen w.Edge a a

/-- An object is reached from the references outside the heap. -/
def Reached (w : World) (roots : List ObjId) (id : ObjId) : Prop :=
  ∃ r ∈ roots, Relation.ReflTransGen w.Edge r id

theorem Reached.step {roots : List ObjId} {a b : ObjId} (reached : w.Reached roots a)
    (owns : w.Edge a b) : w.Reached roots b := by
  obtain ⟨r, root, path⟩ := reached
  exact ⟨r, root, path.tail owns⟩

/-- What is reached is alive. -/
theorem Balanced.alive_of_reached (bal : w.Balanced held moving) (reached : w.Reached held id) :
    w.strong id ≠ 0 := by
  obtain ⟨r, root, path⟩ := reached
  induction path with
  | refl => exact bal.alive root
  | tail _ owns _ =>
      obtain ⟨e, found, alive, mem⟩ := owns
      exact bal.alive_of_owned found alive mem

/-- Whether every object owns only objects made before it. -/
def isOrdered (w : World) : Bool :=
  w.heap.toList.zipIdx.all fun p => p.1.object.refs.all fun r => r.index < p.2

/-- A heap in which every object owns only older ones is acyclic. -/
theorem acyclic_of_isOrdered (ordered : w.isOrdered = true) : w.Acyclic := by
  have older {a b : ObjId} (edge : w.Edge a b) : b.index < a.index := by
    obtain ⟨e, found, -, mem⟩ := edge
    rw [entry?_eq] at found
    have listed : (e, a.index) ∈ w.heap.toList.zipIdx := List.mem_zipIdx_iff_getElem?.mpr found
    have row := List.all_eq_true.mp ordered _ listed
    simpa using List.all_eq_true.mp row b mem
  intro a cycle
  have descends : ∀ b, Relation.TransGen w.Edge a b → b.index < a.index := by
    intro b path
    induction path with
    | single edge => exact older edge
    | tail _ edge ih => exact (older edge).trans ih
  exact Nat.lt_irrefl _ (descends a cycle)

/-! ## Going back -/

theorem finite_alive (w : World) : {id | w.strong id ≠ 0}.Finite := by
  refine Set.Finite.subset ((Set.finite_Iio w.heap.size).image ObjId.mk) fun id alive => ?_
  obtain ⟨e, found, -⟩ := exists_entry_of_strong alive
  obtain ⟨bound, -⟩ := Array.getElem?_eq_some_iff.mp found
  exact ⟨id.index, bound, rfl⟩

/-- In an acyclic graph, going back from owner to owner ends. -/
theorem Acyclic.wellFounded (acyclic : w.Acyclic) :
    {id | w.strong id ≠ 0}.WellFoundedOn (Relation.TransGen w.Edge) := by
  have : IsStrictOrder ObjId (Relation.TransGen w.Edge) :=
    { irrefl := acyclic
      trans := fun _ _ _ => Relation.TransGen.trans }
  exact w.finite_alive.wellFoundedOn

/-- What a native function was lent is an environment. -/
theorem Accounted.isEnv_of_lent (acc : w.Accounted held moving) (mem : id ∈ w.lent) :
    ∃ type s, w.shapes.IsEnv id type s := by
  obtain ⟨⟨o, d⟩, listed, lent⟩ := List.mem_flatMap.mp mem
  obtain ⟨i, entry⟩ := List.mem_iff_getElem?.mp listed
  have found : w.nativeObject? ⟨i⟩ = some o := by simp [nativeObject?, entry]
  unfold Native.lent at lent
  split at lent
  · obtain ⟨s, t, rfl⟩ : ∃ s t, o = .func ⟨s, t, .host id⟩ := by
      rcases o with _ | _ | _ | ⟨s, t, env | code⟩ | _ | _ | _ | _ <;>
        simp [Native.env?] at lent
      exact ⟨s, t, by rw [lent]⟩
    obtain ⟨j, h, owner⟩ := acc.exists_owner found rfl
    obtain ⟨known, owning, native⟩ := isOwner_iff.mp owner
    have shape : w.shapes.native? h.native = some (.func ⟨s, t, .host id⟩) := by
      rw [native]
      simp [World.shapes, found, Native.shape]
    obtain ⟨e, s', type, -, same, -, isEnv⟩ := acc.func_owner known owning shape
    cases same
    exact ⟨type, h.store, isEnv⟩
  · cases lent

/-- The closure in an environment is owned by a live handle, through the environment. -/
theorem Accounted.owner_of_attached (acc : w.Accounted held moving) {x : ObjId} {e : Entry}
    (found : w.entry? x = some e) (env : e.object.isEnv = true) (alive : e.strong ≠ 0)
    (mem : id ∈ e.object.refs) :
    ∃ i k h, w.entry? i = some ⟨k, .handle h⟩ ∧ k ≠ 0 ∧ w.Edge i x ∧ w.Edge x id := by
  obtain ⟨n, o⟩ := e
  cases o with
  | env closure type s =>
      obtain rfl : closure = some id := by simpa [Object.refs] using mem
      have attached : w.attached? x = some id := by simp [attached?, found]
      obtain ⟨i, h, known, holds⟩ := acc.attachedOwned attached
      have living : w.strong i ≠ 0 := fun dead => by
        rw [(acc.attached known holds).mp dead] at attached
        cases attached
      obtain ⟨k, entry⟩ := isHandle_iff.mp known
      rw [strong_eq entry] at living
      refine ⟨i, k, h, entry, living, ⟨_, entry, living, ?_⟩, _, found, alive, mem⟩
      simp [Object.refs, Handle.refs, holds]
  | _ => cases env

/-- In an acyclic graph every live object but an environment is reached. -/
theorem Sound.reached (sound : w.Sound held) (acyclic : w.Acyclic) {e : Entry}
    (found : w.entry? id = some e) (plain : e.object.isEnv = false) (alive : e.strong ≠ 0) :
    w.Reached held id := by
  have living : id ∈ {id | w.strong id ≠ 0} := by
    rw [Set.mem_ofPred_eq, strong_eq found]
    exact alive
  -- The induction goes from an object back to the objects that own it.
  refine acyclic.wellFounded.induction living (P := fun id => ∀ e, w.entry? id = some e →
    e.object.isEnv = false → e.strong ≠ 0 → w.Reached held id) ?_ e found plain alive
  intro id _ ih e found plain alive
  have counted := sound.counted id
  rw [sound.retired, List.count_nil, strong_eq found] at counted
  have notLent : id ∉ w.lent := fun mem => by
    obtain ⟨type, s, isEnv⟩ := sound.toAccounted.isEnv_of_lent mem
    obtain ⟨k, c, entry⟩ := isEnv_iff.mp isEnv
    rw [found] at entry
    cases entry
    cases plain
  rw [List.count_eq_zero.mpr notLent] at counted
  by_cases root : id ∈ held
  · exact ⟨id, root, .refl⟩
  rw [List.count_eq_zero.mpr root] at counted
  have owned : id ∈ w.owned := List.count_pos_iff.mp (by omega)
  obtain ⟨x, f, entry, living, mem⟩ := mem_owned.mp owned
  have edge : w.Edge x id := ⟨f, entry, living, mem⟩
  by_cases env : f.object.isEnv = true
  · obtain ⟨i, k, h, handle, handleAlive, first, second⟩ :=
      sound.toAccounted.owner_of_attached entry env living mem
    have reached := ih i (by rw [Set.mem_ofPred_eq, strong_eq handle]; exact handleAlive)
      ((Relation.TransGen.single first).tail second) _ handle rfl handleAlive
    exact (reached.step first).step second
  · have reached := ih x (by rw [Set.mem_ofPred_eq, strong_eq entry]; exact living)
      (Relation.TransGen.single edge) f entry (by simpa using env) living
    exact reached.step edge

end World

end HostEmbedding
