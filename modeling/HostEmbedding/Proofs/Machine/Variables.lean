import HostEmbedding.Proofs.Machine.Invariant
import HostEmbedding.Script.Perform

/-!
# Variables

A step works on the machine it starts in: it reads variables, changes the world and sets variables
again. In between it may hold references of its own, which are part of the account until it gives
them to a variable, to the heap or to its answer.
-/

namespace HostEmbedding

open World (Evolves Yields)

namespace Machine

variable {m₀ m : Machine} {extra extra' : List ObjId} {item : Item} {v : VarName}

/-- A step that began in `m₀` has come to `m` and holds some references of its own. -/
structure Busy (m₀ : Machine) (extra : List ObjId) (m : Machine) : Prop where
  world : m.world.Sound (extra ++ m.owns)
  evolves : Evolves m₀.world m.world
  stack : m.stack = m₀.stack
  answers : m.answers = m₀.answers
  context : ∃ s, m.context = m₀.context.withLocals s
  globals : m.globals.Fits m.world.shapes
  distinct : m.globals.Distinct
  running : ∀ a, m.context = .body a → a.Fits m.world.shapes

/-- A step that began in `m₀` has ended; what it still holds is in its completion. -/
structure Ends (m₀ m : Machine) : Prop where
  busy : Busy m₀ m.control.refs m
  completes : ∃ c, m.control = .complete c ∧ c.Fits m.world.shapes

/-- An item that a step can use: it fits, and what the machine owns keeps it alive. -/
structure Usable (m : Machine) (item : Item) : Prop where
  fits : item.Fits m.world.shapes
  holds : ∀ id ∈ item.refs, m.world.shapes.Holds m.owns id

theorem locals_eq (m : Machine) : m.locals = m.context.locals := by
  unfold Machine.locals
  cases m.context <;> rfl

/-- A step begins with nothing of its own. -/
theorem Coherent.busy (coherent : m.Coherent) (idle : m.control.refs = []) : Busy m [] m where
  world := by
    have sound := coherent.world
    unfold held at sound
    rw [idle] at sound
    exact sound
  evolves := .refl _
  stack := rfl
  answers := rfl
  context := ⟨m.context.locals, (Context.withLocals_locals _).symm⟩
  globals := coherent.globals
  distinct := coherent.distinct
  running a same := by
    obtain ⟨slots, stacked⟩ := coherent.placed.stacked
    rw [same] at stacked
    exact stacked.running

namespace Busy

/-- The stack below a step that is busy. -/
theorem stacked {slots : List (Option Fault)} (busy : Busy m₀ extra m)
    (stacked : Stacked m₀.world.shapes m₀.context m₀.stack slots) :
    Stacked m.world.shapes m.context m.stack slots := by
  have grown := stacked.mono busy.evolves.shapes
  obtain ⟨s, context⟩ := busy.context
  rw [busy.stack, context]
  cases start : m₀.context with
  | body a =>
      rw [start] at context grown
      have fits := busy.running _ context
      exact grown.withLocals fits.locals fits.distinct
  | _ =>
      rw [start] at grown
      exact grown

theorem entered (busy : Busy m₀ extra m) : m.entered = m₀.entered := by
  obtain ⟨s, context⟩ := busy.context
  unfold Machine.entered
  rw [busy.stack, context]
  cases m₀.context <;> rfl

theorem regroup (busy : Busy m₀ extra m) (same : ∀ id, extra'.count id = extra.count id) :
    Busy m₀ extra' m :=
  { busy with world := busy.world.regroup fun id => by rw [List.count_append, List.count_append, same] }

/-- An operation of the world. -/
theorem withWorld {w : World} (busy : Busy m₀ extra m) (sound : w.Sound (extra' ++ m.owns))
    (evolves : Evolves m.world w) : Busy m₀ extra' (m.withWorld w) where
  world := sound
  evolves := busy.evolves.trans evolves
  stack := busy.stack
  answers := busy.answers
  context := busy.context
  globals := busy.globals.mono evolves.shapes
  distinct := busy.distinct
  running a same := (busy.running a same).mono evolves.shapes

/-- A change of what is shown. -/
theorem same {w : World} (busy : Busy m₀ extra m) (same : World.Same m.world w) :
    Busy m₀ extra (m.withWorld w) :=
  busy.withWorld (busy.world.same same) same.evolves

theorem withControl (busy : Busy m₀ extra m) (c : Control) : Busy m₀ extra { m with control := c } :=
  ⟨busy.world, busy.evolves, busy.stack, busy.answers, busy.context, busy.globals, busy.distinct,
    busy.running⟩

/-- An operation of the world that yields an item. -/
theorem yields {w : World} (busy : Busy m₀ extra m) (yields : Yields m.world (extra ++ m.owns) w item) :
    Busy m₀ (item.refs ++ extra) (m.withWorld w) ∧ item.Fits (m.withWorld w).world.shapes :=
  ⟨busy.withWorld (by rw [List.append_assoc]; exact yields.sound) yields.evolves, yields.fits⟩

/-! ## Ends -/

theorem complete {c : Completion} (busy : Busy m₀ c.refs m) (fits : c.Fits m.world.shapes) :
    Ends m₀ (m.complete c) :=
  ⟨busy.withControl _, c, rfl, fits⟩

theorem raise {c : Completion} (busy : Busy m₀ [] m) (plain : c.refs = []) :
    Ends m₀ (m.complete c) :=
  complete (by rw [plain]; exact busy) fun r mem => by rw [plain] at mem; cases mem

theorem finish (busy : Busy m₀ [] m) (a : Answer) : Ends m₀ (m.finish a) := busy.raise rfl

theorem refuse (busy : Busy m₀ [] m) (g : Guard) (e : ApiError) : Ends m₀ (m.refuse g e) := by
  unfold Machine.refuse
  split
  · exact busy.raise rfl
  · exact busy.finish _

theorem unusable (busy : Busy m₀ [] m) (v : VarName) : Ends m₀ (m.unusable v) := busy.finish _

/-! ## Reading variables -/

theorem lookup (busy : Busy m₀ extra m) (found : m.lookup v = some item) : m.Usable item := by
  have globals {name : String} (found : m.globals.find? name = some item) : m.Usable item :=
    ⟨busy.globals _ (Scope.mem_of_find? found), fun id mem =>
      .inl (List.mem_append_left _ (Scope.refs_of_find? found mem))⟩
  match v, found with
  | .global name, found => exact globals found
  | .scoped name, found =>
      simp only [Machine.lookup, Option.or_eq_some_iff] at found
      rcases found with found | ⟨-, found | ⟨-, found⟩⟩
      · rw [locals_eq] at found
        cases context : m.context with
        | body a =>
            rw [context] at found
            have found : a.locals.find? name = some item := found
            refine ⟨(busy.running a context).locals _ (Scope.mem_of_find? found), fun id mem => ?_⟩
            refine .inl (List.mem_append_right _ (List.mem_append_left _ ?_))
            rw [context]
            exact List.mem_append_left _ (Scope.refs_of_find? found mem)
        | _ =>
            rw [context] at found
            cases found
      · unfold Machine.captures at found
        cases context : m.context with
        | body a =>
            rw [context] at found
            obtain ⟨captures, known⟩ := (busy.running a context).closure
            have owned : a.closure ∈ m.owns := by
              unfold owns
              rw [context]
              simp [Context.refs]
            have alive := busy.world.alive (List.mem_append_right extra owned)
            have closure := World.closure?_eq_some.mpr ⟨known, alive⟩
            simp only [closure, Option.map_some, Option.getD_some] at found
            obtain ⟨k, entry⟩ := World.isClosure_iff.mp known
            have object : Object.Fits m.world.shapes a.closure (.closure a.code captures) :=
              busy.world.objects entry
            exact ⟨object.2 _ (Scope.mem_of_find? found), fun id mem =>
              .inr ⟨a.closure, owned, a.code, captures, known, Scope.refs_of_find? found mem⟩⟩
        | _ =>
            rw [context] at found
            cases found
      · exact globals found

/-- What is usable is alive. -/
theorem alive (busy : Busy m₀ extra m) (usable : m.Usable item) :
    ∀ id ∈ item.refs, m.world.strong id ≠ 0 := fun id mem =>
  busy.world.alive_of_holds ((usable.holds id mem).mono (.refl _) fun _ owned =>
    List.mem_append_right extra owned)

theorem operand (busy : Busy m₀ extra m) {o : Operand} {s : Scalar ObjId}
    (found : m.operand? o = some s) : m.Usable (.value s) := by
  cases o with
  | literal l =>
      cases found
      have none : (l.map Empty.elim).ref? = (none : Option ObjId) := by
        rcases l with _ | _ | _ | _ | _ | _ | (_ | impossible) <;> first | rfl | cases impossible
      refine ⟨fun r held => ?_, fun id mem => ?_⟩
      · rw [none] at held
        cases held
      · simp [Item.refs, none] at mem
  | var v =>
      unfold Machine.operand? at found
      dsimp only at found
      split at found
      · next s' value =>
          cases found
          exact busy.lookup value
      · cases found

theorem operands (busy : Busy m₀ extra m) {os : List Operand} {ss : List (Scalar ObjId)}
    (found : m.operands? os = some ss) : ∀ s ∈ ss, m.Usable (.value s) := by
  unfold Machine.operands? at found
  induction os generalizing ss with
  | nil =>
      cases found
      exact fun s mem => by cases mem
  | cons o rest ih =>
      simp only [List.mapM_cons, Option.bind_eq_bind, Option.bind_eq_some_iff, Option.pure_def,
        Option.some.injEq] at found
      obtain ⟨s, first, rest', others, rfl⟩ := found
      intro x mem
      rcases List.mem_cons.mp mem with rfl | mem
      · exact busy.operand first
      · exact ih others x mem

/-! ## Setting variables -/

theorem scope (busy : Busy m₀ extra m) (v : VarName) :
    (m.scope v).Fits m.world.shapes ∧ (m.scope v).Distinct := by
  match v with
  | .global name => exact ⟨busy.globals, busy.distinct⟩
  | .scoped name =>
      unfold Machine.scope
      cases context : m.context with
      | body a =>
          have fits := busy.running a context
          exact ⟨fits.locals, fits.distinct⟩
      | _ => exact ⟨busy.globals, busy.distinct⟩

theorem owns_setScope (m : Machine) (v : VarName) (s : Scope) (id : ObjId) :
    (m.setScope v s).owns.count id + (m.scope v).refs.count id =
      m.owns.count id + s.refs.count id := by
  match v with
  | .global name =>
      simp only [Machine.setScope, Machine.scope, owns, List.count_append]
      omega
  | .scoped name =>
      unfold Machine.setScope Machine.scope owns
      cases context : m.context <;>
        simp only [Context.refs, List.count_append] <;> omega

/-- A scope is that of the running body, or the global one. -/
theorem setScope_cases (m : Machine) (v : VarName) (s : Scope) :
    (∃ a, m.context = .body a ∧
      m.setScope v s = { m with context := .body { a with locals := s } }) ∨
      m.setScope v s = { m with globals := s } := by
  match v with
  | .global name => exact .inr rfl
  | .scoped name =>
      unfold Machine.setScope
      dsimp only
      split
      · next a context => exact .inl ⟨a, context, rfl⟩
      · exact .inr rfl

/-- Replacing the scope of a variable exchanges the references of the old one for the new one. -/
theorem setScope (busy : Busy m₀ extra m) (v : VarName) {s : Scope} (fits : s.Fits m.world.shapes)
    (distinct : s.Distinct)
    (counts : ∀ id, extra'.count id + s.refs.count id = extra.count id + (m.scope v).refs.count id) :
    Busy m₀ extra' (m.setScope v s) := by
  have world : m.world.Sound (extra' ++ (m.setScope v s).owns) := by
    refine busy.world.regroup fun id => ?_
    have owned := owns_setScope m v s id
    have change := counts id
    rw [List.count_append, List.count_append]
    omega
  rcases setScope_cases m v s with ⟨a, context, same⟩ | same
  · rw [same] at world ⊢
    have running := busy.running a context
    obtain ⟨t, start⟩ := busy.context
    refine ⟨world, busy.evolves, busy.stack, busy.answers, ⟨s, ?_⟩, busy.globals, busy.distinct,
      fun b here => ?_⟩
    · rw [start] at context
      cases origin : m₀.context <;> rw [origin] at context <;> cases context
      rfl
    · cases here
      exact ⟨running.closure, running.type, running.store, fits, distinct, running.params⟩
  · rw [same] at world ⊢
    exact ⟨world, busy.evolves, busy.stack, busy.answers, busy.context, fits, distinct, busy.running⟩

/-- A variable that is set to an item whose references the step holds leaves it what was there. -/
theorem exchange (busy : Busy m₀ (item.refs ++ extra) m) (fits : item.Fits m.world.shapes)
    (v : VarName) : Busy m₀ (((m.scope v).find? v.base).toList.flatMap Item.refs ++ extra)
      (m.setScope v ((m.scope v).insert v.base item)) := by
  obtain ⟨scopeFits, distinct⟩ := busy.scope v
  refine busy.setScope v (Scope.fits_insert scopeFits fits) distinct.insert fun id => ?_
  have counts := Scope.count_insert (m.scope v) v.base item id
  rw [List.count_append, List.count_append]
  omega

/-- Setting a variable to an item whose references the step holds. -/
theorem assign (busy : Busy m₀ (item.refs ++ extra) m) (fits : item.Fits m.world.shapes)
    (v : VarName) : Busy m₀ extra (m.assign v item) := by
  have set := busy.exchange fits v
  unfold Machine.assign
  dsimp only
  cases old : (m.scope v).find? v.base with
  | none =>
      rw [old] at set
      exact set
  | some i =>
      rw [old] at set
      have released := set.world
      simp only [Option.toList_some, List.flatMap_cons, List.flatMap_nil, List.append_nil,
        List.append_assoc] at released
      exact set.withWorld (released.releaseAll i.refs) (World.drains_releaseAll i.refs _).evolves

/-- Counting references of usable items for the step. -/
theorem retainAll (busy : Busy m₀ extra m) {ids : List ObjId}
    (alive : ∀ id ∈ ids, m.world.strong id ≠ 0) :
    Busy m₀ (ids ++ extra) (m.withWorld (m.world.retainAll ids)) :=
  busy.withWorld (by rw [List.append_assoc]; exact busy.world.retainAll ids alive)
    (World.evolves_retainAll ids alive)

/-- Setting a variable to a copy of a live item. -/
theorem assignCopy (busy : Busy m₀ extra m) (fits : item.Fits m.world.shapes)
    (alive : ∀ id ∈ item.refs, m.world.strong id ≠ 0) (v : VarName) :
    Busy m₀ extra (m.assignCopy v item) :=
  (busy.retainAll alive).assign (fits.mono (World.evolves_retainAll _ alive).shapes) v

theorem copy (busy : Busy m₀ extra m) (usable : m.Usable item) (v : VarName) :
    Busy m₀ extra (m.assignCopy v item) :=
  busy.assignCopy usable.fits (busy.alive usable) v

/-- A variable that is removed leaves the step what was there. -/
theorem remove (busy : Busy m₀ extra m) (found : (m.scope v).find? v.base = some item) :
    Busy m₀ (item.refs ++ extra) (m.setScope v ((m.scope v).erase v.base)) := by
  obtain ⟨scopeFits, distinct⟩ := busy.scope v
  refine busy.setScope v (Scope.fits_erase scopeFits) distinct.erase fun id => ?_
  have counts := Scope.count_erase distinct found id
  rw [List.count_append]
  omega

/-- Removing a variable. -/
theorem erase (busy : Busy m₀ extra m) (v : VarName) : Busy m₀ extra (m.erase v).2 := by
  unfold Machine.erase
  cases old : (m.scope v).find? v.base with
  | none => exact busy
  | some i =>
      have set := busy.remove old
      have released := set.world
      rw [List.append_assoc] at released
      exact set.withWorld (released.releaseAll i.refs) (World.drains_releaseAll i.refs _).evolves

/-! ## Going on with what a variable holds -/

section

variable {P : Machine → Prop}

theorem withOperand {o : Operand} {k : Scalar ObjId → Machine} (busy : Busy m₀ [] m)
    (refused : ∀ m', Ends m₀ m' → P m') (next : ∀ s, m.Usable (.value s) → P (k s)) :
    P (m.withOperand o k) := by
  unfold Machine.withOperand
  split
  · next s found => exact next s (busy.operand found)
  · split
    · exact refused _ (busy.unusable _)
    · exact refused _ (busy.finish _)

theorem withOperands {os : List Operand} {k : List (Scalar ObjId) → Machine} (busy : Busy m₀ [] m)
    (refused : ∀ m', Ends m₀ m' → P m')
    (next : ∀ ss, m.operands? os = some ss → (∀ s ∈ ss, m.Usable (.value s)) → P (k ss)) :
    P (m.withOperands os k) := by
  unfold Machine.withOperands
  split
  · next ss found => exact next ss found (busy.operands found)
  · exact refused _ (busy.finish _)

theorem withStore {k : ObjId → Machine} (busy : Busy m₀ [] m) (refused : ∀ m', Ends m₀ m' → P m')
    (next : ∀ s, m.Usable (.store s) → P (k s)) : P (m.withStore v k) := by
  unfold Machine.withStore
  split
  · next s found => exact next s (busy.lookup found)
  · exact refused _ (busy.unusable v)

theorem withMemory {k : NativeId → LinearMemory → Machine} (busy : Busy m₀ [] m)
    (refused : ∀ m', Ends m₀ m' → P m')
    (next : ∀ n mem, m.world.nativeMemory? n = some mem → P (k n mem)) : P (m.withMemory v k) := by
  unfold Machine.withMemory
  split
  · next h found =>
      split
      · next n mem reached =>
          refine next n mem ?_
          unfold World.memoryOf? at reached
          split at reached
          · next handle known =>
              obtain ⟨mem', native, same⟩ := Option.map_eq_some_iff.mp reached
              cases same
              exact native
          · cases reached
      · exact refused _ (busy.unusable v)
  · exact refused _ (busy.unusable v)

/-- The handle that an item stands for. -/
theorem withHandle {k : Item → ObjId → Handle → Machine} (busy : Busy m₀ [] m)
    (refused : ∀ m', Ends m₀ m' → P m')
    (next : ∀ item id h, m.lookup v = some item → m.Usable item → id ∈ item.refs →
      m.world.handle? id = some h → P (k item id h)) : P (m.withHandle v k) := by
  unfold Machine.withHandle
  split
  · next item found =>
      have usable := busy.lookup found
      dsimp only
      split
      · next id named =>
          have mem : id ∈ item.refs := by
            cases item <;> simp only [Option.some.injEq, reduceCtorEq] at named <;> subst named <;>
              exact List.mem_singleton_self _
          split
          · next h handle => exact next item id h found usable mem handle
          · exact refused _ (busy.unusable v)
      · exact refused _ (busy.unusable v)
  · exact refused _ (busy.unusable v)

theorem withCell {k : ObjId → Option Item → Machine} (busy : Busy m₀ [] m)
    (refused : ∀ m', Ends m₀ m' → P m')
    (next : ∀ c content, m.Usable (.cell c) → m.world.object? c = some (.cell content) →
      P (k c content)) : P (m.withCell v k) := by
  unfold Machine.withCell
  split
  · next c found =>
      split
      · next content object => exact next c content (busy.lookup found) object
      · exact refused _ (busy.unusable v)
  · exact refused _ (busy.unusable v)

end

end Busy

end Machine

end HostEmbedding
