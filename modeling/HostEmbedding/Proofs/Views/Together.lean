import HostEmbedding.Proofs.Machine.Running
import HostEmbedding.Proofs.Views.Operating

/-!
# Machines of two calls

Until the engine returns to it, a call through a view and the same call through the owning handle do the same.
The machines differ in the handle that the frame of the call keeps, and their worlds differ in what is counted
for it.
-/

namespace HostEmbedding

/-- A view, and the frames at the bottom of two stacks of which one keeps the view and the other its owner. -/
structure Detour where
  view : View
  bottom : List Frame
  bottom' : List Frame

/-- With what a step holds, or with the bottoms of the stacks, the one machine keeps the view and the other
its owner. -/
structure Detour.Keeps (d : Detour) (extra extra' : List ObjId) : Prop where
  view : d.view.handle ∈ extra ++ d.bottom.flatMap Frame.refs
  owner : d.view.owner ∈ extra' ++ d.bottom'.flatMap Frame.refs

/-- Holding more keeps as much. -/
theorem Detour.Keeps.mono {d : Detour} {extra extra' : List ObjId} (keeps : d.Keeps [] []) :
    d.Keeps extra extra' :=
  ⟨List.mem_append_right _ keeps.view, List.mem_append_right _ keeps.owner⟩

namespace Machine

variable {d : Detour} {m n m₀ n₀ : Machine} {extra extra' ids : List ObjId} {item : Item} {v : VarName}

/-- Two machines that run a call in two ways. -/
structure Together (d : Detour) (m n : Machine) : Prop where
  world : ∃ gone, m.world.Beside d.view gone n.world
  rest : n = { m with world := n.world, stack := n.stack }
  stack : ∃ above, m.stack = above ++ d.bottom ∧ n.stack = above ++ d.bottom'

namespace Together

theorem keeps (together : Together d m n) (keeps : d.Keeps extra extra') :
    d.view.handle ∈ extra ++ m.owns ∧ d.view.owner ∈ extra' ++ n.owns := by
  obtain ⟨above, stack, stack'⟩ := together.stack
  obtain ⟨view, owner⟩ := keeps
  unfold owns
  rw [stack, stack']
  simp only [List.mem_append, List.flatMap_append] at view owner ⊢
  tauto

theorem globals (together : Together d m n) : n.globals = m.globals :=
  (congrArg Machine.globals together.rest).trans rfl

theorem context (together : Together d m n) : n.context = m.context :=
  (congrArg Machine.context together.rest).trans rfl

theorem control (together : Together d m n) : n.control = m.control :=
  (congrArg Machine.control together.rest).trans rfl

theorem answers (together : Together d m n) : n.answers = m.answers :=
  (congrArg Machine.answers together.rest).trans rfl

theorem withWorld (together : Together d m n) {w u : World} {gone : Bool} (beside : w.Beside d.view gone u) :
    Together d (m.withWorld w) (n.withWorld u) where
  world := ⟨gone, beside⟩
  rest := by
    rw [together.rest]
    rfl
  stack := together.stack

theorem withControl (together : Together d m n) (c : Control) :
    Together d { m with control := c } { n with control := c } where
  world := together.world
  rest := by
    rw [together.rest]
  stack := together.stack

theorem complete (together : Together d m n) (c : Completion) : Together d (m.complete c) (n.complete c) :=
  together.withControl _

theorem finish (together : Together d m n) (a : Answer) : Together d (m.finish a) (n.finish a) :=
  together.complete (.done a)

theorem refuse (together : Together d m n) (g : Guard) (e : ApiError) :
    Together d (m.refuse g e) (n.refuse g e) := by
  unfold Machine.refuse
  split
  · exact together.complete _
  · exact together.finish _

theorem unusable (together : Together d m n) (v : VarName) : Together d (m.unusable v) (n.unusable v) :=
  together.finish _

/-- Dropping the same references. -/
theorem releaseAll (together : Together d m n) (keeps : d.Keeps extra extra') (ids : List ObjId)
    (sound : m.world.Sound (ids ++ (extra ++ m.owns))) (sound' : n.world.Sound (ids ++ (extra' ++ n.owns))) :
    Together d (m.withWorld (m.world.releaseAll ids)) (n.withWorld (n.world.releaseAll ids)) := by
  obtain ⟨gone, beside⟩ := together.world
  obtain ⟨view, owner⟩ := together.keeps keeps
  obtain ⟨gone', released⟩ := beside.releaseAll ids sound sound' view owner
  exact together.withWorld released

/-! ## Reading variables -/

theorem locals (together : Together d m n) : n.locals = m.locals := by
  unfold Machine.locals
  rw [together.context]

theorem captures (together : Together d m n) : n.captures = m.captures := by
  obtain ⟨gone, beside⟩ := together.world
  unfold Machine.captures
  rw [together.context]
  cases m.context with
  | body a =>
      dsimp only
      rw [beside.closure?_eq]
  | _ => rfl

theorem lookup (together : Together d m n) : n.lookup = m.lookup := by
  funext v
  unfold Machine.lookup
  rw [together.globals, together.locals, together.captures]

theorem operand? (together : Together d m n) : n.operand? = m.operand? := by
  funext o
  unfold Machine.operand?
  rw [together.lookup]

theorem operands? (together : Together d m n) (os : List Operand) : n.operands? os = m.operands? os := by
  unfold Machine.operands?
  rw [together.operand?]

theorem caller? (together : Together d m n) : n.caller? = m.caller? := by
  unfold Machine.caller?
  rw [together.context]

theorem shown (together : Together d m n) : n.world.shown = m.world.shown := by
  obtain ⟨gone, beside⟩ := together.world
  exact beside.shown_eq

/-! ## Setting variables -/

theorem scope (together : Together d m n) : n.scope = m.scope := by
  funext v
  unfold Machine.scope
  rw [together.globals, together.context]

theorem setScope (together : Together d m n) (v : VarName) (s : Scope) :
    Together d (m.setScope v s) (n.setScope v s) := by
  have moved (m : Machine) (w : World) (stack : List Frame) :
      ({ m with world := w, stack } : Machine).setScope v s = { m.setScope v s with world := w, stack } := by
    match v with
    | .global name => rfl
    | .scoped name =>
        unfold Machine.setScope
        cases m.context <;> rfl
  have kept (m : Machine) : (m.setScope v s).world = m.world ∧ (m.setScope v s).stack = m.stack := by
    rcases Busy.setScope_cases m v s with ⟨a, -, same⟩ | same <;> rw [same] <;> exact ⟨rfl, rfl⟩
  obtain ⟨world, rest, stack⟩ := together
  refine ⟨?_, ?_, ?_⟩
  · rw [(kept m).1, (kept n).1]
    exact world
  · rw [(kept n).1, (kept n).2, ← moved, ← rest]
  · rw [(kept m).2, (kept n).2]
    exact stack

/-- Setting a variable to an item whose references both steps hold. -/
theorem assign (together : Together d m n) (keeps : d.Keeps extra extra') (left : Busy m₀ (item.refs ++ extra) m)
    (right : Busy n₀ (item.refs ++ extra') n) (fits : item.Fits m.world.shapes) (v : VarName) :
    Together d (m.assign v item) (n.assign v item) := by
  obtain ⟨gone, beside⟩ := together.world
  have fits' : item.Fits n.world.shapes := by
    rw [beside.shapes]
    exact fits
  have set := (left.exchange fits v).world
  have set' := (right.exchange fits' v).world
  have exchanged := together.setScope v ((m.scope v).insert v.base item)
  unfold Machine.assign
  dsimp only
  rw [together.scope] at set' ⊢
  cases old : (m.scope v).find? v.base with
  | none => exact exchanged
  | some i =>
      rw [old] at set set'
      simp only [Option.toList_some, List.flatMap_cons, List.flatMap_nil, List.append_nil,
        List.append_assoc] at set set'
      exact exchanged.releaseAll keeps i.refs set set'

/-- Setting a variable to a copy of a live item. -/
theorem assignCopy (together : Together d m n) (keeps : d.Keeps extra extra') (left : Busy m₀ extra m)
    (right : Busy n₀ extra' n) (fits : item.Fits m.world.shapes)
    (alive : ∀ id ∈ item.refs, m.world.strong id ≠ 0) (alive' : ∀ id ∈ item.refs, n.world.strong id ≠ 0)
    (v : VarName) : Together d (m.assignCopy v item) (n.assignCopy v item) := by
  obtain ⟨gone, beside⟩ := together.world
  exact (together.withWorld (World.Beside.retainAll item.refs beside alive')).assign keeps
    (left.retainAll alive) (right.retainAll alive') (fits.mono (World.evolves_retainAll _ alive).shapes) v

end Together

/-- Steps that began in two machines in the middle of the call have come to two others, each holding some
references of its own. -/
structure Paired (d : Detour) (m₀ n₀ : Machine) (extra : List ObjId) (m n : Machine) : Prop where
  left : Busy m₀ extra m
  right : Busy n₀ extra n
  together : Together d m n
  keeps : d.Keeps [] []

namespace Paired

/-! ## What both machines use -/

/-- What fits in the one world fits in the other one. -/
theorem fits (paired : Paired d m₀ n₀ extra m n) (fits : item.Fits m.world.shapes) :
    item.Fits n.world.shapes := by
  obtain ⟨gone, beside⟩ := paired.together.world
  rw [beside.shapes]
  exact fits

/-- An item that a variable of both machines names. -/
theorem lookup (paired : Paired d m₀ n₀ extra m n) (found : m.lookup v = some item) :
    m.Usable item ∧ n.Usable item :=
  ⟨paired.left.lookup found, paired.right.lookup (by rw [paired.together.lookup]; exact found)⟩

theorem withWorld (paired : Paired d m₀ n₀ extra m n) {extra' : List ObjId} {w u : World} {gone : Bool}
    (left : Busy m₀ extra' (m.withWorld w)) (right : Busy n₀ extra' (n.withWorld u))
    (beside : w.Beside d.view gone u) : Paired d m₀ n₀ extra' (m.withWorld w) (n.withWorld u) :=
  ⟨left, right, paired.together.withWorld beside, paired.keeps⟩

theorem retainAll (paired : Paired d m₀ n₀ extra m n) {ids : List ObjId}
    (alive : ∀ id ∈ ids, m.world.strong id ≠ 0) (alive' : ∀ id ∈ ids, n.world.strong id ≠ 0) :
    Paired d m₀ n₀ (ids ++ extra) (m.withWorld (m.world.retainAll ids))
      (n.withWorld (n.world.retainAll ids)) := by
  obtain ⟨gone, beside⟩ := paired.together.world
  exact paired.withWorld (paired.left.retainAll alive) (paired.right.retainAll alive')
    (World.Beside.retainAll ids beside alive')

theorem releaseAll (paired : Paired d m₀ n₀ (ids ++ extra) m n) :
    Paired d m₀ n₀ extra (m.withWorld (m.world.releaseAll ids)) (n.withWorld (n.world.releaseAll ids)) := by
  have sound := paired.left.world
  have sound' := paired.right.world
  rw [List.append_assoc] at sound sound'
  exact ⟨paired.left.releaseAll ids, paired.right.releaseAll ids,
    paired.together.releaseAll paired.keeps.mono ids sound sound', paired.keeps⟩

/-! ## Setting variables -/

/-- Setting a variable to an item whose references both steps hold. -/
theorem assign (paired : Paired d m₀ n₀ (item.refs ++ extra) m n) (fits : item.Fits m.world.shapes)
    (v : VarName) : Paired d m₀ n₀ extra (m.assign v item) (n.assign v item) :=
  ⟨paired.left.assign fits v, paired.right.assign (paired.fits fits) v,
    paired.together.assign paired.keeps.mono paired.left paired.right fits v, paired.keeps⟩

/-- Setting a variable to a copy of a live item. -/
theorem assignCopy (paired : Paired d m₀ n₀ extra m n) (fits : item.Fits m.world.shapes)
    (alive : ∀ id ∈ item.refs, m.world.strong id ≠ 0) (alive' : ∀ id ∈ item.refs, n.world.strong id ≠ 0)
    (v : VarName) : Paired d m₀ n₀ extra (m.assignCopy v item) (n.assignCopy v item) :=
  ⟨paired.left.assignCopy fits alive v, paired.right.assignCopy (paired.fits fits) alive' v,
    paired.together.assignCopy paired.keeps.mono paired.left paired.right fits alive alive' v, paired.keeps⟩

theorem copy (paired : Paired d m₀ n₀ extra m n) (usable : m.Usable item) (usable' : n.Usable item)
    (v : VarName) : Paired d m₀ n₀ extra (m.assignCopy v item) (n.assignCopy v item) :=
  paired.assignCopy usable.fits (paired.left.alive usable) (paired.right.alive usable') v

/-- A value without a reference needs nothing. -/
theorem assignPlain (paired : Paired d m₀ n₀ extra m n) (item : Item) (plain : item.refs = [])
    (fits : ∀ Γ, item.Fits Γ) (name : VarName) :
    Paired d m₀ n₀ extra (m.assign name item) (n.assign name item) := by
  have held : Paired d m₀ n₀ (item.refs ++ extra) m n := by
    rw [plain]
    exact paired
  exact held.assign (fits _) name

/-- Removing a variable. -/
theorem erase (paired : Paired d m₀ n₀ extra m n) (v : VarName) :
    (n.erase v).1 = (m.erase v).1 ∧ Together d (m.erase v).2 (n.erase v).2 := by
  obtain ⟨left, right, together, keeps⟩ := paired
  unfold Machine.erase
  rw [together.scope]
  cases old : (m.scope v).find? v.base with
  | none => exact ⟨rfl, together⟩
  | some i =>
      have removed := (left.remove old).world
      have removed' := (right.remove (by rw [together.scope]; exact old)).world
      rw [together.scope] at removed'
      rw [List.append_assoc] at removed removed'
      exact ⟨rfl, (together.setScope v ((m.scope v).erase v.base)).releaseAll keeps.mono i.refs removed removed'⟩

/-- A world that an operation of both machines leads to, with what it yields. -/
theorem yields (paired : Paired d m₀ n₀ extra m n) {w u : World} {gone : Bool}
    (made : World.Yields m.world (extra ++ m.owns) w item)
    (made' : World.Yields n.world (extra ++ n.owns) u item) (beside : w.Beside d.view gone u) (v : VarName) :
    Paired d m₀ n₀ extra ((m.withWorld w).assign v item) ((n.withWorld u).assign v item) := by
  obtain ⟨held, fits⟩ := paired.left.yields made
  obtain ⟨held', -⟩ := paired.right.yields made'
  exact assign (paired.withWorld held held' beside) fits v

/-! ## Going on with what a variable holds -/

theorem withOperand {o : Operand} {k k' : Scalar ObjId → Machine} (paired : Paired d m₀ n₀ [] m n)
    (next : ∀ s, m.Usable (.value s) → n.Usable (.value s) → Together d (k s) (k' s)) :
    Together d (m.withOperand o k) (n.withOperand o k') := by
  unfold Machine.withOperand
  rw [paired.together.operand?]
  split
  · next s found =>
      exact next s (paired.left.operand found)
        (paired.right.operand (by rw [paired.together.operand?]; exact found))
  · split
    · exact paired.together.unusable _
    · exact paired.together.finish _

theorem withOperands {os : List Operand} {k k' : List (Scalar ObjId) → Machine} (paired : Paired d m₀ n₀ [] m n)
    (next : ∀ ss, (∀ s ∈ ss, m.Usable (.value s)) → (∀ s ∈ ss, n.Usable (.value s)) → Together d (k ss) (k' ss)) :
    Together d (m.withOperands os k) (n.withOperands os k') := by
  unfold Machine.withOperands
  rw [paired.together.operands?]
  split
  · next ss found =>
      exact next ss (paired.left.operands found)
        (paired.right.operands (by rw [paired.together.operands?]; exact found))
  · exact paired.together.finish _

theorem withStore {k k' : ObjId → Machine} (paired : Paired d m₀ n₀ [] m n)
    (next : ∀ s, m.Usable (.store s) → n.Usable (.store s) → Together d (k s) (k' s)) :
    Together d (m.withStore v k) (n.withStore v k') := by
  unfold Machine.withStore
  rw [paired.together.lookup]
  split
  · next s found =>
      obtain ⟨usable, usable'⟩ := paired.lookup found
      exact next s usable usable'
  · exact paired.together.unusable v

theorem withMemory {k k' : NativeId → LinearMemory → Machine} (paired : Paired d m₀ n₀ [] m n)
    (next : ∀ id mem, Together d (k id mem) (k' id mem)) :
    Together d (m.withMemory v k) (n.withMemory v k') := by
  obtain ⟨gone, beside⟩ := paired.together.world
  unfold Machine.withMemory
  rw [paired.together.lookup]
  split
  · next found =>
      rw [beside.memoryOf?_of_alive (paired.right.alive (paired.lookup found).2 _ List.mem_cons_self)]
      split
      · exact next _ _
      · exact paired.together.unusable v
  · exact paired.together.unusable v

/-- The handle that an item stands for. -/
theorem withHandle {k k' : Item → ObjId → Handle → Machine} (paired : Paired d m₀ n₀ [] m n)
    (next : ∀ item id h, m.Usable item → n.Usable item → id ∈ item.refs →
      m.world.handle? id = some h → n.world.handle? id = some h → Together d (k item id h) (k' item id h)) :
    Together d (m.withHandle v k) (n.withHandle v k') := by
  obtain ⟨gone, beside⟩ := paired.together.world
  unfold Machine.withHandle
  rw [paired.together.lookup]
  split
  · next item found =>
      obtain ⟨usable, usable'⟩ := paired.lookup found
      dsimp only
      split
      · next id named =>
          have mem : id ∈ item.refs := by
            cases item <;> simp only [Option.some.injEq, reduceCtorEq] at named <;> subst named <;>
              exact List.mem_singleton_self _
          have same := beside.handle?_of_alive (paired.right.alive usable' id mem)
          rw [same]
          split
          · next h handle => exact next item id h usable usable' mem handle (same.trans handle)
          · exact paired.together.unusable v
      · exact paired.together.unusable v
  · exact paired.together.unusable v

theorem withCell {k k' : ObjId → Option Item → Machine} (paired : Paired d m₀ n₀ [] m n)
    (next : ∀ c content, m.world.object? c = some (.cell content) → n.world.object? c = some (.cell content) →
      Together d (k c content) (k' c content)) : Together d (m.withCell v k) (n.withCell v k') := by
  obtain ⟨gone, beside⟩ := paired.together.world
  unfold Machine.withCell
  rw [paired.together.lookup]
  split
  · next c found =>
      have same := beside.object?_of_alive (paired.right.alive (paired.lookup found).2 c List.mem_cons_self)
      rw [same]
      split
      · next content object => exact next c content object (same.trans object)
      · exact paired.together.unusable v
  · exact paired.together.unusable v

end Paired

end Machine

end HostEmbedding
