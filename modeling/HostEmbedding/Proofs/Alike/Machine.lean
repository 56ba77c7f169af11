import HostEmbedding.Proofs.Alike.Operations
import HostEmbedding.Proofs.Machine.Running

/-!
# Machines of two runs

Two machines that run variations of a script have the same variables, run bodies of variations of the
same code, and wait for the same things in the same places. So a step that reads or sets variables
does the same in both.
-/

namespace HostEmbedding

variable {δ : Variation}

/-! ## What stands in both machines -/

inductive Context.Alike (δ : Variation) : Context → Context → Prop
  | top : Context.Alike δ .top .top
  | thread : Context.Alike δ .thread .thread
  | body (a : Activation) {code : HostCode} (like : a.code.Like δ code) :
      Context.Alike δ (.body a) (.body { a with code := code })

/-- Two frames. A block waits for the same step, which may stand at another position, or is at its end. -/
inductive Frame.Alike (δ : Variation) : Frame → Frame → Prop
  | block {outer : Bool} {i j : Nat} {g : Guard} {s s' : Step} {rest rest' : Block}
      (first : Step.Like δ s s') (steps : Block.Like δ rest rest') :
      Frame.Alike δ (.block outer i ((g, s) :: rest)) (.block outer j ((g, s') :: rest'))
  | atEnd {outer : Bool} {i j : Nat} : Frame.Alike δ (.block outer i []) (.block outer j [])
  | branch (taken : Bool) : Frame.Alike δ (.branch taken) (.branch taken)
  | loop (left : Nat) {body body' : Block} (steps : Block.Like δ body body') :
      Frame.Alike δ (.loop left body) (.loop left body')
  | hostCall (c : HostCall) : Frame.Alike δ (.hostCall c) (.hostCall c)
  | activation {saved saved' : Context} (context : saved.Alike δ saved') :
      Frame.Alike δ (.activation saved) (.activation saved')
  | thread {saved saved' : Context} {state state' : ThreadState} (context : saved.Alike δ saved')
      (frames : state'.frames = state.frames) (same : δ ≠ .flushes → state' = state) :
      Frame.Alike δ (.thread saved state) (.thread saved' state')

/-- The answers that may differ under other flushes, by the step that gives them: how many objects a
flush released and how many are queued. -/
inductive Step.Reports : Step → Answer → Answer → Prop
  | flush (store : VarName) (p q : Nat) : Step.Reports (.plain (.flush store)) (.nat p) (.nat q)
  | pending (store : VarName) (p q : Nat) : Step.Reports (.plain (.pending store)) (.nat p) (.nat q)
  | debug (of : VarName) (tag p q : Nat) :
      Step.Reports (.plain (.debug of)) (.text (World.storeText tag p)) (.text (World.storeText tag q))

def Step.Answers (δ : Variation) (s : Step) (a a' : Answer) : Prop :=
  a' = a ∨ δ = .flushes ∧ s.Reports a a'

/-- What an explicit flush answers: how many objects it released, or that its variable holds no store. -/
inductive Answer.OfFlush : Answer → Prop
  | released (count : Nat) : Answer.OfFlush (.nat count)
  | unusable (name : String) : Answer.OfFlush (.unusable name)

def Record.OfFlush (r : Record) : Prop :=
  ∃ store, r.step = .plain (.flush store) ∧ r.answer.OfFlush

/-- The recorded steps of two runs, the latest first. A flush that only one run does is recorded there
only, and dropped nothing. -/
inductive Answers.Alike (δ : Variation) : List Record → List Record → Prop
  | nil : Answers.Alike δ [] []
  | cons {r r' : Record} {earlier earlier' : List Record} (steps : Step.Like δ r.step r'.step)
      (answers : r.step.Answers δ r.answer r'.answer)
      (shown : r'.events.filter δ.shows = r.events.filter δ.shows) (before : Answers.Alike δ earlier earlier') :
      Answers.Alike δ (r :: earlier) (r' :: earlier')
  | flushLeft {r : Record} {earlier earlier' : List Record} (among : δ = .flushes) (flush : r.OfFlush)
      (silent : r.events.filter δ.shows = []) (before : Answers.Alike δ earlier earlier') :
      Answers.Alike δ (r :: earlier) earlier'
  | flushRight {r : Record} {earlier earlier' : List Record} (among : δ = .flushes) (flush : r.OfFlush)
      (silent : r.events.filter δ.shows = []) (before : Answers.Alike δ earlier earlier') :
      Answers.Alike δ earlier (r :: earlier')

theorem Context.Alike.code {a b : Activation} (alike : (Context.body a).Alike δ (.body b)) :
    a.code.Like δ b.code := by
  cases alike with
  | body a like => exact like

theorem Context.Alike.locals {ctx ctx' : Context} (alike : ctx.Alike δ ctx') : ctx'.locals = ctx.locals := by
  cases alike <;> rfl

namespace Machine

variable {m n m₀ n₀ : Machine} {extra : List ObjId} {item : Item} {v : VarName}

structure Near (δ : Variation) (m n : Machine) : Prop where
  world : m.world.Alike δ n.world
  globals : n.globals = m.globals
  context : m.context.Alike δ n.context
  stack : List.Forall₂ (Frame.Alike δ) m.stack n.stack
  answers : Answers.Alike δ m.answers n.answers

structure Finished (δ : Variation) (m n : Machine) : Prop where
  near : Near δ m n
  same : ∃ c, m.control = .complete c ∧ n.control = .complete c

namespace Near

variable (near : Near δ m n)
include near

theorem withWorld {w u : World} (alike : w.Alike δ u) : Near δ (m.withWorld w) (n.withWorld u) :=
  ⟨alike, near.globals, near.context, near.stack, near.answers⟩

theorem withControl (c c' : Control) : Near δ { m with control := c } { n with control := c' } :=
  ⟨near.world, near.globals, near.context, near.stack, near.answers⟩

theorem complete (c : Completion) : Finished δ (m.complete c) (n.complete c) :=
  ⟨near.withControl _ _, c, rfl, rfl⟩

theorem finish (a : Answer) : Finished δ (m.finish a) (n.finish a) := near.complete (.done a)

theorem refuse (g : Guard) (e : ApiError) : Finished δ (m.refuse g e) (n.refuse g e) := by
  unfold Machine.refuse
  split
  · exact near.complete _
  · exact near.finish _

theorem unusable (v : VarName) : Finished δ (m.unusable v) (n.unusable v) := near.finish _

/-! ## Reading variables -/

theorem locals : n.locals = m.locals := by
  rw [locals_eq, locals_eq]
  exact near.context.locals

theorem captures : n.captures = m.captures := by
  have contexts := near.context
  unfold Machine.captures
  generalize m.context = ctx at contexts
  generalize n.context = ctx' at contexts
  cases contexts with
  | body a like =>
      dsimp only
      rw [near.world.captures]
  | _ => rfl

theorem lookup (v : VarName) : n.lookup v = m.lookup v := by
  match v with
  | .global name => exact congrArg (fun s => Scope.find? s name) near.globals
  | .scoped name =>
      unfold Machine.lookup
      dsimp only
      rw [near.locals, near.captures, near.globals]

theorem operand? (o : Operand) : n.operand? o = m.operand? o := by
  cases o with
  | literal s => rfl
  | var v =>
      unfold Machine.operand?
      dsimp only
      rw [near.lookup]

theorem operands? (os : List Operand) : n.operands? os = m.operands? os :=
  congrArg os.mapM (funext near.operand?)

/-! ## Setting variables -/

theorem scope (v : VarName) : n.scope v = m.scope v := by
  have contexts := near.context
  match v with
  | .global name => exact near.globals
  | .scoped name =>
      unfold Machine.scope
      generalize m.context = ctx at contexts
      generalize n.context = ctx' at contexts
      cases contexts with
      | body a like => rfl
      | _ => exact near.globals

theorem setScope (v : VarName) (s : Scope) : Near δ (m.setScope v s) (n.setScope v s) := by
  obtain ⟨world, globals, contexts, stack, answers⟩ := near
  obtain ⟨w, g, ctx, st, control, as⟩ := m
  obtain ⟨w', g', ctx', st', control', as'⟩ := n
  match v with
  | .global name => exact ⟨world, rfl, contexts, stack, answers⟩
  | .scoped name =>
      dsimp only at contexts
      cases contexts with
      | body a like => exact ⟨world, globals, .body { a with locals := s } like, stack, answers⟩
      | top => exact ⟨world, rfl, .top, stack, answers⟩
      | thread => exact ⟨world, rfl, .thread, stack, answers⟩

end Near

structure Abreast (δ : Variation) (m₀ n₀ : Machine) (extra : List ObjId) (m n : Machine) : Prop where
  left : Busy m₀ extra m
  right : Busy n₀ extra n
  near : Near δ m n

namespace Abreast

/-- Setting a variable to an item whose references both steps hold. -/
theorem assign (abreast : Abreast δ m₀ n₀ (item.refs ++ extra) m n) (fits : item.Fits m.world.shapes)
    (fits' : item.Fits n.world.shapes) (v : VarName) :
    Abreast δ m₀ n₀ extra (m.assign v item) (n.assign v item) := by
  obtain ⟨left, right, near⟩ := abreast
  refine ⟨left.assign fits v, right.assign fits' v, ?_⟩
  have set := (left.exchange fits v).world
  have set' := (right.exchange fits' v).world
  have exchanged := near.setScope v ((m.scope v).insert v.base item)
  unfold Machine.assign
  dsimp only
  rw [near.scope] at set' ⊢
  cases old : (m.scope v).find? v.base with
  | none => exact exchanged
  | some i =>
      rw [old] at set set'
      simp only [Option.toList_some, List.flatMap_cons, List.flatMap_nil, List.append_nil,
        List.append_assoc] at set set'
      exact exchanged.withWorld (exchanged.world.releaseAll i.refs set set')

theorem retainAll (abreast : Abreast δ m₀ n₀ extra m n) {ids : List ObjId}
    (alive : ∀ id ∈ ids, m.world.strong id ≠ 0) (alive' : ∀ id ∈ ids, n.world.strong id ≠ 0) :
    Abreast δ m₀ n₀ (ids ++ extra) (m.withWorld (m.world.retainAll ids))
      (n.withWorld (n.world.retainAll ids)) :=
  ⟨abreast.left.retainAll alive, abreast.right.retainAll alive',
    abreast.near.withWorld (World.Alike.retainAll ids abreast.near.world)⟩

/-- Setting a variable to a copy of a live item. -/
theorem assignCopy (abreast : Abreast δ m₀ n₀ extra m n) (fits : item.Fits m.world.shapes)
    (fits' : item.Fits n.world.shapes) (alive : ∀ id ∈ item.refs, m.world.strong id ≠ 0)
    (alive' : ∀ id ∈ item.refs, n.world.strong id ≠ 0) (v : VarName) :
    Abreast δ m₀ n₀ extra (m.assignCopy v item) (n.assignCopy v item) :=
  (abreast.retainAll alive alive').assign (fits.mono (World.evolves_retainAll _ alive).shapes)
    (fits'.mono (World.evolves_retainAll _ alive').shapes) v

theorem copy (abreast : Abreast δ m₀ n₀ extra m n) (usable : m.Usable item) (usable' : n.Usable item)
    (v : VarName) : Abreast δ m₀ n₀ extra (m.assignCopy v item) (n.assignCopy v item) :=
  abreast.assignCopy usable.fits usable'.fits (abreast.left.alive usable) (abreast.right.alive usable') v

/-- An item that a variable of both machines names. -/
theorem lookup (abreast : Abreast δ m₀ n₀ extra m n) (found : m.lookup v = some item) :
    m.Usable item ∧ n.Usable item :=
  ⟨abreast.left.lookup found, abreast.right.lookup ((abreast.near.lookup v).trans found)⟩

/-- Removing a variable. -/
theorem erase (abreast : Abreast δ m₀ n₀ extra m n) (v : VarName) :
    (n.erase v).1 = (m.erase v).1 ∧ Near δ (m.erase v).2 (n.erase v).2 := by
  obtain ⟨left, right, near⟩ := abreast
  unfold Machine.erase
  rw [near.scope]
  cases old : (m.scope v).find? v.base with
  | none => exact ⟨rfl, near⟩
  | some i =>
      have removed := (left.remove old).world
      have removed' := (right.remove ((congrArg (fun s => Scope.find? s v.base) (near.scope v)).trans old)).world
      have erased := near.setScope v ((m.scope v).erase v.base)
      rw [near.scope] at removed'
      rw [List.append_assoc] at removed removed'
      exact ⟨rfl, erased.withWorld (erased.world.releaseAll i.refs removed removed')⟩

/-- A world that an operation of both machines leads to, with what it yields. -/
theorem yields (abreast : Abreast δ m₀ n₀ extra m n) {w u : World}
    (made : World.Yields m.world (extra ++ m.owns) w item)
    (made' : World.Yields n.world (extra ++ n.owns) u item) (alike : w.Alike δ u) (v : VarName) :
    Abreast δ m₀ n₀ extra ((m.withWorld w).assign v item) ((n.withWorld u).assign v item) := by
  obtain ⟨held, fits⟩ := abreast.left.yields made
  obtain ⟨held', fits'⟩ := abreast.right.yields made'
  exact assign ⟨held, held', abreast.near.withWorld alike⟩ fits fits' v

/-! ## Going on with what a variable holds -/

section

variable {P : Machine → Machine → Prop}

theorem withOperand {o : Operand} {k k' : Scalar ObjId → Machine} (abreast : Abreast δ m₀ n₀ [] m n)
    (refused : ∀ m' n', Finished δ m' n' → P m' n')
    (next : ∀ s, m.Usable (.value s) → n.Usable (.value s) → P (k s) (k' s)) :
    P (m.withOperand o k) (n.withOperand o k') := by
  unfold Machine.withOperand
  rw [abreast.near.operand?]
  split
  · next s found =>
      exact next s (abreast.left.operand found)
        (abreast.right.operand ((abreast.near.operand? o).trans found))
  · split
    · exact refused _ _ (abreast.near.unusable _)
    · exact refused _ _ (abreast.near.finish _)

theorem withOperands {os : List Operand} {k k' : List (Scalar ObjId) → Machine}
    (abreast : Abreast δ m₀ n₀ [] m n) (refused : ∀ m' n', Finished δ m' n' → P m' n')
    (next : ∀ ss, (∀ s ∈ ss, m.Usable (.value s)) → (∀ s ∈ ss, n.Usable (.value s)) → P (k ss) (k' ss)) :
    P (m.withOperands os k) (n.withOperands os k') := by
  unfold Machine.withOperands
  rw [abreast.near.operands?]
  split
  · next ss found =>
      exact next ss (abreast.left.operands found)
        (abreast.right.operands ((abreast.near.operands? os).trans found))
  · exact refused _ _ (abreast.near.finish _)

theorem withStore {k k' : ObjId → Machine} (abreast : Abreast δ m₀ n₀ [] m n)
    (refused : ∀ m' n', Finished δ m' n' → P m' n')
    (next : ∀ s, m.Usable (.store s) → n.Usable (.store s) → P (k s) (k' s)) :
    P (m.withStore v k) (n.withStore v k') := by
  unfold Machine.withStore
  rw [abreast.near.lookup]
  split
  · next s found =>
      obtain ⟨usable, usable'⟩ := abreast.lookup found
      exact next s usable usable'
  · exact refused _ _ (abreast.near.unusable v)

theorem withMemory {k k' : NativeId → LinearMemory → Machine} (abreast : Abreast δ m₀ n₀ [] m n)
    (refused : ∀ m' n', Finished δ m' n' → P m' n') (next : ∀ id mem, P (k id mem) (k' id mem)) :
    P (m.withMemory v k) (n.withMemory v k') := by
  unfold Machine.withMemory
  rw [abreast.near.lookup]
  split
  · rw [abreast.near.world.memoryOf? abreast.left.world abreast.right.world]
    split
    · exact next _ _
    · exact refused _ _ (abreast.near.unusable v)
  · exact refused _ _ (abreast.near.unusable v)

/-- The handle that an item stands for. -/
theorem withHandle {k k' : Item → ObjId → Handle → Machine} (abreast : Abreast δ m₀ n₀ [] m n)
    (refused : ∀ m' n', Finished δ m' n' → P m' n')
    (next : ∀ item id h, m.Usable item → n.Usable item → id ∈ item.refs →
      m.world.handle? id = some h → n.world.handle? id = some h → P (k item id h) (k' item id h)) :
    P (m.withHandle v k) (n.withHandle v k') := by
  unfold Machine.withHandle
  rw [abreast.near.lookup]
  split
  · next item found =>
      obtain ⟨usable, usable'⟩ := abreast.lookup found
      dsimp only
      split
      · next id named =>
          have mem : id ∈ item.refs := by
            cases item <;> simp only [Option.some.injEq, reduceCtorEq] at named <;> subst named <;>
              exact List.mem_singleton_self _
          rw [abreast.near.world.handle?]
          split
          · next h handle =>
              exact next item id h usable usable' mem handle
                ((abreast.near.world.handle? id).trans handle)
          · exact refused _ _ (abreast.near.unusable v)
      · exact refused _ _ (abreast.near.unusable v)
  · exact refused _ _ (abreast.near.unusable v)

theorem withCell {k k' : ObjId → Option Item → Machine} (abreast : Abreast δ m₀ n₀ [] m n)
    (refused : ∀ m' n', Finished δ m' n' → P m' n')
    (next : ∀ c content, m.world.object? c = some (.cell content) →
      n.world.object? c = some (.cell content) → P (k c content) (k' c content)) :
    P (m.withCell v k) (n.withCell v k') := by
  unfold Machine.withCell
  rw [abreast.near.lookup]
  split
  · next c found =>
      split
      · next content object =>
          have object' := abreast.near.world.cell.mpr object
          rw [object']
          exact next c content object object'
      · next other =>
          have other' (content : Option Item) : n.world.object? c ≠ some (.cell content) :=
            fun object => other content (abreast.near.world.cell.mp object)
          split
          · next content object => exact absurd object (other' content)
          · exact refused _ _ (abreast.near.unusable v)
  · exact refused _ _ (abreast.near.unusable v)

end

end Abreast

end Machine

end HostEmbedding
