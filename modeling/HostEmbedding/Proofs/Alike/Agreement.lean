import HostEmbedding.Proofs.Alike.Runs

/-!
# What two runs have in common

At every stage the machines of two runs agree on what a script can find out: what its steps end with, what
its variables hold, how often host values are referred to, what its memories hold, and which drops were
reported in which order.
-/

namespace HostEmbedding

variable {δ : Variation}

/-- The recorded answers show the same events in the same order. -/
theorem Answers.Alike.shown {answers answers' : List Record}
    (alike : Answers.Alike δ answers answers') :
    (answers'.reverse.flatMap Record.events).filter δ.shows =
      (answers.reverse.flatMap Record.events).filter δ.shows := by
  induction alike with
  | nil => rfl
  | cons _ _ shown _ ih =>
      rw [List.reverse_cons, List.reverse_cons, List.flatMap_append, List.flatMap_append, List.filter_append,
        List.filter_append, ih]
      simpa using shown
  | flushLeft _ _ silent _ ih =>
      rw [List.reverse_cons, List.flatMap_append, List.filter_append, ih]
      simpa using silent
  | flushRight _ _ silent _ ih =>
      rw [List.reverse_cons, List.flatMap_append, List.filter_append, ih]
      simpa using silent

namespace Machine

variable {m n : Machine}

/-- How two runs go on: with the same, with what the running step reports of what is queued, or not at all
any more. -/
inductive GoesOn (δ : Variation) (m n : Machine) : Prop
  | same (control : n.control = m.control)
  | reports {s : Step} {a a' : Answer} (among : δ = .flushes) (running : m.OnTop s) (running' : n.OnTop s)
      (reports : s.Reports a a') (control : m.control = .complete (.done a))
      (control' : n.control = .complete (.done a'))
  | halted {ending ending' : List Event} (control : m.control = .halted ending)
      (control' : n.control = .halted ending')

/-- What two runs have in common at a moment. Each waits on its stack for the same steps and calls. -/
structure InStep (δ : Variation) (m n : Machine) : Prop where
  goesOn : GoesOn δ m n
  stack : List.Forall₂ (Frame.Alike δ) m.stack n.stack
  context : m.context.Alike δ n.context
  globals : n.globals = m.globals
  lookup : ∀ v, n.lookup v = m.lookup v
  answers : Answers.Alike δ m.answers n.answers
  shown : n.shown δ = m.shown δ
  objects : ∀ id, Option.Rel (Entry.Alike δ) ( m.world.entry? id) ( n.world.entry? id)
  strong : ∀ id, (δ ≠ .flushes ∨ ∀ e, m.world.entry? id = some e → e.object.isEnv = false) →
    n.world.strong id = m.world.strong id
  native : ∀ id, n.world.nativeObject? id = m.world.nativeObject? id
  slots : n.world.thread.frames = m.world.thread.frames
  /-- Functions of other shapes leave alone what is queued and deleted too. -/
  released : δ ≠ .flushes → (∀ id, n.world.pending id = m.world.pending id) ∧
    ∀ id, n.world.deletions id = m.world.deletions id

/-- A step that holds no blocks runs in both machines. -/
theorem Near.runs (near : Near δ m n) {x : Action} (running : m.OnTop (.plain x)) : n.OnTop (.plain x) := by
  obtain ⟨outer, i, g, rest, below, stack⟩ := running
  have frames := near.stack
  rw [stack] at frames
  generalize stack' : n.stack = st' at frames
  cases frames with
  | cons frame frames =>
      cases frame with
      | block first steps =>
          cases first
          exact ⟨_, _, _, _, _, stack'⟩

theorem Stage.goesOn (stage : Stage δ m n) : GoesOn δ m n := by
  cases stage with
  | begins _ _ _ _ control control' | blockEnds _ _ _ control control' => exact .same (control'.trans control.symm)
  | ended finished =>
      obtain ⟨-, c, control, control'⟩ := finished
      exact .same (control'.trans control.symm)
  | @reported s _ _ near running control control' among reports =>
      have running' : n.OnTop s := by cases reports <;> exact near.runs running
      exact .reports among running running' reports control control'
  | enters _ _ _ _ control control' | returns _ _ control control' => exact .same (control'.trans control.symm)
  | halted _ control control' => exact .halted control control'

theorem Stage.shown_ending (stage : Stage δ m n) : n.ending.filter δ.shows = m.ending.filter δ.shows := by
  have going {c c' : Control} (control : m.control = c) (control' : n.control = c')
      (on : ∀ ending, c ≠ .halted ending) (on' : ∀ ending, c' ≠ .halted ending) : n.ending = m.ending := by
    unfold ending
    rw [control, control']
    cases c with
    | halted e => exact absurd rfl (on e)
    | _ =>
        cases c' with
        | halted e => exact absurd rfl (on' e)
        | _ => rfl
  cases stage with
  | begins _ _ _ _ control control' | blockEnds _ _ _ control control' =>
      rw [going control control' nofun nofun]
  | ended finished =>
      obtain ⟨-, c, control, control'⟩ := finished
      rw [going control control' nofun nofun]
  | reported _ _ control control' | enters _ _ _ _ control control' | returns _ _ control control' =>
      rw [going control control' nofun nofun]
  | halted _ control control' shown =>
      unfold ending
      rw [control, control']
      exact shown

/-- At every stage two runs are in step. -/
theorem Stage.inStep (stage : Stage δ m n) : InStep δ m n where
  goesOn := stage.goesOn
  stack := stage.near.stack
  context := stage.near.context
  globals := stage.near.globals
  lookup := stage.near.lookup
  answers := stage.near.answers
  shown := by
    have events : n.world.events.reverse.filter δ.shows = m.world.events.reverse.filter δ.shows := by
      rw [List.filter_reverse, List.filter_reverse, stage.near.world.events]
    unfold Machine.shown
    rw [List.filter_append, List.filter_append, List.filter_append, List.filter_append,
      stage.near.answers.shown, events, stage.shown_ending]
  objects := stage.near.world.entries
  strong _ counts := stage.near.world.strong counts
  native := stage.near.world.nativeObject?
  slots := stage.near.world.frames
  released among := ⟨stage.near.world.pending among, stage.near.world.deletions among⟩

end Machine

end HostEmbedding
