import HostEmbedding.Proofs.Alike.Agreement

/-!
# Explicit flushes cannot be told

A script that flushes its stores at other places, at the top level or inside its host functions, runs in
step with the script that it was: every other step ends with the same, the same is dropped in the same
order, host values are referred to as often, and memories hold the same. Only how much is queued, how
much a flush released, and the log can differ.
-/

namespace HostEmbedding

/-! ## Taking flushes out -/

def Step.isFlush : Step → Bool
  | .plain (.flush _) => true
  | _ => false

mutual

def Step.withoutFlushes : Step → Step
  | .func name store shape label quiet captures body =>
      .func name store shape label quiet captures (Block.withoutFlushes body)
  | .branch a op b yes no => .branch a op b (Block.withoutFlushes yes) (Block.withoutFlushes no)
  | .loop n body => .loop n (Block.withoutFlushes body)
  | .thread body => .thread (Block.withoutFlushes body)
  | s => s

/-- A block out of which all explicit flushes are taken, at any depth. -/
def Block.withoutFlushes : List (Guard × Step) → List (Guard × Step)
  | [] => []
  | (g, s) :: rest =>
      if s.isFlush then Block.withoutFlushes rest else (g, s.withoutFlushes) :: Block.withoutFlushes rest

end

theorem Step.eq_flush_of_isFlush {s : Step} (flushes : s.isFlush = true) :
    ∃ store, s = .plain (.flush store) := by
  unfold Step.isFlush at flushes
  split at flushes
  · exact ⟨_, rfl⟩
  · cases flushes

theorem Block.withoutFlushes_cons {g : Guard} {s : Step} {rest : Block} (other : s.isFlush = false) :
    Block.withoutFlushes ((g, s) :: rest) = (g, s.withoutFlushes) :: Block.withoutFlushes rest := by
  rw [Block.withoutFlushes, other]
  rfl

theorem Block.withoutFlushes_flush (g : Guard) (store : VarName) (rest : Block) :
    Block.withoutFlushes ((g, .plain (.flush store)) :: rest) = Block.withoutFlushes rest := by
  rw [Block.withoutFlushes]
  rfl

mutual

/-- Steps that are the same without flushes are variations of each other. -/
theorem Step.like_of_withoutFlushes {s s' : Step} (isPublic : s.isPublic = true)
    (isPublic' : s'.isPublic = true) (same : s'.withoutFlushes = s.withoutFlushes) :
    Step.Like .flushes s s' := by
  cases s with
  | plain a =>
      cases s' with
      | plain a' => cases same; exact .plain a
      | _ => cases same
  | func name store shape label quiet captures body =>
      cases s' with
      | func name' store' shape' label' quiet' captures' body' =>
          simp only [Step.withoutFlushes, Step.func.injEq] at same
          obtain ⟨rfl, rfl, rfl, rfl, rfl, rfl, same⟩ := same
          exact .func (.same _) (Block.like_of_withoutFlushes isPublic isPublic' same)
      | _ => cases same
  | call f args names =>
      cases s' with
      | call f' args' names' => cases same; exact .call f args names
      | _ => cases same
  | typedCall f args names =>
      cases s' with
      | typedCall f' args' names' => cases same; exact .typedCall f args names
      | _ => cases same
  | branch a op b yes no =>
      cases s' with
      | branch a' op' b' yes' no' =>
          simp only [Step.withoutFlushes, Step.branch.injEq] at same
          obtain ⟨rfl, rfl, rfl, taken, other⟩ := same
          rw [Step.isPublic, Bool.and_eq_true] at isPublic isPublic'
          exact .branch (Block.like_of_withoutFlushes isPublic.1 isPublic'.1 taken)
            (Block.like_of_withoutFlushes isPublic.2 isPublic'.2 other)
      | _ => cases same
  | loop n body =>
      cases s' with
      | loop n' body' =>
          simp only [Step.withoutFlushes, Step.loop.injEq] at same
          obtain ⟨rfl, same⟩ := same
          exact .loop (Block.like_of_withoutFlushes isPublic isPublic' same)
      | _ => cases same
  | thread body =>
      cases s' with
      | thread body' =>
          simp only [Step.withoutFlushes, Step.thread.injEq] at same
          exact .thread (Block.like_of_withoutFlushes isPublic isPublic' same)
      | _ => cases same
  | native | nativeFunc | nativeCall => cases isPublic
termination_by sizeOf s + sizeOf s'

/-- Blocks that are the same without flushes are variations of each other. -/
theorem Block.like_of_withoutFlushes {b b' : Block} (isPublic : Block.isPublic b = true)
    (isPublic' : Block.isPublic b' = true) (same : Block.withoutFlushes b' = Block.withoutFlushes b) :
    Block.Like .flushes b b' := by
  match b, b' with
  | [], [] => exact .nil
  | (g, s) :: rest, [] =>
      obtain ⟨first, others⟩ := Block.isPublic_cons isPublic
      cases flushes : s.isFlush with
      | true =>
          obtain ⟨store, rfl⟩ := s.eq_flush_of_isFlush flushes
          rw [Block.withoutFlushes_flush] at same
          exact .flushLeft rfl (Block.like_of_withoutFlushes others isPublic' same)
      | false =>
          rw [Block.withoutFlushes_cons flushes] at same
          cases same
  | [], (g', s') :: rest' =>
      obtain ⟨first', others'⟩ := Block.isPublic_cons isPublic'
      cases flushes' : s'.isFlush with
      | true =>
          obtain ⟨store, rfl⟩ := s'.eq_flush_of_isFlush flushes'
          rw [Block.withoutFlushes_flush] at same
          exact .flushRight rfl (Block.like_of_withoutFlushes isPublic others' same)
      | false =>
          rw [Block.withoutFlushes_cons flushes'] at same
          cases same
  | (g, s) :: rest, (g', s') :: rest' =>
      obtain ⟨first, others⟩ := Block.isPublic_cons isPublic
      obtain ⟨first', others'⟩ := Block.isPublic_cons isPublic'
      cases flushes : s.isFlush with
      | true =>
          obtain ⟨store, rfl⟩ := s.eq_flush_of_isFlush flushes
          rw [Block.withoutFlushes_flush] at same
          exact .flushLeft rfl (Block.like_of_withoutFlushes others isPublic' same)
      | false =>
          cases flushes' : s'.isFlush with
          | true =>
              obtain ⟨store, rfl⟩ := s'.eq_flush_of_isFlush flushes'
              rw [Block.withoutFlushes_flush] at same
              exact .flushRight rfl (Block.like_of_withoutFlushes isPublic others' same)
          | false =>
              rw [Block.withoutFlushes_cons flushes, Block.withoutFlushes_cons flushes'] at same
              obtain ⟨heads, rests⟩ := List.cons.inj same
              obtain ⟨rfl, steps⟩ := Prod.mk.inj heads
              exact .cons (Step.like_of_withoutFlushes first first' steps)
                (Block.like_of_withoutFlushes others others' rests)
termination_by sizeOf b + sizeOf b'

end

namespace Machine

variable {m n : Machine}

/-! ## In step -/

/-- Taking out flushes leaves every body the shape that it has. -/
theorem Stage.together (stage : Stage .flushes m n) : ¬ Apart m n := by
  have shapes {a b : Activation} (context : m.context = .body a) (context' : n.context = .body b) :
      b.code.shape = a.code.shape := by
    have contexts := stage.near.context
    rw [context, context'] at contexts
    exact contexts.code.unchanged
  intro apart
  cases apart with
  | caller _ _ _ context context' other => exact other (by rw [shapes context context'])
  | trap _ _ context context' other => exact other (by rw [shapes context context'])

/-- The moments of a run, in order, but for some at which an explicit flush is running; nothing is dropped
at these. -/
structure ButFlushes (run : ℕ → Machine) (moments : ℕ → ℕ) : Prop where
  increasing : StrictMono moments
  skipped : ∀ x, x ∉ Set.range moments → (run x).Flushing ∧
    (run (x + 1)).shown .flushes = (run x).shown .flushes

/-- Two public scripts that are the same without explicit flushes, wherever these stand, run in step: but
for the moments at which an explicit flush is running, each moment of one run has its own in the other, in
order, at which every step ends with the same, apart from the numbers of queued and of released objects,
every call has the same outcome, the same drops have been reported in the same order, everything but
environments is referred to as often, and every native object is the same. -/
theorem flushTransparency_after (level : Option LogLevel) {script script' : Block}
    (isPublic : Block.isPublic script = true) (isPublic' : Block.isPublic script' = true)
    (same : Block.withoutFlushes script' = Block.withoutFlushes script) :
    ∃ p q : ℕ → ℕ, ButFlushes (after level script) p ∧ ButFlushes (after level script') q ∧
      ∀ k, InStep .flushes (after level script (p k)) (after level script' (q k)) := by
  obtain ⟨p, q, increasing, increasing', stages, skipped, skipped'⟩ :=
    stages_after level isPublic isPublic' (Block.like_of_withoutFlushes isPublic isPublic' same)
  have stage (k : ℕ) : Stage .flushes (after level script (p k)) (after level script' (q k)) := by
    induction k using Nat.strongRecOn with
    | ind k ih => exact stages k fun l earlier => (ih l earlier).together
  refine ⟨p, q, ⟨increasing, fun x left => ?_⟩, ⟨increasing', fun x left => ?_⟩, fun k => (stage k).inStep⟩
  · obtain ⟨-, flushing, shown⟩ := skipped x left
    exact ⟨flushing, by rw [after_succ]; exact shown⟩
  · obtain ⟨-, flushing, shown⟩ := skipped' x left rfl
    exact ⟨flushing, by rw [after_succ]; exact shown⟩

/-- A function that captures a reference flushes its store while it runs; it is dropped, and what it leaves
behind is flushed at once. -/
def tidied : Block :=
  [(⟨false, false⟩, .plain (.store (.scoped "s") none)),
    (⟨false, false⟩, .plain (.reference (.scoped "r") "r" .unit)),
    (⟨false, false⟩, .func (.scoped "f") (.scoped "s") (.generic ⟨[], []⟩) "f" false [.scoped "r"]
      [(⟨false, false⟩, .plain (.memory (.scoped "m") (.global "s") ⟨0, none⟩)),
        (⟨false, false⟩, .plain (.drop (.scoped "m"))),
        (⟨false, false⟩, .plain (.flush (.global "s"))),
        (⟨false, false⟩, .plain (.giveBack []))]),
    (⟨false, false⟩, .call (.scoped "f") [] []),
    (⟨false, false⟩, .plain (.drop (.scoped "f"))),
    (⟨false, false⟩, .plain (.flush (.scoped "s"))),
    (⟨false, false⟩, .plain (.pending (.scoped "s")))]

/-- The same script, but it flushes only once and before anything is queued. -/
def untidied : Block :=
  [(⟨false, false⟩, .plain (.store (.scoped "s") none)),
    (⟨false, false⟩, .plain (.flush (.scoped "s"))),
    (⟨false, false⟩, .plain (.reference (.scoped "r") "r" .unit)),
    (⟨false, false⟩, .func (.scoped "f") (.scoped "s") (.generic ⟨[], []⟩) "f" false [.scoped "r"]
      [(⟨false, false⟩, .plain (.memory (.scoped "m") (.global "s") ⟨0, none⟩)),
        (⟨false, false⟩, .plain (.drop (.scoped "m"))),
        (⟨false, false⟩, .plain (.giveBack []))]),
    (⟨false, false⟩, .call (.scoped "f") [] []),
    (⟨false, false⟩, .plain (.drop (.scoped "f"))),
    (⟨false, false⟩, .plain (.pending (.scoped "s")))]

/-- The two scripts run in step. -/
theorem flushTransparency_after_tidied : Block.isPublic tidied = true ∧ Block.isPublic untidied = true ∧
    Block.withoutFlushes untidied = Block.withoutFlushes tidied ∧
    ∃ p q : ℕ → ℕ, ButFlushes (after none tidied) p ∧ ButFlushes (after none untidied) q ∧
      ∀ k, InStep .flushes (after none tidied (p k)) (after none untidied (q k)) :=
  ⟨by decide, by decide, rfl, flushTransparency_after none (by decide) (by decide) rfl⟩

end Machine

end HostEmbedding
