import HostEmbedding.Proofs.Machine.Stack

/-!
# What is raised in a body

A trap or a panic in a body passes to the step that catches it, or else the body ends in it. Which of
the two it is, and what is left of the body, is read off from the frames.
-/

namespace HostEmbedding

/-- Where a trap or a panic goes that reaches some frames of a body: whether a step catches it, and the
frames that are left, which go on with the next step or end with the body. -/
def Frame.unwind : List Frame → Bool × List Frame
  | .block outer index ((g, _) :: rest) :: below =>
      if g.catches then (true, .block outer (index + 1) rest :: below) else unwind below
  | .branch _ :: below => unwind below
  | .loop .. :: below => unwind below
  | frames => (false, frames)

namespace Machine

variable {m : Machine}

/-- A run on which what was raised in a body has passed through some frames: up to a step that catches
it, after which the block goes on, or else to the end of the body. -/
structure Passed (run : Nat → Machine) (frames : List Frame) (how : Completion) (a : Activation) (k : Nat) :
    Prop where
  passes : ∀ j < k, (run j).control = .complete how
  stack : (run k).stack = (Frame.unwind frames).2
  context : (run k).context = .body a
  caught : (Frame.unwind frames).1 = true → (run k).control = .run
  raised : (Frame.unwind frames).1 = false → (run k).control = .complete how ∧
    ∃ saved c below, (run k).stack = .activation saved :: .hostCall c :: below

/-- A frame that does not catch what was raised is gone after one transition. -/
theorem Passed.later {frames below : List Frame} {how : Completion} {a : Activation} {k : Nat}
    (control : m.control = .complete how) (same : Frame.unwind frames = Frame.unwind below)
    (passed : Passed (fun j => Machine.step^[j] m.step) below how a k) :
    Passed (fun j => Machine.step^[j] m) frames how a (k + 1) := by
  refine ⟨fun j less => ?_, ?_, passed.context, ?_, ?_⟩
  · cases j with
    | zero => exact control
    | succ j => exact passed.passes j (by omega)
  · rw [same]
    exact passed.stack
  · rw [same]
    exact passed.caught
  · rw [same]
    exact passed.raised

/-- Inside a body what was raised passes to the step that catches it, or else the body ends in it. -/
theorem Coherent.passed {frames : List Frame} {how : Completion} {a : Activation} {m : Machine}
    (coherent : m.Coherent) (control : m.control = .complete how) (raised : how.isRaised = true)
    (context : m.context = .body a) (stack : m.stack = frames) :
    ∃ k, Passed (fun j => Machine.step^[j] m) frames how a k := by
  induction frames generalizing m with
  | nil =>
      obtain ⟨stacked, -, -⟩ := coherent.completing control
      rw [stack, context] at stacked
      cases stacked.bottom
  | cons frame below ih =>
      obtain ⟨stacked, -, seat⟩ := coherent.completing control
      have undone : how.isDone = false := by
        cases how with
        | done => cases raised
        | gaveBack | trapped | panicked => rfl
      have step := coherent.step_eq
      rw [control] at step
      unfold Machine.deliver at step
      rw [stack] at stacked seat step
      -- What was raised is handed to the frames below, in the same context.
      have passes (next : m.step.control = .complete how) (same : m.step.context = m.context)
          (rest : m.step.stack = below) (through : Frame.unwind (frame :: below) = Frame.unwind below) :
          ∃ k, Passed (fun j => Machine.step^[j] m) (frame :: below) how a k := by
        obtain ⟨k, passed⟩ := ih coherent.step next (same.trans context) rest
        exact ⟨k + 1, passed.later control through⟩
      cases frame with
      | block outer index steps =>
          cases steps with
          | nil => rcases seat with impossible | ⟨impossible, -⟩ <;> cases impossible
          | cons first rest =>
              obtain ⟨g, s⟩ := first
              obtain ⟨same, settled⟩ := m.settle_spec how outer index g s rest below
              have settle : m.step = m.settle how outer index g s rest below := step
              have on : m.context.goesOn g how = g.catches := by
                rw [context]
                simp [Context.goesOn, undone, raised]
              rw [on, ← settle] at settled
              rw [← settle] at same
              cases catches : g.catches with
              | true =>
                  rw [catches, if_pos rfl] at settled
                  have caught : Frame.unwind (.block outer index ((g, s) :: rest) :: below) =
                      (true, .block outer (index + 1) rest :: below) := if_pos catches
                  refine ⟨1, fun j less => ?_, ?_, same.trans context, fun _ => settled.2, fun none => ?_⟩
                  · obtain rfl : j = 0 := by omega
                    exact control
                  · rw [caught]
                    exact settled.1
                  · rw [caught] at none
                    cases none
              | false =>
                  rw [catches, if_neg Bool.false_ne_true] at settled
                  have missed : Frame.unwind (.block outer index ((g, s) :: rest) :: below) =
                      Frame.unwind below := if_neg (by rw [catches]; exact Bool.false_ne_true)
                  exact passes settled.2 same settled.1 missed
      | branch taken =>
          refine passes ?_ (by rw [step]) (by rw [step]) rfl
          rw [step]
          dsimp only
          rw [undone, if_neg Bool.false_ne_true]
      | loop left body =>
          have goes : m.step = { m with stack := below } := by
            rw [step]
            dsimp only
            rw [undone, if_neg Bool.false_ne_true]
          exact passes (by rw [goes]; exact control) (by rw [goes]) (by rw [goes]) rfl
      | activation saved =>
          obtain ⟨b, c, rest, slots, ended⟩ := coherent.ended control stack
          exact ⟨0, fun j less => absurd less (Nat.not_lt_zero j), stack, context,
            fun caught => absurd caught Bool.false_ne_true,
            fun _ => ⟨control, saved, c, rest, ended.stack⟩⟩
      | thread saved state =>
          rw [context] at stacked
          obtain ⟨impossible, -⟩ := stacked.threading
          cases impossible
      | _ => rcases seat with impossible | ⟨impossible, -⟩ <;> cases impossible

end Machine

end HostEmbedding
