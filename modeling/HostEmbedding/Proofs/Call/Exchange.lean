import HostEmbedding.Proofs.Slots.Running

/-!
# A call with another frame

Until the engine returns to a call, nothing looks at the frame of the call. So a call runs in the same
way when its frame is exchanged for that of another request.
-/

namespace HostEmbedding

/-- What waits on a step in progress, or seats a block, does not wait for the engine. -/
theorem Frame.offCall_of_seat {stack : List Frame} (seat : Frame.Waits stack ∨ Frame.Seats stack) :
    Frame.OffCall stack := by
  cases stack with
  | nil => trivial
  | cons f below => cases f <;> simp_all [Frame.Waits, Frame.Seats, Frame.OffCall, Frame.isCall]

/-- The frames of a stack are nested in order, whatever its innermost slot holds. -/
theorem Stacked.nested {Γ : Shapes} {ctx : Context} {stack : List Frame} {slots : List (Option Fault)}
    (stacked : Stacked Γ ctx stack slots) : Nested ctx stack slots := by
  induction stacked with
  | top => exact .top
  | block _ seats _ ih => exact .block ih (Frame.offCall_of_seat (.inr seats))
  | branch _ waits ih => exact .branch ih (Frame.offCall_of_seat (.inl waits))
  | loop _ waits _ ih => exact .loop ih (Frame.offCall_of_seat (.inl waits))
  | hostCall _ waits _ ih => exact .hostCall ih (Frame.offCall_of_seat (.inl waits))
  | activation _ _ _ ih => exact .activation ih rfl
  | thread _ waits _ _ ih => exact .thread ih (Frame.offCall_of_seat (.inl waits))

namespace Machine

variable {m there : Machine} {x y : HostCall} {base above : List Frame}

/-- The frames of a coherent machine are in order and its control suits them. -/
theorem Coherent.inOrder (coherent : m.Coherent) : m.InOrder := by
  have placed := coherent.placed
  generalize same : m.control = control at placed
  generalize frames : m.world.thread.frames = slots at placed
  generalize stack : m.stack = frames' at placed
  cases placed with
  | run stacked => exact ⟨by rw [stack, frames]; exact stacked.nested, by rw [same, stack]; exact ⟨_, _, _, _, rfl⟩⟩
  | complete stacked _ seat =>
      refine ⟨by rw [stack, frames]; exact stacked.nested, ?_⟩
      rw [same, stack]
      exact Frame.offCall_of_seat (seat.imp_right And.left)
  | enter stacked => exact ⟨by rw [stack, frames]; exact stacked.nested, by rw [same, stack]; exact rfl⟩
  | engine stacked =>
      refine ⟨?_, by rw [same, stack]; exact rfl⟩
      rw [stack, frames]
      obtain ⟨off, slot, rest, slots, nested⟩ := stacked.nested.of_hostCall
      cases slots
      exact .hostCall nested off
  | halted stacked => exact ⟨by rw [stack, frames]; exact stacked.nested, by rw [same]; trivial⟩

/-- The same machine but for the frame of one call, which is that of another request. -/
def Exchanged (x y : HostCall) (base : List Frame) (m there : Machine) : Prop :=
  ∃ above, m.stack = above ++ .hostCall x :: base ∧
    there = { m with stack := above ++ .hostCall y :: base }

/-- A transition that does not end the call works above its frame. -/
theorem Exchanged.step (exchanged : Exchanged x y base m there) (inOrder : m.InOrder)
    (running : ∀ r, m.control = .engine r → m.stack ≠ .hostCall x :: base) :
    Exchanged x y base m.step there.step := by
  obtain ⟨above, stack, rfl⟩ := exchanged
  -- Frames without a slot that a transition takes from the top stand above the call.
  have split (top : List Frame) {rest above : List Frame} (plain : ∀ f ∈ top, f.hasSlot = false)
      (same : top ++ rest = above ++ .hostCall x :: base) :
      ∃ middle, above = top ++ middle ∧ rest = middle ++ .hostCall x :: base := by
    rcases List.append_eq_append_iff.mp same with ⟨middle, rfl, rest⟩ | ⟨middle, rfl, rest⟩
    · exact ⟨middle, rfl, rest⟩
    · cases middle with
      | nil => exact ⟨[], by simp, rest.symm⟩
      | cons f middle =>
          obtain ⟨rfl, -⟩ := List.cons.inj rest
          exact absurd (plain (.hostCall x) (by simp)) (by simp [Frame.hasSlot])
  have after {f : Frame} {rest : List Frame} (same : f :: rest = above ++ .hostCall x :: base)
      (away : f :: rest ≠ .hostCall x :: base) :
      ∃ middle, above = f :: middle ∧ rest = middle ++ .hostCall x :: base := by
    cases above with
    | nil => exact absurd same away
    | cons g middle =>
        obtain ⟨rfl, rest⟩ := List.cons.inj same
        exact ⟨middle, rfl, rest⟩
  let xs := m.world.thread.frames
  show Exchanged x y base m.step (m.onto (above ++ .hostCall y :: base) xs).step
  cases inOrder.moves.1 with
  | stays top new rest core stack' plain plain' same silent =>
      obtain ⟨middle, rfl, rfl⟩ := split top plain (stack'.symm.trans stack)
      rw [step_here stack' rfl (same (middle ++ .hostCall x :: base) xs), List.append_assoc, same]
      exact ⟨new ++ middle, (List.append_assoc ..).symm, by rw [List.append_assoc]; rfl⟩
  | calls f rest core c stack' plain same enters silent =>
      obtain ⟨middle, rfl, rfl⟩ := split [f] (by simpa using plain) (stack'.symm.trans stack)
      rw [step_here stack' rfl (same (middle ++ .hostCall x :: base) xs)]
      exact ⟨.hostCall c :: f :: middle, rfl, same (middle ++ .hostCall y :: base) xs⟩
  | leaves saved rest f core stack' same answer panics =>
      obtain ⟨middle, rfl, rfl⟩ := after (stack'.symm.trans stack) (by simp)
      rw [step_here stack' rfl (same (middle ++ .hostCall x :: base) xs)]
      exact ⟨middle, rfl, same (middle ++ .hostCall y :: base) xs⟩
  | returns c rest r core stack' control same resumes silent =>
      obtain ⟨middle, rfl, rfl⟩ := after (stack'.symm.trans stack) (by rw [← stack']; exact running r control)
      have nested := inOrder.nested
      rw [stack'] at nested
      obtain ⟨-, slot, lower, frames, -⟩ := nested.of_hostCall
      rw [step_here stack' frames (same (middle ++ .hostCall x :: base) slot lower)]
      refine ⟨middle, rfl, ?_⟩
      show (m.onto (.hostCall c :: (middle ++ .hostCall y :: base)) m.world.thread.frames).step = _
      rw [frames]
      exact same (middle ++ .hostCall y :: base) slot lower
  | forks f rest body core stack' plain same silent =>
      obtain ⟨middle, rfl, rfl⟩ := split [f] (by simpa using plain) (stack'.symm.trans stack)
      rw [step_here stack' rfl (same (middle ++ .hostCall x :: base) xs)]
      exact ⟨.block true 0 body :: .thread m.context _ :: f :: middle, rfl,
        same (middle ++ .hostCall y :: base) xs⟩
  | joins saved state rest core stack' same silent =>
      obtain ⟨middle, rfl, rfl⟩ := after (stack'.symm.trans stack) (by simp)
      rw [step_here stack' rfl (same (middle ++ .hostCall x :: base) state.frames xs)]
      exact ⟨middle, rfl, same (middle ++ .hostCall y :: base) state.frames xs⟩
  | ends stack' => simp [stack'] at stack

/-- Until the engine returns to a call, it runs in the same way under another frame. -/
theorem Exchanged.iterate (exchanged : Exchanged x y base m there) (coherent : m.Coherent) {k : Nat}
    (running : ∀ j < k, ∀ r, (Machine.step^[j] m).control = .engine r →
      (Machine.step^[j] m).stack ≠ .hostCall x :: base) :
    Exchanged x y base (Machine.step^[k] m) (Machine.step^[k] there) := by
  induction k with
  | zero => exact exchanged
  | succ k ih =>
      rw [Function.iterate_succ_apply', Function.iterate_succ_apply']
      exact (ih fun j less => running j (Nat.lt_succ_of_lt less)).step (coherent.iterate k).inOrder
        (running k (Nat.lt_succ_self k))

end Machine

end HostEmbedding
