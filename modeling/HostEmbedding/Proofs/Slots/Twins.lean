import HostEmbedding.Proofs.PanicTransfer
import HostEmbedding.Proofs.Slots.Running

/-!
# Calls over other slots

A call that is made over other slots does the same: it opens its own slot, and until it has ended
nothing looks at the slots below that one.
-/

namespace HostEmbedding

/-- The frames and the slots of a call, here and over other slots: `lower` here and `lower'` there. -/
inductive Twins (lower lower' : List (Option Fault)) :
    List Frame → List (Option Fault) → List Frame → List (Option Fault) → Prop
  | call (c : HostCall) (slot : Option Fault) :
      Twins lower lower' [.hostCall c] (slot :: lower) [.hostCall c] (slot :: lower')
  | hostCall {above above' : List Frame} {slots slots' : List (Option Fault)} (c : HostCall)
      (slot : Option Fault) (twins : Twins lower lower' above slots above' slots') :
      Twins lower lower' (.hostCall c :: above) (slot :: slots) (.hostCall c :: above') (slot :: slots')
  | thread {above above' : List Frame} {slots slots' : List (Option Fault)} (saved : Context)
      (state : ThreadState) (own : List (Option Fault))
      (twins : Twins lower lower' above slots above' slots') :
      Twins lower lower' (.thread saved { state with frames := slots } :: above) own
        (.thread saved { state with frames := slots' } :: above') own
  | plain {above above' : List Frame} {slots slots' : List (Option Fault)} (f : Frame)
      (plain : f.hasSlot = false) (twins : Twins lower lower' above slots above' slots') :
      Twins lower lower' (f :: above) slots (f :: above') slots'

namespace Twins

variable {lower lower' slots slots' : List (Option Fault)} {above above' : List Frame}

theorem append {top : List Frame} (plain : ∀ f ∈ top, f.hasSlot = false)
    (twins : Twins lower lower' above slots above' slots') :
    Twins lower lower' (top ++ above) slots (top ++ above') slots' := by
  induction top with
  | nil => exact twins
  | cons f top ih =>
      exact .plain f (plain f List.mem_cons_self) (ih fun g mem => plain g (List.mem_cons_of_mem f mem))

theorem ne_nil (twins : Twins lower lower' above slots above' slots') : above ≠ [] ∧ above' ≠ [] := by
  cases twins <;> exact ⟨List.cons_ne_nil _ _, List.cons_ne_nil _ _⟩

/-- The innermost slot is the same. -/
theorem head (twins : Twins lower lower' above slots above' slots') : slots.head? = slots'.head? := by
  induction twins with
  | call c slot => rfl
  | hostCall c slot twins ih => rfl
  | thread saved state own twins ih => rfl
  | plain f plain twins ih => exact ih

/-- Parking a panic does the same. -/
theorem parkedIn (twins : Twins lower lower' above slots above' slots') (f : Fault) :
    Twins lower lower' above (parkedIn f slots) above' (parkedIn f slots') := by
  induction twins with
  | call c slot => cases slot <;> exact .call c _
  | hostCall c slot twins ih => cases slot <;> exact .hostCall c _ twins
  | thread saved state own twins ih => exact .thread saved state _ twins
  | plain g plain twins ih => exact .plain g plain ih

/-- Frames without a slot on top of a call are on top of it over other slots. -/
theorem below_plain (top : List Frame) {rest base : List Frame} (plain : ∀ f ∈ top, f.hasSlot = false)
    (twins : Twins lower lower' above slots above' slots') (stack : top ++ rest = above ++ base) :
    ∃ middle middle', rest = middle ++ base ∧ above' = top ++ middle' ∧
      Twins lower lower' middle slots middle' slots' := by
  induction top generalizing above above' with
  | nil => exact ⟨above, above', stack, rfl, twins⟩
  | cons f top ih =>
      have onTop := plain f List.mem_cons_self
      cases twins with
      | call c slot =>
          obtain ⟨rfl, -⟩ := List.cons.inj stack
          cases onTop
      | hostCall c slot twins =>
          obtain ⟨rfl, -⟩ := List.cons.inj stack
          cases onTop
      | thread saved state own twins =>
          obtain ⟨rfl, -⟩ := List.cons.inj stack
          cases onTop
      | plain g _ twins =>
          obtain ⟨rfl, stack'⟩ := List.cons.inj stack
          obtain ⟨middle, middle', rest, rfl, inner⟩ :=
            ih (fun g mem => plain g (List.mem_cons_of_mem f mem)) twins stack'
          exact ⟨middle, middle', rest, rfl, inner⟩

/-- Below a host call stands another one, or what the call was made over. -/
theorem below_hostCall {c : HostCall} {rest base : List Frame}
    (twins : Twins lower lower' above slots above' slots') (stack : .hostCall c :: rest = above ++ base) :
    ∃ slot tail tail' middle', slots = slot :: tail ∧ slots' = slot :: tail' ∧
      above' = .hostCall c :: middle' ∧
        (rest = base ∧ middle' = [] ∧ tail = lower ∧ tail' = lower' ∨
          ∃ middle, rest = middle ++ base ∧ Twins lower lower' middle tail middle' tail') := by
  cases twins with
  | call c' slot =>
      obtain ⟨same, rfl⟩ := List.cons.inj stack
      cases same
      exact ⟨slot, lower, lower', [], rfl, rfl, rfl, .inl ⟨rfl, rfl, rfl, rfl⟩⟩
  | hostCall c' slot twins =>
      obtain ⟨same, rfl⟩ := List.cons.inj stack
      cases same
      exact ⟨slot, _, _, _, rfl, rfl, rfl, .inr ⟨_, rfl, twins⟩⟩
  | thread saved state own twins => cases (List.cons.inj stack).1
  | plain f plain twins =>
      obtain ⟨rfl, -⟩ := List.cons.inj stack
      cases plain

/-- Below a thread waits the one that started it. -/
theorem below_thread {saved : Context} {state : ThreadState} {rest base : List Frame}
    (twins : Twins lower lower' above slots above' slots')
    (stack : .thread saved state :: rest = above ++ base) :
    ∃ middle middle' waiting, rest = middle ++ base ∧
      above' = .thread saved { state with frames := waiting } :: middle' ∧
      Twins lower lower' middle state.frames middle' waiting := by
  cases twins with
  | call c slot => cases (List.cons.inj stack).1
  | hostCall c slot twins => cases (List.cons.inj stack).1
  | thread saved' state' own twins =>
      obtain ⟨same, rfl⟩ := List.cons.inj stack
      cases same
      exact ⟨_, _, _, rfl, rfl, twins⟩
  | plain f plain twins =>
      obtain ⟨rfl, -⟩ := List.cons.inj stack
      cases plain

end Twins

namespace Machine

variable {m : Machine}

def Beside (m there : Machine) (base : List Frame) (lower lower' : List (Option Fault)) : Prop :=
  ∃ above above' slots', m.stack = above ++ base ∧ there = m.onto (above' ++ base) slots' ∧
    Twins lower lower' above m.world.thread.frames above' slots'

/-- A call has ended, here and over other slots: it has left the slots it was made over alone. -/
structure Rejoins (m there : Machine) (base : List Frame) (lower lower' : List (Option Fault)) : Prop where
  stack : m.stack = base
  frames : m.world.thread.frames = lower
  same : there = m.onto base lower'

variable {there : Machine} {base : List Frame} {lower lower' : List (Option Fault)}

theorem Beside.above (beside : m.Beside there base lower lower') :
    m.stack ≠ base ∧ there.stack ≠ base := by
  obtain ⟨above, above', slots', stack, rfl, twins⟩ := beside
  constructor
  · intro same
    exact twins.ne_nil.1 (List.append_left_eq_self.mp (stack.symm.trans same))
  · intro same
    exact twins.ne_nil.2 (List.append_left_eq_self.mp same)

/-- A transition of a call does the same over other slots. -/
theorem InOrder.beside (inOrder : m.InOrder) (beside : m.Beside there base lower lower') :
    m.step.Beside there.step base lower lower' ∨ m.step.Rejoins there.step base lower lower' := by
  obtain ⟨above, above', slots', stack, rfl, twins⟩ := beside
  cases inOrder.moves.1 with
  | stays top new rest core stack' plain plain' same silent =>
      obtain ⟨middle, middle', rfl, rfl, inner⟩ :=
        Twins.below_plain top plain twins (stack'.symm.trans stack)
      have here := step_here stack' rfl (same (middle ++ base) m.world.thread.frames)
      left
      rw [here, List.append_assoc, same]
      exact ⟨new ++ middle, new ++ middle', slots', (List.append_assoc ..).symm,
        by rw [onto_onto, List.append_assoc], inner.append plain'⟩
  | calls f rest core c' stack' plain same enters silent =>
      obtain ⟨middle, middle', rfl, rfl, inner⟩ :=
        Twins.below_plain [f] (by simpa using plain) twins (stack'.symm.trans stack)
      have here := step_here stack' rfl (same (middle ++ base) m.world.thread.frames)
      left
      rw [here]
      exact ⟨.hostCall c' :: f :: middle, .hostCall c' :: f :: middle', none :: slots', rfl,
        same (middle' ++ base) slots', .hostCall c' none (.plain f plain inner)⟩
  | leaves saved rest f core stack' same answer panics =>
      obtain ⟨middle, middle', rfl, rfl, inner⟩ :=
        Twins.below_plain [.activation saved] (by simp [Frame.hasSlot]) twins (stack'.symm.trans stack)
      have here := step_here stack' rfl (same (middle ++ base) m.world.thread.frames)
      left
      rw [here]
      refine ⟨middle, middle', parkedIn f slots', rfl, ?_, inner.parkedIn f⟩
      rw [twins.head]
      exact same (middle' ++ base) slots'
  | returns c' rest r core stack' control same resumes silent =>
      obtain ⟨slot, tail, tail', middle', frames, rfl, rfl, ended | ⟨middle, rfl, inner⟩⟩ :=
        twins.below_hostCall (stack'.symm.trans stack)
      · obtain ⟨rfl, rfl, rfl, rfl⟩ := ended
        have here := step_here stack' frames (same rest slot tail)
        right
        rw [here]
        exact ⟨rfl, rfl, same rest slot tail'⟩
      · have here := step_here stack' frames (same (middle ++ base) slot tail)
        left
        rw [here]
        exact ⟨middle, middle', tail', rfl, same (middle' ++ base) slot tail', inner⟩
  | forks f rest body core stack' plain same silent =>
      obtain ⟨middle, middle', rfl, rfl, inner⟩ :=
        Twins.below_plain [f] (by simpa using plain) twins (stack'.symm.trans stack)
      have here := step_here stack' rfl (same (middle ++ base) m.world.thread.frames)
      left
      rw [here]
      exact ⟨.block true 0 body :: .thread m.context _ :: f :: middle,
        .block true 0 body :: .thread m.context _ :: f :: middle', [], rfl,
        same (middle' ++ base) slots',
        .plain _ rfl (.thread m.context m.world.thread [] (.plain f plain inner))⟩
  | joins saved state rest core stack' same silent =>
      obtain ⟨middle, middle', waiting, rfl, rfl, inner⟩ := twins.below_thread (stack'.symm.trans stack)
      have here := step_here stack' rfl (same (middle ++ base) state.frames m.world.thread.frames)
      left
      rw [here]
      exact ⟨middle, middle', waiting, rfl, same (middle' ++ base) waiting slots', inner⟩
  | ends stack' halts silent =>
      exact absurd (List.append_eq_nil_iff.mp (stack.symm.trans stack')).1 twins.ne_nil.1

/-- A step that calls begins in the same way over other slots. -/
theorem Calls.beside (calls : m.Calls) (lower' : List (Option Fault)) :
    m.step.Beside (m.onto m.stack lower').step m.stack m.world.thread.frames lower' ∨
      m.step.Rejoins (m.onto m.stack lower').step m.stack m.world.thread.frames lower' := by
  obtain ⟨control, outer, index, g, s, rest, below, stack, callee⟩ := calls
  cases aborted : m.world.aborted with
  | some op =>
      right
      rw [step_aborted aborted, step_aborted (m := m.onto m.stack lower') aborted]
      exact ⟨rfl, rfl, rfl⟩
  | none =>
      have begins (xs : List (Option Fault)) :
          BeginsCall m m.stack xs m.step (m.onto m.stack xs).step := by
        rw [step_run aborted control stack, step_run (m := m.onto m.stack xs) aborted control stack]
        rcases callee with ⟨v, args, names, rfl⟩ | ⟨v, args, names, rfl⟩
        · exact beginsCall_call m v args names
        · exact beginsCall_typedCall m v args names
      cases begins lower' with
      | ends finishes =>
          right
          obtain ⟨c, ended⟩ := finishes.ended
          cases begins m.world.thread.frames with
          | ends here =>
              obtain ⟨stack', frames⟩ := here.toBlind.kept
              exact ⟨stack', frames, finishes.same⟩
          | opens c n args slots stack' frames context control' same =>
              cases ended.symm.trans control'
      | opens c n args slots stack' frames context control' same =>
          left
          refine ⟨[.hostCall c], [.hostCall c], none :: lower', stack', same, ?_⟩
          rw [frames]
          exact .call c none

/-- Until a call has ended it runs over other slots as well, and there it ends in the same way. -/
theorem Calls.runs (calls : m.Calls) (inOrder : ∀ j, (Machine.step^[j] m).InOrder) {k : Nat}
    (within : ∀ j < k, (Machine.step^[j + 1] m).stack ≠ m.stack) (lower' : List (Option Fault)) :
    (Machine.step^[k + 1] m).Beside (Machine.step^[k + 1] (m.onto m.stack lower')) m.stack
        m.world.thread.frames lower' ∨
      (Machine.step^[k + 1] m).Rejoins (Machine.step^[k + 1] (m.onto m.stack lower')) m.stack
        m.world.thread.frames lower' := by
  induction k with
  | zero => exact calls.beside lower'
  | succ k ih =>
      rcases ih fun j less => within j (Nat.lt_succ_of_lt less) with beside | ended
      · rw [Function.iterate_succ_apply', Function.iterate_succ_apply' _ _ (m.onto m.stack lower')]
        exact (inOrder (k + 1)).beside beside
      · exact absurd ended.stack (within k (Nat.lt_succ_self k))

end Machine

end HostEmbedding
