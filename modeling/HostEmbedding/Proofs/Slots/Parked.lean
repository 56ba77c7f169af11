import HostEmbedding.Proofs.Slots.Running

/-!
# The slot of a running call

While a host call runs, its frame stands on the stack and its slot is among those of its thread, which
runs or waits. The slot changes only when a panic reaches the engine while it is the innermost one, and
it keeps the first of these panics until the call ends.
-/

namespace HostEmbedding

namespace Frame

/-- The slots under some frames, given those of the thread that runs: each host call has its own, and a
thread has none of those of the thread that waits. -/
def slotsUnder : List Frame → List (Option Fault) → List (Option Fault)
  | [], slots => slots
  | .hostCall _ :: rest, slots => slotsUnder rest slots.tail
  | .thread _ state :: rest, _ => slotsUnder rest state.frames
  | _ :: rest, slots => slotsUnder rest slots

theorem slotsUnder_cons {f : Frame} (plain : f.hasSlot = false) (rest : List Frame)
    (slots : List (Option Fault)) : slotsUnder (f :: rest) slots = slotsUnder rest slots := by
  cases f with
  | hostCall c => cases plain
  | thread saved state => cases plain
  | _ => rfl

theorem slotsUnder_append {top : List Frame} (plain : ∀ f ∈ top, f.hasSlot = false)
    (rest : List Frame) (slots : List (Option Fault)) :
    slotsUnder (top ++ rest) slots = slotsUnder rest slots := by
  induction top with
  | nil => rfl
  | cons f top ih =>
      rw [List.cons_append, slotsUnder_cons (plain f List.mem_cons_self)]
      exact ih fun g mem => plain g (List.mem_cons_of_mem f mem)

/-- Parking changes the slots under some frames only if none of them has a slot. -/
theorem slotsUnder_parkedIn (f : Fault) (above : List Frame) (slots : List (Option Fault)) :
    slotsUnder above (parkedIn f slots) =
      if above.all fun g => !g.hasSlot then parkedIn f (slotsUnder above slots)
      else slotsUnder above slots := by
  induction above generalizing slots with
  | nil => rfl
  | cons g above ih =>
      cases plain : g.hasSlot with
      | false =>
          rw [slotsUnder_cons plain, slotsUnder_cons plain, ih, List.all_cons, plain]
          rfl
      | true =>
          rw [List.all_cons, plain]
          cases g with
          | hostCall c =>
              match slots with
              | [] => rfl
              | none :: rest => rfl
              | some h :: rest => rfl
          | thread saved state => rfl
          | _ => cases plain

/-- Frames without a slot that stand on a stack stand above a frame that has one. -/
theorem append_of_plain (top : List Frame) {rest above below : List Frame} {f : Frame}
    (stack : top ++ rest = above ++ f :: below) (plain : ∀ g ∈ top, g.hasSlot = false)
    (slot : f.hasSlot = true) : ∃ middle, above = top ++ middle ∧ rest = middle ++ f :: below := by
  rcases List.append_eq_append_iff.mp stack with ⟨middle, above', rest'⟩ | ⟨middle, top', below'⟩
  · exact ⟨middle, above', rest'⟩
  · cases middle with
    | nil => exact ⟨[], by rw [top']; simp, below'.symm⟩
    | cons g middle =>
        obtain ⟨rfl, -⟩ := List.cons.inj below'
        have mem : f ∈ top := by
          rw [top']
          exact List.mem_append_right above List.mem_cons_self
        rw [plain f mem] at slot
        cases slot

end Frame

namespace Machine

def above (m : Machine) (base : List Frame) : List Frame :=
  m.stack.take (m.stack.length - base.length)

/-- The slots under the frames above others. -/
def slotsAt (m : Machine) (base : List Frame) : List (Option Fault) :=
  Frame.slotsUnder (m.above base) m.world.thread.frames

/-- The panic that the next transition takes to the engine while no slot stands above some frames. -/
def reaching? (m : Machine) (base : List Frame) : Option Fault :=
  if (m.above base).all fun f => !f.hasSlot then m.panic? else none

variable {m : Machine} {c : HostCall} {below above : List Frame}

theorem above_eq {base : List Frame} (stack : m.stack = above ++ base) : m.above base = above := by
  simp [Machine.above, stack]

theorem reaching?_of_silent {base : List Frame} (silent : m.panic? = none) :
    m.reaching? base = none := by
  unfold reaching?
  rw [silent, ite_self]

/-- A transition while a host call runs: the call is still running, or the engine has returned to it. -/
inductive Tracks (m : Machine) (c : HostCall) (below : List Frame) (slot : Option Fault)
    (lower : List (Option Fault)) : Prop
  /-- A panic that the slot is the innermost one for is parked in it or answered with its text. -/
  | stays (above : List Frame) (stack : m.step.stack = above ++ .hostCall c :: below)
      (slots : Frame.slotsUnder above m.step.world.thread.frames =
        slot.or (m.reaching? (.hostCall c :: below)) :: lower)
      (answer : ∀ f, m.reaching? (.hostCall c :: below) = some f →
        m.step.control = .engine (.error (answerTo f (some slot))))
  | ends (stack : m.stack = .hostCall c :: below) (returns : ∃ r, m.control = .engine r)
      (silent : m.panic? = none) (stack' : m.step.stack = below)

section

variable {slot : Option Fault} {lower : List (Option Fault)}
variable (slots : Frame.slotsUnder above m.world.thread.frames = slot :: lower)

include slots

/-- Nothing has reached the engine. -/
theorem tracks_of_silent (silent : m.panic? = none) (later : List Frame)
    (stack : m.step.stack = later ++ .hostCall c :: below)
    (kept : Frame.slotsUnder later m.step.world.thread.frames =
      Frame.slotsUnder above m.world.thread.frames) : m.Tracks c below slot lower := by
  have none : m.reaching? (.hostCall c :: below) = none := reaching?_of_silent silent
  refine .stays later stack ?_ fun f some => ?_
  · rw [none, Option.or_none, kept, slots]
  · rw [none] at some
    cases some

/-- A panic has left a body. -/
theorem tracks_leaves (stack : m.stack = above ++ .hostCall c :: below) {saved : Context}
    {rest : List Frame} {f : Fault} (top : above = .activation saved :: rest)
    (stack' : m.step.stack = rest ++ .hostCall c :: below)
    (frames : m.step.world.thread.frames = parkedIn f m.world.thread.frames)
    (answer : m.step.control = .engine (.error (answerTo f m.world.thread.frames.head?)))
    (panics : m.panic? = some f) : m.Tracks c below slot lower := by
  subst top
  have under : Frame.slotsUnder rest m.world.thread.frames = slot :: lower := slots
  have reaching : m.reaching? (.hostCall c :: below) =
      if rest.all fun g => !g.hasSlot then some f else none := by
    unfold reaching?
    rw [above_eq stack, panics]
    rfl
  by_cases plain : (rest.all fun g => !g.hasSlot) = true
  · rw [if_pos plain] at reaching
    have innermost : m.world.thread.frames = slot :: lower := by
      have plain : ∀ g ∈ rest, g.hasSlot = false := by simpa using plain
      have same := Frame.slotsUnder_append plain [] m.world.thread.frames
      rw [List.append_nil] at same
      exact same.symm.trans under
    refine .stays rest stack' ?_ fun g some => ?_
    · rw [frames, Frame.slotsUnder_parkedIn, if_pos plain, under, reaching]
      cases slot <;> rfl
    · cases reaching.symm.trans some
      rw [answer, innermost]
      rfl
  · rw [if_neg plain] at reaching
    refine .stays rest stack' ?_ fun g some => ?_
    · rw [frames, Frame.slotsUnder_parkedIn, if_neg plain, under, reaching, Option.or_none]
    · cases reaching.symm.trans some

theorem InOrder.tracks (inOrder : m.InOrder) (stack : m.stack = above ++ .hostCall c :: below) :
    m.Tracks c below slot lower := by
  cases inOrder.moves.1 with
  | stays top new rest core stack' plain plain' same silent =>
      obtain ⟨middle, rfl, rfl⟩ := Frame.append_of_plain top (stack'.symm.trans stack) plain rfl
      have here := step_here stack' rfl (same (middle ++ .hostCall c :: below) m.world.thread.frames)
      refine tracks_of_silent slots silent (new ++ middle) ?_ ?_
      · rw [here, List.append_assoc]
        rfl
      · rw [here, Frame.slotsUnder_append plain, Frame.slotsUnder_append plain']
        rfl
  | calls f rest core c' stack' plain same enters silent =>
      obtain ⟨middle, rfl, rfl⟩ := Frame.append_of_plain [f] (stack'.symm.trans stack)
        (by simpa using plain) rfl
      have here := step_here stack' rfl (same (middle ++ .hostCall c :: below) m.world.thread.frames)
      refine tracks_of_silent slots silent (.hostCall c' :: f :: middle) ?_ ?_
      · rw [here]
        rfl
      · rw [here]
        rfl
  | leaves saved rest f core stack' same answer panics =>
      obtain ⟨middle, top, rfl⟩ := Frame.append_of_plain [.activation saved]
        (stack'.symm.trans stack) (by simp [Frame.hasSlot]) rfl
      have here := step_here stack' rfl (same (middle ++ .hostCall c :: below) m.world.thread.frames)
      refine tracks_leaves slots stack top ?_ ?_ ?_ panics
      · rw [here]
        rfl
      · rw [here]
        rfl
      · rw [here]
        exact answer _
  | returns c' rest r core stack' control same resumes silent =>
      obtain ⟨-, slot', lower', frames, -⟩ := Nested.of_hostCall (stack' ▸ inOrder.nested)
      have here := step_here stack' frames (same rest slot' lower')
      cases above with
      | nil =>
          obtain ⟨-, rfl⟩ := List.cons.inj (stack'.symm.trans stack)
          refine .ends stack ⟨r, control⟩ silent ?_
          rw [here]
          rfl
      | cons g middle =>
          obtain ⟨rfl, rfl⟩ := List.cons.inj (stack'.symm.trans stack)
          refine tracks_of_silent slots silent middle ?_ ?_
          · rw [here]
            rfl
          · rw [here, frames]
            rfl
  | forks f rest body core stack' plain same silent =>
      obtain ⟨middle, rfl, rfl⟩ := Frame.append_of_plain [f] (stack'.symm.trans stack)
        (by simpa using plain) rfl
      have here := step_here stack' rfl (same (middle ++ .hostCall c :: below) m.world.thread.frames)
      refine tracks_of_silent slots silent (.block true 0 body ::
        .thread m.context { m.world.thread with frames := m.world.thread.frames } :: f :: middle) ?_ ?_
      · rw [here]
        rfl
      · rw [here]
        rfl
  | joins saved state rest core stack' same silent =>
      have here := step_here stack' rfl (same rest state.frames m.world.thread.frames)
      cases above with
      | nil => cases stack'.symm.trans stack
      | cons g middle =>
          obtain ⟨rfl, rfl⟩ := List.cons.inj (stack'.symm.trans stack)
          refine tracks_of_silent slots silent middle ?_ ?_
          · rw [here]
            rfl
          · rw [here]
            rfl
  | ends stack' halts silent =>
      rw [stack'] at stack
      cases above <;> cases stack

end

/-- A host call stands on the stack after a transition: it stood there before, or it has just been
opened. -/
theorem InOrder.stood (inOrder : m.InOrder) (stands : .hostCall c :: below <:+ m.step.stack) :
    .hostCall c :: below <:+ m.stack ∨
      m.step.stack = .hostCall c :: below ∧
        m.step.world.thread.frames = none :: m.world.thread.frames ∧
        ∃ n args slots, m.step.control = .enter n args slots := by
  obtain ⟨above, stands⟩ := stands
  cases inOrder.moves.1 with
  | stays top new rest core stack plain plain' same silent =>
      have here := step_here stack rfl (same rest m.world.thread.frames)
      rw [here] at stands
      obtain ⟨middle, -, rfl⟩ := Frame.append_of_plain new stands.symm plain' rfl
      left
      rw [stack]
      exact ⟨top ++ middle, List.append_assoc ..⟩
  | calls f rest core c' stack plain same enters silent =>
      have here := step_here stack rfl (same rest m.world.thread.frames)
      rw [here] at stands ⊢
      cases above with
      | nil =>
          right
          exact ⟨stands.symm, rfl, enters⟩
      | cons g above =>
          left
          rw [stack]
          exact ⟨above, (List.cons.inj stands).2⟩
  | leaves saved rest f core stack same answer panics =>
      have here := step_here stack rfl (same rest m.world.thread.frames)
      rw [here] at stands
      left
      rw [stack]
      exact ⟨.activation saved :: above, congrArg _ stands⟩
  | returns c' rest r core stack control same resumes silent =>
      obtain ⟨-, slot, lower, frames, -⟩ := Nested.of_hostCall (stack ▸ inOrder.nested)
      have here := step_here stack frames (same rest slot lower)
      rw [here] at stands
      left
      rw [stack]
      exact ⟨.hostCall c' :: above, congrArg _ stands⟩
  | forks f rest body core stack plain same silent =>
      have here := step_here stack rfl (same rest m.world.thread.frames)
      rw [here] at stands
      left
      rw [stack]
      obtain ⟨middle, -, waits⟩ := Frame.append_of_plain [.block true 0 body] stands.symm
        (by simp [Frame.hasSlot]) rfl
      cases middle with
      | nil => cases waits
      | cons g middle => exact ⟨middle, (List.cons.inj waits).2.symm⟩
  | joins saved state rest core stack same silent =>
      have here := step_here stack rfl (same rest state.frames m.world.thread.frames)
      rw [here] at stands
      left
      rw [stack]
      exact ⟨.thread saved state :: above, congrArg _ stands⟩
  | ends stack halts silent =>
      rw [halts] at stands
      cases above <;> cases stands

end Machine

end HostEmbedding
