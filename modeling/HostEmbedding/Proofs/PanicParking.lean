import HostEmbedding.Proofs.Slots.Parked
import HostEmbedding.Proofs.Slots.Twins

/-!
# Panics that reach the engine

Any number of panics can reach the engine while one host call runs: its closure can end in one, and so
can functions entered by their raw pointers, which open no slot. The first one is parked in the slot of
the call, later ones become ordinary traps, and in the end the call resumes the first one.
-/

namespace HostEmbedding

namespace Machine

/-! ## Parking on a run -/

/-- A host call has opened its frame and its slot and is about to enter the engine. -/
structure Opens (m : Machine) (c : HostCall) (below : List Frame) (lower : List (Option Fault)) :
    Prop where
  stack : m.stack = .hostCall c :: below
  frames : m.world.thread.frames = none :: lower
  control : ∃ n args slots, m.control = .enter n args slots

def Stays (run : Nat → Machine) (n k : Nat) (base : List Frame) : Prop :=
  ∀ j ≤ k, base <:+ (run (n + j)).stack

/-- The panics that reach the engine within some transitions while no slot stands above some frames,
the first one first. -/
def reached (run : Nat → Machine) (n k : Nat) (base : List Frame) : List Fault :=
  (List.range k).filterMap fun j => (run (n + j)).reaching? base

/-- What has become of the panics that have reached the engine in a host call, `k` transitions after it
was opened. -/
structure Parks (run : Nat → Machine) (n k : Nat) (c : HostCall) (below : List Frame)
    (lower : List (Option Fault)) : Prop where
  /-- The slot of the call holds the first of them, and the slots below are left alone. -/
  slots : (run (n + k)).slotsAt (.hostCall c :: below) =
    (reached run n k (.hostCall c :: below)).head? :: lower
  /-- The first panic is answered with the sentinel. -/
  first : ∀ f, reached run n k (.hostCall c :: below) = [] →
    (run (n + k)).reaching? (.hostCall c :: below) = some f →
    (run (n + k + 1)).control = .engine (.error (.ofMessage "host function panicked"))
  /-- A later one is answered with an ordinary trap that has its text. -/
  later : ∀ f, reached run n k (.hostCall c :: below) ≠ [] →
    (run (n + k)).reaching? (.hostCall c :: below) = some f →
    (run (n + k + 1)).control = .engine (.error (.ofMessage ("host function panicked: " ++ f.message)))
  /-- When the engine returns to the call, the call resumes the first one, whatever was returned. -/
  resumes : ∀ r, (run (n + k)).world.aborted = none → (run (n + k)).stack = .hostCall c :: below →
    (run (n + k)).control = .engine r →
    (run (n + k + 1)).stack = below ∧ (run (n + k + 1)).world.thread.frames = lower ∧
      ∀ f, (reached run n k (.hostCall c :: below)).head? = some f →
        (run (n + k + 1)).control = .complete (.panicked f)
  /-- The call ends in no other way. -/
  ends : ¬ .hostCall c :: below <:+ (run (n + k + 1)).stack →
    (run (n + k)).world.aborted = none ∧ (run (n + k)).stack = .hostCall c :: below ∧
      ∃ r, (run (n + k)).control = .engine r

/-- What has become of a panic on a thread that has no slot: the trap it was turned into goes through the
native callbacks that have called on, and ends the call by raw pointer. -/
structure Frameless (run : Nat → Machine) (n : Nat) (t : NativeTrap) (callbacks : List CallbackRun)
    (name : Option VarName) (below : List Frame) : Prop where
  stack : (run n).stack = callbacks.map .callback ++ .nativeCall name :: below
  answer : (run n).control = .engine (.error t)
  passes : (run n).world.aborted = none → ∀ j ≤ callbacks.length,
    (run (n + j)).control = .engine (.error t)
  ends : (run n).world.aborted = none →
    (run (n + callbacks.length + 1)).stack = below ∧
      (run (n + callbacks.length + 1)).control = .complete (.done (.nativeTrap t))

/-- A call has come to a state in which it has ended or not, the same as over any other slots. -/
structure Own (before after : Machine) (k : Nat) : Prop where
  frames : after.stack = before.stack → after.world.thread.frames = before.world.thread.frames
  same : after.stack = before.stack → ∀ slots,
    Machine.step^[k] (before.onto before.stack slots) = after.onto before.stack slots
  runs : after.stack ≠ before.stack → ∀ slots,
    (Machine.step^[k] (before.onto before.stack slots)).stack ≠ before.stack

/-- How panics that reach the engine are parked on a run. -/
structure PanicParking (run : Nat → Machine) : Prop where
  /-- Every host call on the stack has been opened, and has stayed there since. -/
  opens : ∀ i c below, .hostCall c :: below <:+ (run i).stack →
    ∃ n k lower, i = n + k ∧ (run n).Opens c below lower ∧ Stays run n k (.hostCall c :: below)
  /-- While a host call runs. -/
  parks : ∀ n k c below lower, (run n).Opens c below lower → Stays run n k (.hostCall c :: below) →
    Parks run n k c below lower
  /-- A call leaves the slots it is made over alone. Over any others, as when nothing is parked, it
  ends after as many transitions if it ends, and in the same way. -/
  own : ∀ n k, (run n).Calls → (∀ j < k, (run (n + j + 1)).stack ≠ (run n).stack) →
    Own (run n) (run (n + k + 1)) (k + 1)
  /-- On a thread without a slot no panic unwinds. -/
  frameless : ∀ n f, (run n).world.thread.frames = [] → (run n).panic? = some f →
    ∃ callbacks name below, Frameless run (n + 1)
      (.ofMessage ("host function panicked: " ++ f.message)) callbacks name below

/-! ## While a host call runs -/

section

variable {run : Nat → Machine} (steps : ∀ n, run (n + 1) = (run n).step)
variable (inOrder : ∀ n, (run n).InOrder)

theorem reached_succ (run : Nat → Machine) (n k : Nat) (base : List Frame) :
    reached run n (k + 1) base = reached run n k base ++ ((run (n + k)).reaching? base).toList := by
  unfold reached
  rw [List.range_succ, List.filterMap_append]
  cases reaching : (run (n + k)).reaching? base <;> simp [reaching]

theorem head?_reached_succ (run : Nat → Machine) (n k : Nat) (base : List Frame) :
    (reached run n (k + 1) base).head? =
      (reached run n k base).head?.or ((run (n + k)).reaching? base) := by
  rw [reached_succ, List.head?_append]
  cases (run (n + k)).reaching? base <;> rfl

theorem not_suffix_below {f : Frame} {below : List Frame} : ¬ f :: below <:+ below := fun suffix => by
  have length := suffix.length_le
  rw [List.length_cons] at length
  omega

include steps inOrder

theorem opened {i : Nat} {c : HostCall} {below : List Frame}
    (idle : ¬ .hostCall c :: below <:+ (run 0).stack)
    (stands : .hostCall c :: below <:+ (run i).stack) :
    ∃ n k lower, i = n + k ∧ (run n).Opens c below lower ∧ Stays run n k (.hostCall c :: below) := by
  induction i with
  | zero => exact absurd stands idle
  | succ i ih =>
      rw [steps] at stands
      rcases (inOrder i).stood stands with stood | ⟨stack, frames, enters⟩
      · obtain ⟨n, k, lower, rfl, opens, stays⟩ := ih stood
        refine ⟨n, k + 1, lower, rfl, opens, fun j le => ?_⟩
        rcases Nat.lt_or_eq_of_le le with less | rfl
        · exact stays j (Nat.le_of_lt_succ less)
        · rw [← steps] at stands
          exact stands
      · rw [← steps] at stack frames enters
        refine ⟨i + 1, 0, (run i).world.thread.frames, rfl, ⟨stack, frames, enters⟩, fun j le => ?_⟩
        rw [Nat.le_zero.mp le]
        exact stack ▸ List.suffix_rfl

/-- Every transition of a call leaves the first panic in its slot. -/
theorem Opens.parked {n k : Nat} {c : HostCall} {below : List Frame} {lower : List (Option Fault)}
    (opens : (run n).Opens c below lower) (stays : Stays run n k (.hostCall c :: below)) :
    ∃ above, (run (n + k)).stack = above ++ .hostCall c :: below ∧
      Frame.slotsUnder above (run (n + k)).world.thread.frames =
        (reached run n k (.hostCall c :: below)).head? :: lower := by
  induction k with
  | zero => exact ⟨[], opens.stack, opens.frames⟩
  | succ k ih =>
      obtain ⟨above, stack, slots⟩ := ih fun j le => stays j (by omega)
      have next : run (n + (k + 1)) = (run (n + k)).step := steps (n + k)
      rw [head?_reached_succ, next]
      cases (inOrder (n + k)).tracks slots stack with
      | stays later stack' slots' answer => exact ⟨later, stack', slots'⟩
      | ends stack returns silent stack' =>
          have suffix := stays (k + 1) (Nat.le_refl _)
          rw [next, stack'] at suffix
          exact absurd suffix not_suffix_below

theorem Opens.parks {n k : Nat} {c : HostCall} {below : List Frame} {lower : List (Option Fault)}
    (opens : (run n).Opens c below lower) (stays : Stays run n k (.hostCall c :: below)) :
    Parks run n k c below lower := by
  obtain ⟨above, stack, slots⟩ := opens.parked steps inOrder stays
  have answers (f : Fault) (reaching : (run (n + k)).reaching? (.hostCall c :: below) = some f) :
      (run (n + k + 1)).control =
        .engine (.error (answerTo f (some (reached run n k (.hostCall c :: below)).head?))) := by
    rw [steps]
    cases (inOrder (n + k)).tracks slots stack with
    | stays later stack' slots' answer => exact answer f reaching
    | ends stack returns silent stack' =>
        rw [reaching?_of_silent silent] at reaching
        cases reaching
  constructor
  case slots =>
      unfold slotsAt
      rw [above_eq stack, slots]
  case first =>
      intro f none reaching
      rw [answers f reaching, none]
      rfl
  case later =>
      intro f some reaching
      obtain ⟨g, rest, reached⟩ := List.exists_cons_of_ne_nil some
      rw [answers f reaching, reached]
      rfl
  case resumes =>
      intro r alive returned control
      obtain rfl : above = [] := List.append_left_eq_self.mp (stack.symm.trans returned)
      rw [steps, step_hostCall alive control returned slots]
      refine ⟨rfl, rfl, fun f first => ?_⟩
      rw [first]
      rfl
  case ends =>
      intro left
      rw [steps] at left
      cases (inOrder (n + k)).tracks slots stack with
      | stays later stack' slots' answer =>
          rw [stack'] at left
          exact absurd (List.suffix_append later _) left
      | ends top returns silent stack' =>
          refine ⟨?_, top, returns⟩
          by_contra aborted
          obtain ⟨op, aborted⟩ := Option.ne_none_iff_exists'.mp aborted
          rw [step_aborted aborted] at left
          exact left (stack ▸ List.suffix_append above _)

/-! ## Calls of their own -/

/-- A call that is made over other slots. -/
theorem Calls.own {n k : Nat} (calls : (run n).Calls)
    (within : ∀ j < k, (run (n + j + 1)).stack ≠ (run n).stack) :
    Own (run n) (run (n + k + 1)) (k + 1) := by
  have iterate (j : Nat) : Machine.step^[j] (run n) = run (n + j) := by
    induction j with
    | zero => rfl
    | succ j ih => rw [Function.iterate_succ_apply', ih, ← Nat.add_assoc, steps]
  have runs (slots : List (Option Fault)) := calls.runs (k := k) (fun j => iterate j ▸ inOrder (n + j))
    (fun j less => iterate (j + 1) ▸ within j less) slots
  simp only [iterate] at runs
  constructor
  case frames =>
      intro back
      rcases runs [] with beside | ended
      · exact absurd back beside.above.1
      · exact ended.frames
  case same =>
      intro back slots
      rcases runs slots with beside | ended
      · exact absurd back beside.above.1
      · exact ended.same
  case runs =>
      intro away slots
      rcases runs slots with beside | ended
      · exact beside.above.2
      · exact absurd ended.stack away

end

/-! ## Without a slot -/

variable {m : Machine}

/-- Where no slot is open, a panic leaves a body as a trap. -/
theorem InOrder.frameless (inOrder : m.InOrder) (frames : m.world.thread.frames = []) {f : Fault}
    (panics : m.panic? = some f) : m.step.control = .engine (.error (.unparked f)) ∧
      ∃ (callbacks : List CallbackRun) (name : Option VarName) (below : List Frame),
        m.step.stack = callbacks.map Frame.callback ++ .nativeCall name :: below := by
  obtain ⟨move, later⟩ := inOrder.moves
  cases move with
  | leaves saved rest g core stack same answer panics' =>
      cases panics'.symm.trans panics
      have here := step_here stack frames (same rest [])
      have control : m.step.control = .engine (.error (.unparked f)) := by
        rw [here]
        exact answer _
      refine ⟨control, later.nested.frameless ?_ ?_⟩
      · rw [here]
        rfl
      · have suits := later.suits
        rw [control] at suits
        exact suits
  | stays | calls | returns | forks | joins | ends =>
      rename_i silent
      cases silent.symm.trans panics

section

variable {t : NativeTrap} {below : List Frame}
variable (alive : m.world.aborted = none) (control : m.control = .engine (.error t))

include alive control

/-- A native callback passes a trap on. -/
theorem step_callback {c : CallbackRun} (stack : m.stack = .callback c :: below) :
    m.step.stack = below ∧ m.step.control = .engine (.error t) ∧ m.step.world.aborted = none := by
  rw [step_engine alive control, deliverEngine_callback stack]
  exact ⟨rfl, rfl, alive⟩

/-- A call by raw pointer ends with the trap it is told of. -/
theorem step_nativeCall {name : Option VarName} (stack : m.stack = .nativeCall name :: below) :
    m.step.stack = below ∧ m.step.control = .complete (.done (.nativeTrap t)) := by
  have ends := (blind_self m below m.world.thread.frames).endNativeCall name (.error t)
  rw [step_engine alive control, deliverEngine_nativeCall stack]
  refine ⟨congrArg Machine.stack ends.same, ?_⟩
  cases name <;> rfl

end

/-- A trap goes through the callbacks to the call by raw pointer. -/
theorem passes_on {run : Nat → Machine} (steps : ∀ n, run (n + 1) = (run n).step) {t : NativeTrap}
    {name : Option VarName} {below : List Frame} {callbacks : List CallbackRun} {n : Nat}
    (alive : (run n).world.aborted = none) (control : (run n).control = .engine (.error t))
    (stack : (run n).stack = callbacks.map Frame.callback ++ .nativeCall name :: below) :
    (∀ j ≤ callbacks.length, (run (n + j)).control = .engine (.error t)) ∧
      (run (n + callbacks.length + 1)).stack = below ∧
        (run (n + callbacks.length + 1)).control = .complete (.done (.nativeTrap t)) := by
  induction callbacks generalizing n with
  | nil =>
      refine ⟨fun j le => ?_, ?_⟩
      · rw [Nat.le_zero.mp le]
        exact control
      · rw [steps]
        exact step_nativeCall alive control stack
  | cons c callbacks ih =>
      obtain ⟨stack', control', alive'⟩ := step_callback alive control stack
      rw [← steps] at stack' control' alive'
      obtain ⟨passes, ends⟩ := ih alive' control' stack'
      refine ⟨fun j le => ?_, ?_⟩
      · cases j with
        | zero => exact control
        | succ j =>
            rw [show n + (j + 1) = n + 1 + j by omega]
            exact passes j (Nat.le_of_succ_le_succ le)
      · rw [show n + (c :: callbacks).length + 1 = n + 1 + callbacks.length + 1 by
          rw [List.length_cons]; omega]
        exact ends

theorem frameless {run : Nat → Machine} (steps : ∀ n, run (n + 1) = (run n).step)
    (inOrder : ∀ n, (run n).InOrder) {n : Nat} {f : Fault}
    (frames : (run n).world.thread.frames = []) (panics : (run n).panic? = some f) :
    ∃ callbacks name below, Frameless run (n + 1)
      (.ofMessage ("host function panicked: " ++ f.message)) callbacks name below := by
  obtain ⟨control, callbacks, name, below, stack⟩ := (inOrder n).frameless frames panics
  rw [← steps] at control stack
  exact ⟨callbacks, name, below, stack, control, fun alive => (passes_on steps alive control stack).1,
    fun alive => (passes_on steps alive control stack).2⟩

/-! ## Every run -/

/-- On every run of every script, over the public interface or the native one. -/
theorem panicParking_after (level : Option LogLevel) (script : Block) :
    PanicParking (after level script) := by
  have steps := after_succ level script
  have inOrder := inOrder_after level script
  constructor
  case opens =>
      intro i c below stands
      refine opened steps inOrder ?_ stands
      rintro ⟨above, start⟩
      cases above with
      | nil => cases start
      | cons f above => cases above <;> cases (List.cons.inj start).2
  case parks =>
      intro n k c below lower opens stays
      exact opens.parks steps inOrder stays
  case own =>
      intro n k calls within
      exact calls.own steps inOrder within
  case frameless =>
      intro n f frames panics
      exact frameless steps inOrder frames panics

/-- A function whose body calls two functions that panic by their raw pointers, and goes on. -/
def swallowedPanics : Block :=
  [(⟨false, false⟩, .plain (.store (.scoped "s") none)),
    (⟨false, false⟩, .func (.scoped "f") (.scoped "s") (.generic ⟨[], []⟩) "f" false []
      [(⟨false, false⟩, .plain (.panic (.text "first")))]),
    (⟨false, false⟩, .func (.scoped "g") (.scoped "s") (.generic ⟨[], []⟩) "g" false []
      [(⟨false, false⟩, .plain (.panic (.text "second")))]),
    (⟨false, false⟩, .plain (.rawPointer (.scoped "p") (.scoped "f"))),
    (⟨false, false⟩, .plain (.rawPointer (.scoped "q") (.scoped "g"))),
    (⟨false, false⟩, .func (.scoped "h") (.scoped "s") (.generic ⟨[], []⟩) "h" false []
      [(⟨false, false⟩, .nativeCall none (some (.global "p")) (.elements []) ⟨0, false⟩),
        (⟨false, false⟩, .nativeCall none (some (.global "q")) (.elements []) ⟨0, false⟩)]),
    (⟨false, false⟩, .call (.scoped "h") [] [])]

/-- Both panics reach the engine in the one call that is open, and the first one is parked. -/
example : reached (after none swallowedPanics) 13 17 (after none swallowedPanics 13).stack =
      [.text "first", .text "second"] ∧
    (after none swallowedPanics 30).world.thread.frames = [some (.text "first")] := by
  decide +kernel

end Machine

end HostEmbedding
