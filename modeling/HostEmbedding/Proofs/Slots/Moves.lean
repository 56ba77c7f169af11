import HostEmbedding.Proofs.Slots.Beginning
import HostEmbedding.Proofs.Slots.Leaving
import HostEmbedding.Proofs.Slots.Nesting

/-!
# What a transition does to the stack and the slots

A transition puts frames on the stack or takes some from it. The rest of the stack and of the slots has
no part in what it does, except that a panic that leaves a body looks at the innermost slot.
-/

namespace HostEmbedding

namespace Machine

variable {m here : Machine}

/-! ## Transitions -/

/-- The panic that reaches the engine with the next transition: the running body ends in it. -/
def panic? (m : Machine) : Option Fault :=
  if m.world.aborted.isSome then none
  else match m.control, m.stack, m.context with
    | .complete c, .activation _ :: _, .body a => a.fault? c
    | _, _, _ => none

/-- What a transition does to the stack and the slots. What stands below the frames it names is
arbitrary. -/
inductive Move (m : Machine) : Prop
  /-- It exchanges frames on top; the slots stay. -/
  | stays (top new rest : List Frame) (core : Machine) (stack : m.stack = top ++ rest)
      (plain : ∀ f ∈ top, f.hasSlot = false) (plain' : ∀ f ∈ new, f.hasSlot = false)
      (same : ∀ s xs, (m.onto (top ++ s) xs).step = core.onto (new ++ s) xs) (silent : m.panic? = none)
  /-- It starts a host call with an empty slot. -/
  | calls (f : Frame) (rest : List Frame) (core : Machine) (c : HostCall) (stack : m.stack = f :: rest)
      (plain : f.hasSlot = false)
      (same : ∀ s xs, (m.onto (f :: s) xs).step = core.onto (.hostCall c :: f :: s) (none :: xs))
      (enters : ∃ n args slots, core.control = .enter n args slots)
      (silent : m.panic? = none)
  /-- A panic leaves a body. -/
  | leaves (saved : Context) (rest : List Frame) (f : Fault) (core : Option (Option Fault) → Machine)
      (stack : m.stack = .activation saved :: rest)
      (same : ∀ s xs, (m.onto (.activation saved :: s) xs).step = (core xs.head?).onto s (parkedIn f xs))
      (answer : ∀ slot, (core slot).control = .engine (.error (answerTo f slot)))
      (panics : m.panic? = some f)
  /-- A host call ends and closes its slot. -/
  | returns (c : HostCall) (rest : List Frame) (r : EngineResult) (core : Option Fault → Machine)
      (stack : m.stack = .hostCall c :: rest) (control : m.control = .engine r)
      (same : ∀ s slot xs, (m.onto (.hostCall c :: s) (slot :: xs)).step = (core slot).onto s xs)
      (resumes : ∀ f, (core (some f)).control = .complete (.panicked f)) (silent : m.panic? = none)
  /-- It starts a thread, which has no slots. -/
  | forks (f : Frame) (rest : List Frame) (body : Block) (core : Machine) (stack : m.stack = f :: rest)
      (plain : f.hasSlot = false)
      (same : ∀ s xs, (m.onto (f :: s) xs).step = core.onto (.block true 0 body ::
        .thread m.context { m.world.thread with frames := xs } :: f :: s) [])
      (silent : m.panic? = none)
  /-- A thread ends, and the one that waited has its slots again. -/
  | joins (saved : Context) (state : ThreadState) (rest : List Frame) (core : Machine)
      (stack : m.stack = .thread saved state :: rest)
      (same : ∀ s xs ys, (m.onto (.thread saved { state with frames := xs } :: s) ys).step =
        core.onto s xs) (silent : m.panic? = none)
  /-- The script ends. -/
  | ends (stack : m.stack = []) (stack' : m.step.stack = []) (silent : m.panic? = none)

theorem step_aborted {op : GuardedOp} (aborted : m.world.aborted = some op) :
    m.step = { m with control := .halted [] } := by
  unfold Machine.step
  rw [aborted]
  rfl

section

variable (alive : m.world.aborted = none)

include alive

theorem step_run {outer : Bool} {index : Nat} {g : Guard} {step : Step} {rest : Block}
    {below : List Frame} (control : m.control = .run)
    (stack : m.stack = .block outer index ((g, step) :: rest) :: below) :
    m.step = m.begin g step := by
  unfold Machine.step
  rw [alive, control, stack]
  rfl

theorem step_complete {c : Completion} (control : m.control = .complete c) :
    m.step = m.deliver c := by
  unfold Machine.step
  rw [alive, control]
  rfl

theorem step_enter {n : NativeId} {args : List (Slot ObjId)} {slots : SlotArray}
    (control : m.control = .enter n args slots) : m.step = m.enter n args slots := by
  unfold Machine.step
  rw [alive, control]
  rfl

theorem step_engine {r : EngineResult} (control : m.control = .engine r) :
    m.step = m.deliverEngine r := by
  unfold Machine.step
  rw [alive, control]
  rfl

theorem panic?_of_control (control : ∀ c, m.control ≠ .complete c) : m.panic? = none := by
  unfold Machine.panic?
  rw [alive]
  split
  · rfl
  · split
    · next c _ _ _ ended _ _ => exact absurd ended (control c)
    · rfl

end

/-- A transition that exchanges frames on top keeps the frames in order if those it puts there are. -/
theorem stays_inOrder (top new rest : List Frame) (core : Machine) (stack : m.stack = top ++ rest)
    (plain : ∀ f ∈ top, f.hasSlot = false) (plain' : ∀ f ∈ new, f.hasSlot = false)
    (same : ∀ s xs, (m.onto (top ++ s) xs).step = core.onto (new ++ s) xs) (silent : m.panic? = none)
    (nested : Nested core.context (new ++ rest) m.world.thread.frames)
    (suits : core.control.Suits (new ++ rest)) : m.Move ∧ m.step.InOrder := by
  refine ⟨.stays top new rest core stack plain plain' same silent, ?_⟩
  have here := step_here stack rfl (same rest m.world.thread.frames)
  rw [here]
  exact ⟨nested, suits⟩

/-! ## Steps begin -/

theorem Blind.kept (blind : Blind m m.stack m.world.thread.frames here here) :
    here.stack = m.stack ∧ here.world.thread.frames = m.world.thread.frames := by
  constructor
  · rw [blind.same]
    rfl
  · rw [blind.same]
    rfl

/-- A step begins in the same way whatever stands below it. -/
theorem begins_uniform {F : Machine → Machine}
    (begins : ∀ s xs, Begins m s xs (F m) (F (m.onto s xs))) :
    (∀ s xs, Finishes m s xs (F m) (F (m.onto s xs))) ∨
      ∃ new slots, Opened m (F m) new slots ∧
        ∀ s xs, F (m.onto s xs) = (F m).onto (new ++ s) (slots ++ xs) := by
  cases begins m.stack m.world.thread.frames with
  | ends finishes =>
      refine .inl fun s xs => ?_
      cases begins s xs with
      | ends finishes => exact finishes
      | opens new slots opened _ =>
          obtain ⟨c, ended⟩ := finishes.ended
          exact absurd ended (opened.opening.not_ended c)
  | opens new slots opened _ =>
      refine .inr ⟨new, slots, opened, fun s xs => ?_⟩
      cases begins s xs with
      | ends finishes =>
          obtain ⟨c, ended⟩ := finishes.ended
          exact absurd ended (opened.opening.not_ended c)
      | opens new' slots' opened' same =>
          obtain ⟨rfl, rfl⟩ := opened.unique opened'
          exact same

/-- What a step opens is in order over what is there. -/
theorem Opening.inOrder {ctx ctx' : Context} {control : Control} {new stack : List Frame}
    {slots below : List (Option Fault)} (opening : Opening ctx ctx' control new slots)
    (nested : Nested ctx stack below) (off : Frame.OffCall stack) :
    Nested ctx' (new ++ stack) (slots ++ below) ∧ control.Suits (new ++ stack) := by
  cases opening with
  | call => exact ⟨.hostCall nested off, rfl⟩
  | nativeCall => exact ⟨.nativeCall nested off, rfl⟩
  | branch => exact ⟨.block (.branch nested off) rfl, _, _, _, _, rfl⟩
  | loop => exact ⟨.block (.loop nested off) rfl, _, _, _, _, rfl⟩
  | finalizer => exact ⟨.block (.finalizer nested off) rfl, _, _, _, _, rfl⟩

/-- Only a call opens a slot. -/
theorem Opening.call_or_plain {ctx ctx' : Context} {control : Control} {new : List Frame}
    {slots : List (Option Fault)} (opening : Opening ctx ctx' control new slots) :
    (∃ c, new = [.hostCall c] ∧ slots = [none] ∧ ∃ n args slots, control = .enter n args slots) ∨
      (∀ f ∈ new, f.hasSlot = false) ∧ slots = [] := by
  cases opening with
  | call c n args slots => exact .inl ⟨c, rfl, rfl, n, args, slots, rfl⟩
  | nativeCall | branch | loop | finalizer => exact .inr ⟨by simp [Frame.hasSlot], rfl⟩

/-- A block whose steps are done ends. -/
theorem runs_out {outer : Bool} {index : Nat} {below : List Frame} (alive : m.world.aborted = none)
    (control : m.control = .run) (stack : m.stack = .block outer index [] :: below)
    (nested : Nested m.context below m.world.thread.frames) (off : Frame.OffCall below) :
    m.Move ∧ m.step.InOrder := by
  have ends (n : Machine) (alive : n.world.aborted = none) (control : n.control = .run)
      {s : List Frame} (stack : n.stack = .block outer index [] :: s) :
      n.step = { n with stack := s }.finish .ok := by
    unfold Machine.step
    rw [alive, control, stack]
    rfl
  exact stays_inOrder [.block outer index []] [] below (m.finish .ok) stack (by simp [Frame.hasSlot])
    (List.forall_mem_nil _) (fun s xs => ends (m.onto _ xs) alive control rfl)
    (panic?_of_control alive (by simp [control])) nested off

section

variable {outer : Bool} {index : Nat} {g : Guard} {st : Step} {rest : Block} {below : List Frame}
variable (stack : m.stack = .block outer index ((g, st) :: rest) :: below)
variable (nested : Nested m.context m.stack m.world.thread.frames)

include nested stack

/-- A step starts a thread, on which nothing is parked. -/
theorem forks_inOrder {body : Block} (silent : m.panic? = none)
    (begins : ∀ s xs, (m.onto (.block outer index ((g, st) :: rest) :: s) xs).step =
      (m.onto (.block outer index ((g, st) :: rest) :: s) xs).thread body) :
    m.Move ∧ m.step.InOrder := by
  have here := begins below m.world.thread.frames
  rw [← stack, onto_self] at here
  constructor
  · exact .forks _ below body
      { m with world := { m.world with thread := .fresh }, context := .thread, control := .run } stack rfl
      (fun s xs => begins s xs) silent
  · rw [here]
    refine ⟨.block (.thread nested ?_) rfl, _, _, _, _, rfl⟩
    rw [stack]
    rfl

/-- A step ends at once. -/
theorem finishes_inOrder {F : Machine → Machine} (silent : m.panic? = none)
    (begins : ∀ s xs, (m.onto (.block outer index ((g, st) :: rest) :: s) xs).step =
      F (m.onto (.block outer index ((g, st) :: rest) :: s) xs))
    (finishes : ∀ s xs, Finishes m s xs (F m) (F (m.onto s xs))) : m.Move ∧ m.step.InOrder := by
  have plain : ∀ f ∈ [Frame.block outer index ((g, st) :: rest)], f.hasSlot = false := by
    simp [Frame.hasSlot]
  obtain ⟨t, context⟩ := (finishes m.stack m.world.thread.frames).context
  obtain ⟨c, ended⟩ := (finishes m.stack m.world.thread.frames).ended
  refine stays_inOrder [.block outer index ((g, st) :: rest)] [.block outer index ((g, st) :: rest)] below
    (F m) stack plain plain (fun s xs => (begins s xs).trans (finishes _ xs).same) silent ?_ ?_
  · rw [context]
    exact (stack ▸ nested).withLocals t
  · rw [ended]
    rfl

/-- A step puts frames on the stack. -/
theorem opened_inOrder {F : Machine → Machine} (silent : m.panic? = none)
    (begins : ∀ s xs, (m.onto (.block outer index ((g, st) :: rest) :: s) xs).step =
      F (m.onto (.block outer index ((g, st) :: rest) :: s) xs))
    {new : List Frame} {slots : List (Option Fault)} (opened : Opened m (F m) new slots)
    (same : ∀ s xs, F (m.onto s xs) = (F m).onto (new ++ s) (slots ++ xs)) :
    m.Move ∧ m.step.InOrder := by
  have off : Frame.OffCall m.stack := by
    rw [stack]
    rfl
  have elsewhere (s : List Frame) (xs : List (Option Fault)) :
      (m.onto (.block outer index ((g, st) :: rest) :: s) xs).step =
        (F m).onto (new ++ .block outer index ((g, st) :: rest) :: s) (slots ++ xs) :=
    (begins s xs).trans (same _ xs)
  obtain ⟨order, suits⟩ := opened.opening.inOrder nested off
  constructor
  · rcases opened.opening.call_or_plain with ⟨c, rfl, rfl, enters⟩ | ⟨plain, rfl⟩
    · exact .calls _ below (F m) c stack rfl elsewhere enters silent
    · refine .stays [.block outer index ((g, st) :: rest)]
        (new ++ [.block outer index ((g, st) :: rest)]) below (F m) stack (by simp [Frame.hasSlot]) ?_
        (fun s xs => ?_) silent
      · intro f mem
        rcases List.mem_append.mp mem with mem | mem
        · exact plain f mem
        · rw [List.mem_singleton.mp mem]
          rfl
      · rw [List.append_assoc]
        exact elsewhere s xs
  · have here := step_here stack rfl (elsewhere below m.world.thread.frames)
    rw [← stack] at here
    rw [here]
    exact ⟨order, suits⟩

end

theorem InOrder.begins (inOrder : m.InOrder) (alive : m.world.aborted = none)
    (control : m.control = .run) : m.Move ∧ m.step.InOrder := by
  obtain ⟨nested, suits⟩ := inOrder
  rw [control] at suits
  obtain ⟨outer, index, steps, below, stack⟩ := suits
  have silent : m.panic? = none := panic?_of_control alive (by simp [control])
  cases steps with
  | nil =>
      obtain ⟨nestedBelow, off⟩ := Nested.of_block (stack ▸ nested)
      exact runs_out alive control stack nestedBelow off
  | cons first rest =>
      obtain ⟨g, st⟩ := first
      have elsewhere (s : List Frame) (xs : List (Option Fault)) :
          (m.onto (.block outer index ((g, st) :: rest) :: s) xs).step =
            (m.onto (.block outer index ((g, st) :: rest) :: s) xs).begin g st :=
        step_run (m := m.onto _ xs) alive control rfl
      by_cases thread : ∃ body, st = .thread body
      · obtain ⟨body, rfl⟩ := thread
        exact forks_inOrder stack nested silent elsewhere
      · have plain (body : Block) : st ≠ .thread body := fun same => thread ⟨body, same⟩
        rcases begins_uniform (F := fun n => n.begin g st) fun s xs => begins_begin m g plain with
          finishes | ⟨new, slots, opened, same⟩
        · exact finishes_inOrder (F := fun n => n.begin g st) stack nested silent elsewhere finishes
        · exact opened_inOrder (F := fun n => n.begin g st) stack nested silent elsewhere opened same

end Machine

end HostEmbedding
