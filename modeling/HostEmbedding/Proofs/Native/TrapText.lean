import HostEmbedding.Proofs.Interrupts
import HostEmbedding.Proofs.Text.Decoding
import HostEmbedding.Proofs.WrappedFunctions

/-!
# The text of a trap

On its way a trap is sent as the bytes of its text and read back from bytes, again and again. A closure
sends no code. What a trap says stays what it was when it was made, through any number of levels and for
as long as the engine keeps it.
-/

namespace HostEmbedding

/-- A trap that host code returns is sent as the bytes of its text. -/
theorem Trap.toNative_eq (t : Trap) :
    t.toNative = .ofMessage (Lossy.decode (Lossy.encode t.message)) := by
  rw [Lossy.decode_encode]
  rfl

/-- A trap that a call returns is read from the bytes of its text. -/
theorem Trap.ofNative_eq (t : NativeTrap) :
    Trap.ofNative t = ⟨Lossy.decode (Lossy.encode t.message), t.code.bind TrapCode.ofCode?⟩ := by
  rw [Lossy.decode_encode]
  rfl

namespace Machine

variable {m : Machine}

/-! ## One level -/

/-- A trap that says something is on its way: a step has ended in it, or the engine leaves a call with
it. -/
inductive Carries (m : Machine) (text : String) : Prop
  | host (code : Option TrapCode) (control : m.control = .complete (.trapped ⟨text, code⟩))
  | native (code : Option UInt8) (control : m.control = .engine (.error ⟨text, code⟩))

theorem Carries.completes {text : String} (carries : m.Carries text) {how : Completion}
    (control : m.control = .complete how) : ∃ code, m.control = .complete (.trapped ⟨text, code⟩) := by
  cases carries with
  | host code trapped => exact ⟨code, trapped⟩
  | native code left => cases control.symm.trans left

theorem Carries.leaves {text : String} (carries : m.Carries text) {r : EngineResult}
    (control : m.control = .engine r) : ∃ code, m.control = .engine (.error ⟨text, code⟩) := by
  cases carries with
  | host code trapped => cases control.symm.trans trapped
  | native code left => exact ⟨code, left⟩

/-- The next transition lets a trap through: the step of a body does not catch it, a closure that may fail
ends in it, a call in whose slot no panic is parked returns it, or a native callback passes it on. -/
inductive LetsThrough (m : Machine) : Prop
  | block (how : Completion) (control : m.control = .complete how) (a : Activation)
      (context : m.context = .body a) (outer : Bool) (index : Nat) (g : Guard) (s : Step) (rest : Block)
      (below : List Frame) (stack : m.stack = .block outer index ((g, s) :: rest) :: below)
      (uncaught : g.catches = false)
  | branch (how : Completion) (control : m.control = .complete how) (taken : Bool) (below : List Frame)
      (stack : m.stack = .branch taken :: below)
  | loop (how : Completion) (control : m.control = .complete how) (left : Nat) (body : Block)
      (below : List Frame) (stack : m.stack = .loop left body :: below)
  | closure (how : Completion) (control : m.control = .complete how) (a : Activation)
      (context : m.context = .body a) (fallible : a.code.shape.fallible = true) (saved : Context)
      (below : List Frame) (stack : m.stack = .activation saved :: below)
  | call (r : EngineResult) (control : m.control = .engine r) (c : HostCall) (below : List Frame)
      (stack : m.stack = .hostCall c :: below) (empty : m.world.popFrame.1 = none)
  | callback (r : EngineResult) (control : m.control = .engine r) (c : CallbackRun) (below : List Frame)
      (stack : m.stack = .callback c :: below)

section

variable (alive : m.world.aborted = none)

include alive

/-- A closure that may fail and has ended in a trap sends its text and no code. -/
theorem closure_sends {t : Trap} {a : Activation} {saved : Context} {below : List Frame}
    (control : m.control = .complete (.trapped t)) (context : m.context = .body a)
    (fallible : a.code.shape.fallible = true) (stack : m.stack = .activation saved :: below) :
    m.step.control = .engine (.error t.toNative) ∧ m.step.stack = below ∧ m.step.context = saved := by
  have step := step_complete alive control
  unfold Machine.deliver at step
  rw [stack, context] at step
  rw [step]
  unfold Machine.leaveBody World.leaveHost World.deliverHost
  dsimp only
  rw [if_pos fallible]
  exact ⟨rfl, rfl, rfl⟩

/-- A call in whose slot no panic is parked returns the trap that it is left with. -/
theorem call_reads {t : NativeTrap} {c : HostCall} {below : List Frame}
    (control : m.control = .engine (.error t)) (stack : m.stack = .hostCall c :: below)
    (empty : m.world.popFrame.1 = none) :
    m.step.control = .complete (.trapped (.ofNative t)) ∧ m.step.stack = below := by
  have step := step_engine alive control
  unfold Machine.deliverEngine at step
  rw [stack] at step
  rw [step]
  unfold Machine.endCall World.finishCall
  dsimp only
  rw [empty]
  exact ⟨rfl, rfl⟩

/-- A native callback passes on the trap that the call it made has ended in, as it is. -/
theorem callback_hands_on {t : NativeTrap} {c : CallbackRun} {below : List Frame}
    (control : m.control = .engine (.error t)) (stack : m.stack = .callback c :: below) :
    m.step.control = .engine (.error t) ∧ m.step.stack = below := by
  have step := step_engine alive control
  unfold Machine.deliverEngine at step
  rw [stack] at step
  rw [step]
  exact ⟨rfl, rfl⟩

/-- What lets a trap through leaves its text alone. -/
theorem Carries.step {text : String} (carries : m.Carries text) (through : m.LetsThrough) :
    m.step.Carries text := by
  cases through with
  | block how control a context outer index g s rest below stack uncaught =>
      obtain ⟨code, trapped⟩ := carries.completes control
      obtain ⟨-, settled⟩ := m.settle_spec (.trapped ⟨text, code⟩) outer index g s rest below
      have ends : m.context.goesOn g (.trapped ⟨text, code⟩) = false := by
        rw [context]
        simp [Context.goesOn, Completion.isDone, uncaught]
      rw [ends, if_neg Bool.false_ne_true] at settled
      have step := step_complete alive trapped
      unfold Machine.deliver at step
      rw [stack] at step
      exact .host code (by rw [step]; exact settled.2)
  | branch how control taken below stack =>
      obtain ⟨code, trapped⟩ := carries.completes control
      have step := step_complete alive trapped
      unfold Machine.deliver at step
      rw [stack] at step
      exact .host code (by rw [step]; rfl)
  | loop how control left body below stack =>
      obtain ⟨code, trapped⟩ := carries.completes control
      have step := step_complete alive trapped
      unfold Machine.deliver at step
      rw [stack] at step
      exact .host code (by rw [step]; exact trapped)
  | closure how control a context fallible saved below stack =>
      obtain ⟨code, trapped⟩ := carries.completes control
      exact .native none (closure_sends alive trapped context fallible stack).1
  | call r control c below stack empty =>
      obtain ⟨code, left⟩ := carries.leaves control
      exact .host _ (call_reads alive left stack empty).1
  | callback r control c below stack =>
      obtain ⟨code, left⟩ := carries.leaves control
      exact .native code (callback_hands_on alive left stack).1

end

/-! ## Traps made from bytes -/

/-- A native callback that has bytes for a trap ends in the trap that says what they decode to. -/
theorem replyOf_trap {c : CallbackRun} {bytes : List UInt8} (trap : c.code.trap = some bytes) :
    replyOf c = .error (.ofMessage (Lossy.decode bytes)) := by
  unfold replyOf
  rw [trap]

/-- A step that is given the pointer of a live object goes on with it. -/
theorem withPointer_of_named {p : Option VarName} {n : NativeId} {o : Native}
    (named : m.objectNamed? p = some (n, o)) (next : Option NativeId → Machine) :
    m.withPointer p next = next (some n) := by
  have live := native?_of_named named
  unfold objectNamed? at named
  cases p with
  | none => cases named
  | some v =>
      rw [Option.bind_some] at named
      unfold Machine.withPointer
      dsimp only
      cases found : m.lookup v with
      | none =>
          rw [found] at named
          cases named
      | some item =>
          rw [found] at named
          cases item with
          | raw id =>
              obtain ⟨_, -, same⟩ := Option.map_eq_some_iff.mp named
              cases same
              exact if_pos (by rw [live]; rfl)
          | _ => cases named

/-- A native object that is added is kept under the name that it is given. -/
theorem allocNative_kept (m : Machine) (o : Native) (name : VarName) :
    let made := m.world.allocNative o
    let named := (m.withWorld made.2).assign name (.raw made.1)
    m.world.nativeObject? made.1 = none ∧ named.world.nativeObject? made.1 = some o ∧
      named.lookup name = some (.raw made.1) := by
  refine ⟨?_, ?_, lookup_assign _ _ _⟩
  · rw [← Option.not_isSome_iff_eq_none, World.nativeObject?_isSome]
    exact Nat.lt_irrefl _
  · rw [assign_nativeObject?]
    exact (World.nativeObject?_allocNative m.world o _).trans (if_pos rfl)

/-- A trap that is made from bytes says what they decode to, and has no code. -/
theorem AtStep.trapNew {g : Guard} {name : VarName} {p : Option VarName} {bytes : RawArray UInt8}
    (begins : m.AtStep g (.native (some name) (.trapNew p bytes)))
    (usable : p = none ∨ ∃ n o, m.objectNamed? p = some (n, o)) :
    ∃ id, m.world.nativeObject? id = none ∧ m.step.lookup name = some (.raw id) ∧
      m.step.world.nativeObject? id = some (.trap (.ofMessage (Lossy.decode bytes.toList))) := by
  have step : m.step = m.giveNew (some name) (.trap (.ofMessage (Lossy.decode bytes.toList))) := by
    rw [begins.step_eq]
    rcases usable with rfl | ⟨n, o, named⟩
    · rfl
    · exact withPointer_of_named named fun _ => m.giveNew (some name) _
  obtain ⟨absent, made, bound⟩ :=
    m.allocNative_kept (.trap (.ofMessage (Lossy.decode bytes.toList))) name
  rw [step]
  exact ⟨_, absent, bound, made⟩

/-- A raw call that ends in a trap keeps it as it is under the name that it is given. -/
theorem nativeCall_keeps (alive : m.world.aborted = none) {t : NativeTrap} {name : VarName}
    {below : List Frame} (control : m.control = .engine (.error t))
    (stack : m.stack = .nativeCall (some name) :: below) :
    m.step.control = .complete (.done (.nativeTrap t)) ∧
      ∃ id, m.world.nativeObject? id = none ∧ m.step.lookup name = some (.raw id) ∧
        m.step.world.nativeObject? id = some (.trap t) := by
  have step : m.step = { m with stack := below }.endNativeCall (some name) (.error t) := by
    rw [step_engine alive control]
    unfold Machine.deliverEngine
    rw [stack]
  obtain ⟨absent, made, bound⟩ := { m with stack := below }.allocNative_kept (.trap t) name
  rw [step]
  exact ⟨rfl, _, absent, bound, made⟩

/-- From some state on, the engine has a trap, and as long as it is not deleted, it is read back through
every pointer. -/
structure KeepsTrap (run : Nat → Machine) (n : Nat) (id : NativeId) (t : NativeTrap) : Prop where
  object : ∀ k ≥ n, (run k).world.nativeObject? id = some (.trap t)
  message : ∀ k ≥ n, ∀ g name p o, (run k).objectNamed? p = some (id, o) →
    (run k).AtStep g (.native name (.trapMessage p)) →
    (run (k + 1)).control = .complete (.done (.trapMessage (some t.message)))
  code : ∀ k ≥ n, ∀ g name p o, (run k).objectNamed? p = some (id, o) →
    (run k).AtStep g (.native name (.trapCode p)) →
    (run (k + 1)).control = .complete (.done (.trapCode t.code))

theorem keepsTrap {run : Nat → Machine} (steps : ∀ k, run (k + 1) = (run k).step) {n : Nat} {id : NativeId}
    {t : NativeTrap} (made : (run n).world.nativeObject? id = some (.trap t)) : KeepsTrap run n id t := by
  have object (k : Nat) (le : n ≤ k) := settled_persists (o := .trap t) steps trivial le made
  have known {k : Nat} (le : n ≤ k) {p : Option VarName} {o : Native}
      (named : (run k).objectNamed? p = some (id, o)) : o = .trap t :=
    Option.some.inj ((nativeObject?_of_named named).symm.trans (object k le))
  refine ⟨object, fun k le g name p o pointed begins => ?_, fun k le g name p o pointed begins => ?_⟩
  · obtain rfl := known le pointed
    rw [steps, begins.step_eq]
    show ((run k).withPointer p _).control = _
    rw [withPointer_of_named pointed, Option.bind_some, native?_of_named pointed]
    rfl
  · obtain rfl := known le pointed
    rw [steps, begins.step_eq]
    show ((run k).withObject p _).control = _
    rw [withObject_of_named pointed]
    rfl

/-! ## Every run -/

/-- What traps say on a run. -/
structure TrapText (run : Nat → Machine) : Prop where
  /-- A closure that may fail and ends in a trap sends the text as bytes, and no code. -/
  sent : ∀ n t a saved below, (run n).world.aborted = none → (run n).control = .complete (.trapped t) →
    (run n).context = .body a → a.code.shape.fallible = true → (run n).stack = .activation saved :: below →
    (run (n + 1)).control = .engine (.error (.ofMessage (Lossy.decode (Lossy.encode t.message)))) ∧
      (run (n + 1)).stack = below
  /-- A call in whose slot no panic is parked reads the text from bytes, and with it the code. -/
  read : ∀ n t c below, (run n).world.aborted = none → (run n).control = .engine (.error t) →
    (run n).stack = .hostCall c :: below → (run n).world.popFrame.1 = none →
    (run (n + 1)).control = .complete (.trapped
        ⟨Lossy.decode (Lossy.encode t.message), t.code.bind TrapCode.ofCode?⟩) ∧
      (run (n + 1)).stack = below
  /-- A trap keeps its text through any number of levels that let it through. -/
  carried : ∀ n k text, (run n).Carries text →
    (∀ j < k, (run (n + j)).world.aborted = none ∧ (run (n + j)).LetsThrough) → (run (n + k)).Carries text
  /-- A trap that is made from bytes says what they decode to and has no code, from then on. -/
  made : ∀ n g name p bytes, (run n).AtStep g (.native (some name) (.trapNew p bytes)) →
    (p = none ∨ ∃ n' o, (run n).objectNamed? p = some (n', o)) →
    ∃ id, (run n).world.nativeObject? id = none ∧ (run (n + 1)).lookup name = some (.raw id) ∧
      KeepsTrap run (n + 1) id ⟨Lossy.decode bytes.toList, none⟩
  /-- A native callback that has bytes for a trap ends in what they decode to, at once or after it has
  called on. -/
  entered : ∀ n id args slots f s code bytes, (run n).EntersEngine id args slots f s →
    s.interrupt = false → f.refusal? s args slots.count = none → f.callback = .native code →
    code.trap = some bytes →
    (run (n + 1)).control = .engine (.error ⟨Lossy.decode bytes, none⟩) ∨
      ∃ c, c.code = code ∧ (run (n + 1)).stack = .callback c :: (run n).stack
  /-- After what it called has returned, it ends in them. -/
  replied : ∀ n c below bytes results, (run n).world.aborted = none →
    (run n).control = .engine (.ok results) → (run n).stack = .callback c :: below →
    c.code.trap = some bytes →
    (run (n + 1)).control = .engine (.error ⟨Lossy.decode bytes, none⟩) ∧ (run (n + 1)).stack = below
  /-- A raw call that ends in a trap keeps it as it is. -/
  kept : ∀ n t name below, (run n).world.aborted = none → (run n).control = .engine (.error t) →
    (run n).stack = .nativeCall (some name) :: below →
    ∃ id, (run n).world.nativeObject? id = none ∧ (run (n + 1)).lookup name = some (.raw id) ∧
      KeepsTrap run (n + 1) id t

/-- On every run of every script, over the public interface or the native one. -/
theorem trapText_after (level : Option LogLevel) (script : Block) : TrapText (after level script) := by
  have steps := after_succ level script
  constructor
  case sent =>
      intro n t a saved below alive control context fallible stack
      obtain ⟨ends, rest, -⟩ := closure_sends alive control context fallible stack
      rw [steps, ← Trap.toNative_eq]
      exact ⟨ends, rest⟩
  case read =>
      intro n t c below alive control stack empty
      rw [steps, ← Trap.ofNative_eq]
      exact call_reads alive control stack empty
  case carried =>
      intro n k text carries through
      induction k with
      | zero => exact carries
      | succ k ih =>
          obtain ⟨alive, lets⟩ := through k (Nat.lt_succ_self k)
          rw [← Nat.add_assoc, steps]
          exact (ih fun j less => through j (by omega)).step alive lets
  case made =>
      intro n g name p bytes begins usable
      obtain ⟨id, absent, bound, object⟩ := begins.trapNew usable
      rw [← steps] at bound object
      exact ⟨id, absent, bound, keepsTrap steps object⟩
  case entered =>
      intro n id args slots f s code bytes enters calm admitted callback trap
      rw [steps, step_enter enters.alive enters.control]
      cases (after level script n).entry id args slots with
      | replied f' s' reaches _ _ code' callback' same =>
          obtain ⟨rfl, rfl⟩ := enters.reaches.unique reaches
          obtain rfl : code = code' := Callback.native.inj (callback.symm.trans callback')
          rw [same]
          exact .inl (congrArg Control.engine (replyOf_trap trap))
      | callsOn f' s' reaches _ _ code' callback' callee count same =>
          obtain ⟨rfl, rfl⟩ := enters.reaches.unique reaches
          obtain rfl : code = code' := Callback.native.inj (callback.symm.trans callback')
          rw [same]
          exact .inr ⟨_, rfl, rfl⟩
      | missing none => exact absurd enters.reaches (none f s)
      | interrupted f' s' reaches pending =>
          obtain ⟨rfl, rfl⟩ := enters.reaches.unique reaches
          cases calm.symm.trans pending
      | refused f' s' reaches _ t refusal =>
          obtain ⟨rfl, rfl⟩ := enters.reaches.unique reaches
          cases admitted.symm.trans refusal
      | released f' s' reaches _ _ env callback' | starts f' s' reaches _ _ env callback' =>
          obtain ⟨rfl, rfl⟩ := enters.reaches.unique reaches
          cases callback.symm.trans callback'
  case replied =>
      intro n c below bytes results alive control stack trap
      have step := step_engine alive control
      unfold Machine.deliverEngine at step
      rw [stack] at step
      rw [steps, step]
      exact ⟨congrArg Control.engine (replyOf_trap trap), rfl⟩
  case kept =>
      intro n t name below alive control stack
      obtain ⟨-, id, absent, bound, object⟩ := nativeCall_keeps alive control stack
      rw [← steps] at bound object
      exact ⟨id, absent, bound, keepsTrap steps object⟩

end Machine

end HostEmbedding
