import HostEmbedding.Proofs.Machine.Endings
import HostEmbedding.Proofs.Machine.Stack

/-!
# Where traps come from

A step ends in a trap when it asks for one, when an operation is refused and the refusal is raised, or
when the call that it made ends in one. Neither a refusal nor a trap of a store has the text of the
sentinel, so a trap with that text goes back to a step that asked for it.
-/

namespace HostEmbedding

namespace ApiError

/-- The letter with which the messages of a kind of error begin. -/
def initial : ApiError → Char
  | .signatureMismatch .. => 's'
  | .outOfBounds .. => 'o'
  | .invalidMemoryType _ => 'e'

theorem message_signatureMismatch (expected found : FuncType) :
    (signatureMismatch expected found).message =
      "signature mismatch: expected " ++ expected.text ++ ", found " ++ found.text := rfl

theorem message_outOfBounds (offset len size : Nat) : (outOfBounds offset len size).message =
    "out of bounds memory access: offset " ++ toString offset ++ " + length " ++ toString len ++
      " exceeds size " ++ toString size := rfl

theorem message_invalidMemoryType (type : MemoryType) :
    (invalidMemoryType type).message = "engine rejected memory type " ++ type.text := rfl

theorem head?_message (e : ApiError) : e.message.toList.head? = some e.initial := by
  cases e with
  | signatureMismatch => simp [message_signatureMismatch, initial]
  | outOfBounds => simp [message_outOfBounds, initial]
  | invalidMemoryType => simp [message_invalidMemoryType, initial]

/-- No refusal has the text of the sentinel. -/
theorem message_ne_sentinel (e : ApiError) : e.message ≠ sentinelMessage := by
  intro same
  have first := e.head?_message
  rw [same] at first
  cases e with
  | signatureMismatch => exact absurd first (show _ ≠ some 's' by decide)
  | outOfBounds => exact absurd first (show _ ≠ some 'o' by decide)
  | invalidMemoryType => exact absurd first (show _ ≠ some 'e' by decide)

end ApiError

/-- No trap that a store raises has the text of the sentinel. -/
theorem NativeTrap.ofCode_ne_sentinel (code : TrapCode) :
    (NativeTrap.ofCode code).message ≠ sentinelMessage := by
  cases code <;> decide

namespace Machine

variable {m : Machine}

/-! ## Steps -/

/-- The running step does not end in a trap, unless in a refusal that is raised. -/
def Tame (m : Machine) : Prop :=
  ∀ t, m.control = .complete (.trapped t) → ∃ e : ApiError, t = .ofMessage e.message

/-- A step that begins, unless it asks for a trap, ends in no trap but a refusal that is raised. -/
theorem tame_begin (m : Machine) (g : Guard) {s : Step} (other : ∀ text, s ≠ .plain (.trap text)) :
    (m.begin g s).Tame := by
  intro t trapped
  rcases begin_trapped trapped with ⟨text, asked, -⟩ | ⟨e, -, same⟩
  · exact absurd asked (other text)
  · exact ⟨e, same⟩

/-- What a call that returned tells is no trap. -/
theorem tame_returnCall (m : Machine) (c : CallRequest) (vals : List (Val ObjId)) :
    (m.returnCall c vals).Tame := by
  unfold Machine.returnCall
  split
  · exact nofun
  · dsimp only
    split
    · exact nofun
    · exact nofun

/-! ## The text of the sentinel -/

def AsksSentinel (m : Machine) : Prop :=
  m.control = .run ∧ ∃ outer index g rest below,
    m.stack = .block outer index ((g, .plain (.trap sentinelMessage)) :: rest) :: below

/-- No trap with the text of the sentinel is on its way, neither as the end of a step nor as the end of
a call for which no panic is parked. -/
structure Clean (m : Machine) : Prop where
  completion : ∀ t, m.control = .complete (.trapped t) → t.message ≠ sentinelMessage
  engine : ∀ t slots, m.control = .engine (.error t) → m.world.thread.frames = none :: slots →
    t.message ≠ sentinelMessage

/-- A step that begins does not end in a trap with the text of the sentinel unless it asks for it. -/
theorem Coherent.begin_clean (coherent : m.Coherent) (control : m.control = .run)
    (silent : ¬ m.AsksSentinel) {t : Trap} (trapped : m.step.control = .complete (.trapped t)) :
    t.message ≠ sentinelMessage := by
  obtain ⟨outer, index, steps, below, stack, isPublic⟩ := coherent.block control
  have step := coherent.step_eq
  rw [control, stack] at step
  rw [step] at trapped
  cases steps with
  | nil => cases trapped
  | cons first rest =>
      obtain ⟨g, s⟩ := first
      by_cases other : ∀ text, s ≠ .plain (.trap text)
      · obtain ⟨e, rfl⟩ := tame_begin m g other t trapped
        exact e.message_ne_sentinel
      · obtain ⟨text, asks⟩ := not_forall.mp other
        obtain rfl := not_not.mp asks
        cases trapped
        rintro rfl
        exact silent ⟨control, _, _, _, _, _, stack⟩

/-- A completion that is delivered is no trap unless it was that trap before. -/
theorem Coherent.deliver_trapped (coherent : m.Coherent) {c : Completion}
    (control : m.control = .complete c) {t : Trap} (trapped : m.step.control = .complete (.trapped t)) :
    c = .trapped t := by
  cases stack : m.stack with
  | nil =>
      have step := coherent.step_eq
      rw [control] at step
      unfold Machine.deliver at step
      rw [stack] at step
      rw [step] at trapped
      cases trapped
  | cons f rest =>
      cases coherent.delivery control stack with
      | goesOn some above runs => cases runs.symm.trans trapped
      | passes above next same =>
          cases Control.complete.inj (next.symm.trans trapped)
          rcases same with same | done
          · exact same.symm
          · cases done
      | leaves ended frame below => cases (ended.returning coherent).control.symm.trans trapped

/-- A call that ends in a trap ends in the one that the engine returned, and its slot is empty. -/
theorem Returning.trapped {c : HostCall} {below : List Frame} {slots : List (Option Fault)}
    {slot : Option Fault} {r : EngineResult} (returning : m.Returning c below slots slot r)
    (coherent : m.Coherent) {t : Trap} (trapped : m.step.control = .complete (.trapped t)) :
    (∃ native, r = .error native ∧ slot = none ∧ t.message = native.message) ∨
      ∃ e : ApiError, t = .ofMessage e.message := by
  rw [returning.step_eq coherent] at trapped
  cases slot with
  | some f => cases trapped
  | none =>
      cases r with
      | error native =>
          cases trapped
          exact .inl ⟨native, rfl, rfl, rfl⟩
      | ok given => exact .inr (tame_returnCall _ _ _ t trapped)

/-- A transition brings up no trap with the text of the sentinel unless the next step asks for it. -/
theorem Coherent.step_clean (coherent : m.Coherent) (clean : m.Clean) (silent : ¬ m.AsksSentinel) :
    m.step.Clean := by
  refine ⟨fun t trapped => ?_, fun t slots engine opened => ?_⟩
  · cases control : m.control with
    | run => exact coherent.begin_clean control silent trapped
    | complete c =>
        have same := coherent.deliver_trapped control trapped
        rw [same] at control
        exact clean.completion t control
    | enter n args slots =>
        obtain ⟨c, h, callee, s, entering⟩ := coherent.entering control
        rw [entering.step_eq coherent.world.aborted] at trapped
        split_ifs at trapped <;> cases trapped
    | engine r =>
        obtain ⟨c, below, slots, slot, returning⟩ := coherent.returning control
        rcases returning.trapped coherent trapped with ⟨native, rfl, rfl, same⟩ | ⟨e, rfl⟩
        · rw [same]
          exact clean.engine native slots control returning.frames
        · exact e.message_ne_sentinel
    | halted ending =>
        rw [coherent.step_eq, control] at trapped
        cases control.symm.trans trapped
  · rcases coherent.left engine with ⟨c, below, slots', code, returning⟩ |
      ⟨a, c, saved, below, slots', how, ended⟩
    · cases returning.control.symm.trans engine
      exact NativeTrap.ofCode_ne_sentinel code
    · have returning := ended.returning coherent
      have carried := Control.engine.inj (returning.control.symm.trans engine)
      have slot := (List.cons.inj (returning.frames.symm.trans opened)).1
      cases outcome : a.outcome how with
      | returned vals =>
          rw [outcome] at carried
          cases carried
      | trapped s =>
          obtain ⟨s', rfl, rfl⟩ := a.trapped_of_outcome outcome
          rw [outcome] at carried
          cases carried
          exact clean.completion s' ended.control
      | panicked f =>
          rw [outcome] at slot
          cases slot

/-- A trap with the text of the sentinel goes back to a step that asked for it. -/
theorem asksSentinel_of_trapped (level : Option LogLevel) {script : Block}
    (isPublic : Block.isPublic script = true) {n : Nat} {t : Trap}
    (trapped : (after level script n).control = .complete (.trapped t))
    (sentinel : t.message = sentinelMessage) : ∃ k < n, (after level script k).AsksSentinel := by
  by_contra silent
  have clean : ∀ k ≤ n, (after level script k).Clean := by
    intro k
    induction k with
    | zero => exact fun _ => ⟨fun t same => (nomatch same), fun t _ same => (nomatch same)⟩
    | succ k ih =>
        intro less
        rw [after_succ]
        exact (coherent_after level isPublic k).step_clean (ih (by omega)) fun asks =>
          silent ⟨k, less, asks⟩
  exact (clean n (Nat.le_refl n)).completion t trapped sentinel

end Machine

end HostEmbedding
