import HostEmbedding.Proofs.CallReference
import HostEmbedding.Proofs.Machine.Traps
import HostEmbedding.Proofs.Machine.Unwinding
import HostEmbedding.Proofs.Memory.Bounds
import HostEmbedding.Proofs.Native.TrapText

/-!
# Traps pass through calls

A trap that the closures of nested calls pass on is returned by every one of these calls, typed or not,
with the text that it was raised with. Its code is seen by the call that the engine itself has refused
and by no other one; what host code raises has none.
-/

namespace HostEmbedding

/-- The calls that a trap ends next, as many as are asked for and the innermost first, each with the
frames below it. The trap passes the frames of a body up to its closure, which may fail; the call ends in
it, and with it a step of the body below. None when there are not so many, or something stops it. -/
def Frame.chain? : Nat → Context → List Frame → Option (List (HostCall × List Frame))
  | 0, _, _ => some []
  | n + 1, .body a, frames =>
      match Frame.unwind frames with
      | (false, .activation saved :: .hostCall c :: below) =>
          if a.code.shape.fallible then (chain? n saved below).map ((c, below) :: ·) else none
      | _ => none
  | _ + 1, _, _ => none

theorem Frame.chain?_succ {n : Nat} {ctx : Context} {frames : List Frame}
    {calls : List (HostCall × List Frame)} (chain : Frame.chain? (n + 1) ctx frames = some calls) :
    ∃ a saved c below outer, ctx = .body a ∧
      Frame.unwind frames = (false, .activation saved :: .hostCall c :: below) ∧
      a.code.shape.fallible = true ∧ Frame.chain? n saved below = some outer ∧
      calls = (c, below) :: outer := by
  unfold Frame.chain? at chain
  cases ctx with
  | body a =>
      dsimp only at chain
      split at chain
      · next saved c below unwound =>
          split at chain
          · next fallible =>
              obtain ⟨outer, rest, same⟩ := Option.map_eq_some_iff.mp chain
              exact ⟨a, saved, c, below, outer, rfl, unwound, fallible, rest, same.symm⟩
          · cases chain
      · cases chain
  | top | thread | finalizer => cases chain

/-- The trap that a step, a block or a body has ended in. -/
def Control.trap? : Control → Option Trap
  | .complete (.trapped t) => some t
  | _ => none

theorem Control.trap?_eq_some {control : Control} {t : Trap} :
    control.trap? = some t ↔ control = .complete (.trapped t) := by
  unfold Control.trap?
  split <;> simp_all

theorem Activation.fallible_of_outcome {a : Activation} {s t : Trap}
    (ends : a.outcome (.trapped s) = .trapped t) : a.code.shape.fallible = true := by
  cases fallible : a.code.shape.fallible with
  | true => rfl
  | false =>
      unfold outcome at ends
      dsimp only at ends
      rw [fallible, if_neg Bool.false_ne_true] at ends
      cases ends

namespace Machine

variable {m : Machine}

/-- The engine is about to refuse a call, for a reason of its own. -/
structure RefusesCall (m : Machine) (c : HostCall) (below : List Frame) (code : TrapCode) : Prop where
  stack : m.stack = .hostCall c :: below
  reason : ∃ n args slots f s, m.EntersEngine n args slots f s ∧ s.reason? = some code

/-- The closure that a call invoked has ended in a trap, and may do so. -/
structure EndsInTrap (m : Machine) (c : HostCall) (below : List Frame) (t : Trap) : Prop where
  control : m.control = .complete (.trapped t)
  body : ∃ a, m.context = .body a ∧ a.code.shape.fallible = true
  stack : ∃ saved, m.stack = .activation saved :: .hostCall c :: below

/-- The engine has left a call, which returns a trap to the step that called. -/
structure ReturnsTrap (m : Machine) (c : HostCall) (below : List Frame) (t : Trap) : Prop where
  engine : ∃ r, m.control = .engine r
  stack : m.stack = .hostCall c :: below
  trapped : m.step.control = .complete (.trapped t)
  rest : m.step.stack = below

/-- From a state on, calls return a trap with a text one after the other, and none with a code. Until the
last one has done so the trap is always on its way. -/
inductive Reported : Machine → String → List (HostCall × List Frame) → Prop
  | nil (m : Machine) (text : String) : Reported m text []
  | cons {m : Machine} {text : String} {c : HostCall} {below : List Frame}
      {calls : List (HostCall × List Frame)} (k : Nat)
      (carries : ∀ j ≤ k, (Machine.step^[j] m).Carries text)
      (returns : (Machine.step^[k] m).ReturnsTrap c below (.ofMessage text))
      (outer : Reported (Machine.step^[k + 1] m) text calls) : Reported m text ((c, below) :: calls)

/-! ## A call returns a trap -/

/-- A call with an empty slot returns the trap that the engine leaves it with. -/
theorem Returning.returnsTrap {c : HostCall} {below : List Frame} {slots : List (Option Fault)}
    {t : NativeTrap} (returning : m.Returning c below slots none (.error t)) (coherent : m.Coherent) :
    m.ReturnsTrap c below (.ofNative t) ∧ m.step.context = m.context := by
  have step : m.step = (m.closed c below slots).resumeCall c.request (.trapped (.ofNative t)) :=
    returning.step_eq coherent
  exact ⟨⟨⟨_, returning.control⟩, returning.stack, by rw [step]; rfl, by rw [step]; rfl⟩,
    by rw [step]; rfl⟩

/-- A call that returned values does not end in a trap. -/
theorem returnCall_trapped (m : Machine) (c : CallRequest) (vals : List (Val ObjId)) (t : Trap) :
    (m.returnCall c vals).control ≠ .complete (.trapped t) := by
  unfold Machine.returnCall
  split
  · exact fun same => nomatch same
  · dsimp only
    split
    · exact fun same => nomatch same
    · exact fun same => nomatch same

/-- A call returns a trap only if the engine has left it with that trap, and its slot is empty. -/
theorem Coherent.returning_of_returnsTrap (coherent : m.Coherent) {c : HostCall} {below : List Frame}
    {t : Trap} (returns : m.ReturnsTrap c below t) :
    ∃ slots native, m.Returning c below slots none (.error native) ∧ t = .ofNative native := by
  obtain ⟨r, engine⟩ := returns.engine
  obtain ⟨c', below', slots, slot, returning⟩ := coherent.returning engine
  cases returns.stack.symm.trans returning.stack
  have trapped := returns.trapped
  rw [returning.step_eq coherent] at trapped
  cases returned : returning.returned with
  | values vals kinds refs =>
      rw [resumed_values kinds] at trapped
      exact absurd trapped (returnCall_trapped _ _ vals t)
  | trap native =>
      cases trapped
      exact ⟨slots, native, returning, rfl⟩
  | panic f => cases trapped

/-! ## The closure of a call ends in a trap -/

/-- A closure that ends in a trap and may fail ends its call in it: the text goes on, never the code. -/
theorem Coherent.returnsTrap_of_ends (coherent : m.Coherent) {c : HostCall} {below : List Frame} {t : Trap}
    (ends : m.EndsInTrap c below t) : m.step.ReturnsTrap c below (.ofMessage t.message) ∧
      m.step.control = .engine (.error t.toNative) ∧
      ∀ saved, m.stack = .activation saved :: .hostCall c :: below → m.step.step.context = saved := by
  obtain ⟨a, context, fallible⟩ := ends.body
  obtain ⟨saved, stack⟩ := ends.stack
  obtain ⟨b, c', below', slots, ended⟩ := coherent.ended ends.control stack
  cases ended.context.symm.trans context
  cases ended.stack.symm.trans stack
  have outcome : a.outcome (.trapped t) = .trapped (.ofMessage t.message) := if_pos fallible
  have returning := ended.returning coherent
  rw [outcome] at returning
  obtain ⟨returns, same⟩ := returning.returnsTrap coherent.step
  refine ⟨returns, returning.control, fun saved' stack' => ?_⟩
  cases ended.stack.symm.trans stack'
  rw [same, (ended.leave coherent).1]
  rfl

/-! ## The engine refuses a call -/

namespace Entering

variable {c : HostCall} {h : Handle} {callee : Callee} {s : NativeStore}

theorem entersEngine (entering : m.Entering c h callee s) (coherent : m.Coherent) :
    m.EntersEngine h.native (c.request.args.map Slot.ofVal) ⟨callee.type.results.length, false⟩
      ⟨callee.native, callee.type.toNative, .host callee.env⟩ s :=
  ⟨coherent.world.aborted, entering.control, entering.callable.func, entering.store⟩

end Entering

/-- A call that the engine refuses returns the trap of the reason. -/
theorem Coherent.returnsTrap_of_refuses (coherent : m.Coherent) {c : HostCall} {below : List Frame}
    {code : TrapCode} (refuses : m.RefusesCall c below code) :
    m.step.ReturnsTrap c below (.raised code) ∧ m.step.step.context = m.context := by
  obtain ⟨n, args, slots, f, s, enters, reason⟩ := refuses.reason
  obtain ⟨c', h, callee, s', entering⟩ := coherent.entering enters.control
  cases enters.control.symm.trans entering.control
  obtain ⟨rfl, rfl⟩ := enters.reaches.unique (entering.entersEngine coherent).reaches
  obtain ⟨below', slots', stack, returning, kept⟩ := entering.refusedFor coherent reason
  cases refuses.stack.symm.trans stack
  obtain ⟨returns, same⟩ := returning.returnsTrap coherent.step
  rw [ofNative_ofCode] at returns
  exact ⟨returns, same.trans kept⟩

/-- A call that returns a trap was refused by the engine, or its closure has ended in the trap. -/
theorem Coherent.origin (coherent : m.Coherent) {c : HostCall} {below : List Frame} {t : Trap}
    (returns : m.step.ReturnsTrap c below t) :
    (∃ code, m.RefusesCall c below code ∧ t = .raised code) ∨
      ∃ s, m.EndsInTrap c below s ∧ t = .ofMessage s.message := by
  obtain ⟨slots, native, returning, rfl⟩ := coherent.step.returning_of_returnsTrap returns
  rcases coherent.leaving returning.control with ⟨c', h, callee, s, code, entering, reason⟩ |
    ⟨a, c', saved, below', slots', how, ended⟩
  · obtain ⟨below', slots', stack, returning', -⟩ := entering.refusedFor coherent reason
    cases returning.stack.symm.trans returning'.stack
    cases returning.control.symm.trans returning'.control
    exact .inl ⟨code, ⟨stack, _, _, _, _, s, entering.entersEngine coherent, reason⟩,
      ofNative_ofCode code⟩
  · have returning' := ended.returning coherent
    cases returning.stack.symm.trans returning'.stack
    have carried := Control.engine.inj (returning.control.symm.trans returning'.control)
    have slot := (List.cons.inj (returning.frames.symm.trans returning'.frames)).1
    cases outcome : a.outcome how with
    | returned vals =>
        rw [outcome] at carried
        cases carried
    | trapped t =>
        obtain ⟨s, rfl, rfl⟩ := a.trapped_of_outcome outcome
        rw [outcome] at carried
        cases carried
        exact .inr ⟨s, ⟨ended.control, ⟨a, ended.context, a.fallible_of_outcome outcome⟩, saved,
          ended.stack⟩, rfl⟩
    | panicked f =>
        rw [outcome] at slot
        cases slot

/-! ## Chains -/

/-- A trap that is on its way ends the calls of its chain one after the other. -/
theorem Coherent.reported {n : Nat} {calls : List (HostCall × List Frame)} {t : Trap} {m : Machine}
    (coherent : m.Coherent) (control : m.control = .complete (.trapped t))
    (chain : Frame.chain? n m.context m.stack = some calls) : Reported m t.message calls := by
  induction n generalizing m t calls with
  | zero =>
      cases chain
      exact .nil m t.message
  | succ n ih =>
      obtain ⟨a, saved, c, below, outer, context, unwound, fallible, rest, rfl⟩ :=
        Frame.chain?_succ chain
      obtain ⟨k, passed⟩ := coherent.passed control rfl context rfl
      have missed : (Frame.unwind m.stack).1 = false := by rw [unwound]
      have stack : (Machine.step^[k] m).stack = .activation saved :: .hostCall c :: below := by
        rw [passed.stack, unwound]
      have body := coherent.iterate k
      -- The body ends in the trap, and two transitions later so does the step that called it.
      obtain ⟨returns, left, context'⟩ := body.returnsTrap_of_ends
        ⟨(passed.raised missed).1, ⟨a, passed.context, fallible⟩, saved, stack⟩
      have back := context' saved stack
      have control' := returns.trapped
      have stack' := returns.rest
      simp only [← Function.iterate_succ_apply'] at returns left back control' stack'
      rw [← back, ← stack'] at rest
      have reported := ih (t := .ofMessage t.message) (coherent.iterate (k + 2)) control' rest
      refine .cons (k + 1) (fun j le => ?_) returns reported
      rcases Nat.lt_trichotomy j k with less | rfl | above
      · exact .host t.code (passed.passes j less)
      · exact .host t.code (passed.raised missed).1
      · obtain rfl : j = k + 1 := by omega
        exact .native none left

/-! ## Every run -/

/-- How traps pass through the calls of a run. -/
structure TrapTransfer (run : Nat → Machine) : Prop where
  /-- Every call of a chain returns the trap that was raised in the closure of the innermost one, with its
  text and without a code. -/
  chain : ∀ k t n calls, (run k).control = .complete (.trapped t) →
    Frame.chain? n (run k).context (run k).stack = some calls → Reported (run k) t.message calls
  /-- A call that the engine refuses returns a trap with the code of the reason, and every call of the
  chain around it returns its text without a code. -/
  refused : ∀ k c below code n calls, (run k).RefusesCall c below code →
    Frame.chain? n (run k).context below = some calls →
    (run (k + 1)).ReturnsTrap c below (.raised code) ∧
      Reported (run (k + 2)) (Trap.raised code).message calls
  /-- One level: whatever trap the closure of a call ends in, the call returns its text without a code. -/
  level : ∀ k c below t, (run k).EndsInTrap c below t →
    (run (k + 1)).ReturnsTrap c below (.ofMessage t.message)
  /-- A call that returns a trap was refused by the engine, or its closure has ended in the trap. -/
  origin : ∀ n c below t, (run n).ReturnsTrap c below t → ∃ k, n = k + 1 ∧
    ((∃ code, (run k).RefusesCall c below code ∧ t = .raised code) ∨
      ∃ s, (run k).EndsInTrap c below s ∧ t = .ofMessage s.message)
  /-- So a call returns a trap with a code exactly when the engine has refused it for that reason. -/
  coded : ∀ n c below code, (∃ t, (run n).ReturnsTrap c below t ∧ t.code = some code) ↔
    ∃ k, n = k + 1 ∧ (run k).RefusesCall c below code
  /-- A step of host code that asks for a trap ends in one with that text and without a code. -/
  asked : ∀ k g text, (run k).AtStep g (.plain (.trap text)) →
    (run (k + 1)).control = .complete (.trapped (.ofMessage text))
  /-- No step of host code ends in a trap with a code unless it has called. -/
  uncoded : ∀ k g s t, (run k).AtStep g s → (run (k + 1)).control = .complete (.trapped t) → t.code = none

/-- On every run of every script the text of a trap is kept, and on every run of a public script traps pass
through calls as they should. -/
theorem trapTransfer_after (level : Option LogLevel) (script : Block) :
    TrapText (after level script) ∧
      (Block.isPublic script = true → TrapTransfer (after level script)) := by
  refine ⟨trapText_after level script, fun isPublic => ?_⟩
  have steps := after_succ level script
  have coherent := coherent_after level isPublic
  have ends {k : Nat} {c : HostCall} {below : List Frame} {t : Trap}
      (ended : (after level script k).EndsInTrap c below t) :
      (after level script (k + 1)).ReturnsTrap c below (.ofMessage t.message) := by
    rw [steps]
    exact ((coherent k).returnsTrap_of_ends ended).1
  have refuses {k : Nat} {c : HostCall} {below : List Frame} {code : TrapCode}
      (refused : (after level script k).RefusesCall c below code) :
      (after level script (k + 1)).ReturnsTrap c below (.raised code) ∧
        (after level script (k + 2)).context = (after level script k).context := by
    rw [steps (k + 1), steps k]
    exact (coherent k).returnsTrap_of_refuses refused
  have origin {n : Nat} {c : HostCall} {below : List Frame} {t : Trap}
      (returns : (after level script n).ReturnsTrap c below t) : ∃ k, n = k + 1 ∧
        ((∃ code, (after level script k).RefusesCall c below code ∧ t = .raised code) ∨
          ∃ s, (after level script k).EndsInTrap c below s ∧ t = .ofMessage s.message) := by
    cases n with
    | zero => cases returns.engine.choose_spec
    | succ k =>
        rw [steps] at returns
        exact ⟨k, rfl, (coherent k).origin returns⟩
  constructor
  case chain =>
      intro k t n calls control chain
      exact (coherent k).reported control chain
  case refused =>
      intro k c below code n calls refused chain
      obtain ⟨returns, context⟩ := refuses refused
      have trapped := returns.trapped
      have stack := returns.rest
      rw [← steps] at trapped stack
      rw [← context, ← stack] at chain
      exact ⟨returns, (coherent (k + 2)).reported trapped chain⟩
  case level => exact fun k c below t ended => ends ended
  case origin => exact fun n c below t returns => origin returns
  case coded =>
      intro n c below code
      constructor
      · rintro ⟨t, returns, same⟩
        obtain ⟨k, rfl, ⟨code', refused, rfl⟩ | ⟨s, -, rfl⟩⟩ := origin returns
        · cases same
          exact ⟨k, rfl, refused⟩
        · cases same
      · rintro ⟨k, rfl, refused⟩
        exact ⟨.raised code, (refuses refused).1, rfl⟩
  case asked =>
      intro k g text begins
      rw [steps, begins.step_eq]
      rfl
  case uncoded =>
      intro k g s t begins trapped
      rw [steps, begins.step_eq] at trapped
      by_cases other : ∀ text, s ≠ .plain (.trap text)
      · obtain ⟨e, rfl⟩ := tame_begin _ g other t trapped
        rfl
      · obtain ⟨text, asks⟩ := not_forall.mp other
        obtain rfl := not_not.mp asks
        cases trapped
        rfl

/-- A function that calls itself without an end, in a store that allows two calls. -/
def recursing : Block :=
  [(⟨false, false⟩, .plain (.engine (.scoped "e") none (some 2))),
    (⟨false, false⟩, .plain (.store (.scoped "s") (some (.scoped "e")))),
    (⟨false, false⟩, .func (.scoped "f") (.scoped "s") (.generic ⟨[], []⟩) "f" false []
      [(⟨false, false⟩, .call (.global "f") [] [])]),
    (⟨false, false⟩, .call (.scoped "f") [] [])]

theorem recursing_overflows (isPublic : Block.isPublic recursing = true) :
    ∃ c below, (after none recursing 12).ReturnsTrap c below (.raised .stackOverflow) := by
  -- Only how the call ends is evaluated, not the machine that it leaves behind.
  have left : (after none recursing 12).control.engine?.isSome = true := by decide +kernel
  have overflow : (after none recursing 13).control.trap? = some (.raised .stackOverflow) := by
    decide +kernel
  have coherent := coherent_after none isPublic 12
  obtain ⟨r, result⟩ := Option.isSome_iff_exists.mp left
  have engine := Control.engine?_eq_some.mp result
  obtain ⟨c, below, slots, slot, returning⟩ := coherent.returning engine
  rw [after_succ] at overflow
  exact ⟨c, below, ⟨r, engine⟩, returning.stack, Control.trap?_eq_some.mp overflow,
    (returning.restored coherent).1⟩

/-- The third call is refused, and the two around it return its text without the code. -/
theorem trapTransfer_after_recursing : Block.isPublic recursing = true ∧ ∃ c below calls,
    (after none recursing 11).RefusesCall c below .stackOverflow ∧ calls.length = 2 ∧
      Reported (after none recursing 13) "wasm trap: call stack exhausted" calls := by
  have isPublic : Block.isPublic recursing = true := by decide
  have transfers := (trapTransfer_after none recursing).2 isPublic
  obtain ⟨c, below, returns⟩ := recursing_overflows isPublic
  obtain ⟨k, same, refused⟩ := (transfers.coded 12 c below .stackOverflow).mp ⟨_, returns, rfl⟩
  obtain rfl : k = 11 := by omega
  have around : (Frame.chain? 2 (after none recursing 11).context
      (after none recursing 11).stack.tail).map List.length = some 2 := by decide +kernel
  rw [refused.stack] at around
  obtain ⟨calls, chain, length⟩ := Option.map_eq_some_iff.mp around
  exact ⟨isPublic, c, below, calls, refused, length,
    (transfers.refused 11 c below .stackOverflow 2 calls refused chain).2⟩

end Machine

end HostEmbedding
