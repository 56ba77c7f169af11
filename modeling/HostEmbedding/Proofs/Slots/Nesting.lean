import HostEmbedding.Proofs.Slots.Steps

/-!
# Frames in order

In every state of every script the frames on the stack are nested in order: a running body stands on a
call, and each host call on the stack of a thread has its slot.
-/

namespace HostEmbedding

namespace Frame

def isCall : Frame → Bool
  | .hostCall _ | .nativeCall _ | .callback _ => true
  | _ => false

/-- A frame above which the innermost slot is another one. -/
def hasSlot : Frame → Bool
  | .hostCall _ | .thread .. => true
  | _ => false

def OnCall : List Frame → Prop
  | f :: _ => f.isCall = true
  | [] => False

/-- The frame on top, if there is one, does not wait for the engine. -/
def OffCall : List Frame → Prop
  | f :: _ => f.isCall = false
  | [] => True

end Frame

/-- The frames of a stack in order, under the context that runs and over the slots of its thread. -/
inductive Nested : Context → List Frame → List (Option Fault) → Prop
  | top : Nested .top [] []
  | block {ctx : Context} {stack : List Frame} {slots : List (Option Fault)} {outer : Bool}
      {index : Nat} {steps : Block} (below : Nested ctx stack slots) (off : Frame.OffCall stack) :
      Nested ctx (.block outer index steps :: stack) slots
  | branch {ctx : Context} {stack : List Frame} {slots : List (Option Fault)} {taken : Bool}
      (below : Nested ctx stack slots) (off : Frame.OffCall stack) :
      Nested ctx (.branch taken :: stack) slots
  | loop {ctx : Context} {stack : List Frame} {slots : List (Option Fault)} {left : Nat}
      {body : Block} (below : Nested ctx stack slots) (off : Frame.OffCall stack) :
      Nested ctx (.loop left body :: stack) slots
  | hostCall {ctx : Context} {stack : List Frame} {slots : List (Option Fault)} {c : HostCall}
      {slot : Option Fault} (below : Nested ctx stack slots) (off : Frame.OffCall stack) :
      Nested ctx (.hostCall c :: stack) (slot :: slots)
  | nativeCall {ctx : Context} {stack : List Frame} {slots : List (Option Fault)}
      {name : Option VarName} (below : Nested ctx stack slots) (off : Frame.OffCall stack) :
      Nested ctx (.nativeCall name :: stack) slots
  | callback {ctx : Context} {stack : List Frame} {slots : List (Option Fault)} {c : CallbackRun}
      (below : Nested ctx stack slots) (on : Frame.OnCall stack) :
      Nested ctx (.callback c :: stack) slots
  | activation {saved : Context} {stack : List Frame} {slots : List (Option Fault)} {a : Activation}
      (below : Nested saved stack slots) (on : Frame.OnCall stack) :
      Nested (.body a) (.activation saved :: stack) slots
  | thread {saved : Context} {stack : List Frame} {state : ThreadState}
      (below : Nested saved stack state.frames) (off : Frame.OffCall stack) :
      Nested .thread (.thread saved state :: stack) []
  | finalizer {saved : Context} {stack : List Frame} {slots : List (Option Fault)} {label : String}
      (below : Nested saved stack slots) (off : Frame.OffCall stack) :
      Nested (.finalizer label) (.finalizer saved :: stack) slots

def Control.Suits (stack : List Frame) : Control → Prop
  | .run => ∃ outer index steps below, stack = .block outer index steps :: below
  | .complete _ => Frame.OffCall stack
  | .enter .. => Frame.OnCall stack
  | .engine _ => Frame.OnCall stack
  | .halted _ => True

/-- A body starts with its steps or with a panic. -/
theorem Machine.startOf_cases (a : Activation) :
    Machine.startOf a = .run ∨ ∃ f, Machine.startOf a = .complete (.panicked f) := by
  unfold Machine.startOf
  split
  · exact .inl rfl
  · exact .inr ⟨_, rfl⟩

theorem Machine.startOf_ne_engine (a : Activation) (r : EngineResult) : Machine.startOf a ≠ .engine r := by
  rcases Machine.startOf_cases a with start | ⟨f, start⟩
  · rw [start]
    exact nofun
  · rw [start]
    exact nofun

theorem Machine.startOf_ne_enter (a : Activation) (n : NativeId) (args : List (Slot ObjId))
    (slots : SlotArray) : Machine.startOf a ≠ .enter n args slots := by
  rcases Machine.startOf_cases a with start | ⟨f, start⟩
  · rw [start]
    exact nofun
  · rw [start]
    exact nofun

structure Machine.InOrder (m : Machine) : Prop where
  nested : Nested m.context m.stack m.world.thread.frames
  suits : m.control.Suits m.stack

namespace Nested

variable {ctx : Context} {stack : List Frame} {slots : List (Option Fault)}

theorem of_block {outer : Bool} {index : Nat} {steps : Block}
    (nested : Nested ctx (.block outer index steps :: stack) slots) :
    Nested ctx stack slots ∧ Frame.OffCall stack := by
  cases nested with
  | block below off => exact ⟨below, off⟩

theorem of_branch {taken : Bool} (nested : Nested ctx (.branch taken :: stack) slots) :
    Nested ctx stack slots ∧ Frame.OffCall stack := by
  cases nested with
  | branch below off => exact ⟨below, off⟩

theorem of_loop {left : Nat} {body : Block} (nested : Nested ctx (.loop left body :: stack) slots) :
    Nested ctx stack slots ∧ Frame.OffCall stack := by
  cases nested with
  | loop below off => exact ⟨below, off⟩

theorem of_thread {saved : Context} {state : ThreadState}
    (nested : Nested ctx (.thread saved state :: stack) slots) :
    Nested saved stack state.frames ∧ Frame.OffCall stack := by
  cases nested with
  | thread below off => exact ⟨below, off⟩

theorem of_finalizer {saved : Context} (nested : Nested ctx (.finalizer saved :: stack) slots) :
    Nested saved stack slots ∧ Frame.OffCall stack := by
  cases nested with
  | finalizer below off => exact ⟨below, off⟩

theorem of_activation {saved : Context} (nested : Nested ctx (.activation saved :: stack) slots) :
    (∃ a, ctx = .body a) ∧ Nested saved stack slots ∧ Frame.OnCall stack := by
  cases nested with
  | activation below on => exact ⟨⟨_, rfl⟩, below, on⟩

theorem of_hostCall {c : HostCall} (nested : Nested ctx (.hostCall c :: stack) slots) :
    Frame.OffCall stack ∧ ∃ slot rest, slots = slot :: rest ∧ Nested ctx stack rest := by
  cases nested with
  | hostCall below off => exact ⟨off, _, _, rfl, below⟩

theorem of_nativeCall {name : Option VarName}
    (nested : Nested ctx (.nativeCall name :: stack) slots) :
    Nested ctx stack slots ∧ Frame.OffCall stack := by
  cases nested with
  | nativeCall below off => exact ⟨below, off⟩

theorem of_callback {c : CallbackRun} (nested : Nested ctx (.callback c :: stack) slots) :
    Nested ctx stack slots ∧ Frame.OnCall stack := by
  cases nested with
  | callback below on => exact ⟨below, on⟩

/-- A host body that runs stands on the stack, with no other context above it. -/
theorem exists_activation {a : Activation} (nested : Nested (.body a) stack slots) :
    ∃ above saved below, stack = above ++ .activation saved :: below ∧
      Frame.context (.body a) above = .body a := by
  generalize context : Context.body a = ctx at nested
  induction nested with
  | top => cases context
  | activation below on =>
      cases context
      exact ⟨[], _, _, rfl, rfl⟩
  | thread | finalizer => cases context
  | block _ _ ih | branch _ _ ih | loop _ _ ih | hostCall _ _ ih | nativeCall _ _ ih | callback _ _ ih =>
      obtain ⟨above, saved, below, rfl, same⟩ := ih context
      exact ⟨_ :: above, saved, below, rfl, same⟩

/-- Locals have no part in the order. -/
theorem withLocals (nested : Nested ctx stack slots) (t : Scope) :
    Nested (ctx.withLocals t) stack slots := by
  induction nested with
  | top => exact .top
  | block _ off ih => exact .block ih off
  | branch _ off ih => exact .branch ih off
  | loop _ off ih => exact .loop ih off
  | hostCall _ off ih => exact .hostCall ih off
  | nativeCall _ off ih => exact .nativeCall ih off
  | callback _ on ih => exact .callback ih on
  | activation below on => exact .activation below on
  | thread below off => exact .thread below off
  | finalizer below off => exact .finalizer below off

/-- What the slots hold has no part in the order. -/
theorem fill (nested : Nested ctx stack slots) {slots' : List (Option Fault)}
    (length : slots'.length = slots.length) : Nested ctx stack slots' := by
  induction nested generalizing slots' with
  | top =>
      rw [List.length_eq_zero_iff.mp length]
      exact .top
  | block _ off ih => exact .block (ih length) off
  | branch _ off ih => exact .branch (ih length) off
  | loop _ off ih => exact .loop (ih length) off
  | hostCall _ off ih =>
      cases slots' with
      | nil => cases length
      | cons slot rest => exact .hostCall (ih (Nat.succ.inj length)) off
  | nativeCall _ off ih => exact .nativeCall (ih length) off
  | callback _ on ih => exact .callback (ih length) on
  | activation _ on ih => exact .activation (ih length) on
  | thread below off =>
      rw [List.length_eq_zero_iff.mp length]
      exact .thread below off
  | finalizer _ off ih => exact .finalizer (ih length) off

/-- Where no slot is open, a call into the engine was made by raw pointer. -/
theorem frameless (nested : Nested ctx stack slots) (none : slots = []) (on : Frame.OnCall stack) :
    ∃ (callbacks : List CallbackRun) (name : Option VarName) (below : List Frame),
      stack = callbacks.map Frame.callback ++ .nativeCall name :: below := by
  induction nested with
  | nativeCall below off ih => exact ⟨[], _, _, rfl⟩
  | @callback _ _ _ c below on' ih =>
      obtain ⟨callbacks, name, rest, rfl⟩ := ih none on'
      exact ⟨c :: callbacks, name, rest, rfl⟩
  | hostCall below off ih => cases none
  | top | block | branch | loop | activation | thread | finalizer => cases on

end Nested

end HostEmbedding
