import HostEmbedding.Script.Run
import Mathlib

/-!
# Scripts over the public interface

A script is public when none of its steps, at any depth, speaks the native interface or asks for a
raw pointer. The states of a run are those that some number of transitions leads to.
-/

namespace HostEmbedding

def Action.isPublic : Action → Bool
  | .rawPointer .. => false
  | _ => true

mutual

/-- Whether a step and the steps inside it stay within the public interface. -/
def Step.isPublic : Step → Bool
  | .plain a => a.isPublic
  | .func _ _ _ _ _ _ body => Block.isPublic body
  | .call .. => true
  | .typedCall .. => true
  | .branch _ _ _ yes no => Block.isPublic yes && Block.isPublic no
  | .loop _ body => Block.isPublic body
  | .thread body => Block.isPublic body
  | .native .. => false
  | .nativeFunc .. => false
  | .nativeCall .. => false

def Block.isPublic : List (Guard × Step) → Bool
  | [] => true
  | (_, s) :: rest => s.isPublic && Block.isPublic rest

end

/-- The state that a number of transitions leads to from the start of a script. -/
def Machine.after (level : Option LogLevel) (script : Block) (n : Nat) : Machine :=
  Machine.step^[n] (Machine.start level script)

namespace Machine

@[simp]
theorem after_zero (level : Option LogLevel) (script : Block) :
    after level script 0 = start level script := rfl

theorem after_succ (level : Option LogLevel) (script : Block) (n : Nat) :
    after level script (n + 1) = (after level script n).step :=
  Function.iterate_succ_apply' _ _ _

theorem after_add (level : Option LogLevel) (script : Block) (n k : Nat) :
    after level script (n + k) = Machine.step^[k] (after level script n) := by
  rw [Nat.add_comm]
  exact Function.iterate_add_apply _ _ _ _

/-- A script that is over stays over. -/
theorem isHalted_after {level : Option LogLevel} {script : Block} {j k : Nat}
    (halted : (after level script j).isHalted = true) (le : j ≤ k) :
    (after level script k).isHalted = true := by
  induction k, le using Nat.le_induction with
  | base => exact halted
  | succ k _ ih =>
      rw [after_succ]
      unfold isHalted at ih
      unfold Machine.step
      split
      · rfl
      · split at ih
        · next ending control =>
            rw [control]
            unfold isHalted
            rw [control]
        · cases ih

end Machine

end HostEmbedding
