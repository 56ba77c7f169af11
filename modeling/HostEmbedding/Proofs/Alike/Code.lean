import HostEmbedding.Proofs.Public

/-!
# Variations of a script

Two changes that should not change what a script does. Explicit flushes are put in anywhere, at the
top level and inside host code. And typed host code is registered with another shape: with or without
its caller, fallible or not, or as generic code that reads its parameters as typed scalars itself.
-/

namespace HostEmbedding

/-- How two scripts differ: by explicit flushes that only one of them has, by typed functions that the
second one registers as generic ones, or by the shapes of the functions that they register. -/
inductive Variation where
  | flushes
  | generic
  | shapes
  deriving DecidableEq

/-! ## Reading parameters -/

def ScalarType.unsignedZero? : ScalarType → Option (Scalar Empty)
  | .u32 => some (.u32 0)
  | .u64 => some (.u64 0)
  | _ => none

def VarName.param (i : Nat) : VarName := .scoped ("a" ++ toString i)

/-- The steps by which generic code reads its parameters, from a position on, as scalars of some types.
Only an unsigned one has to be read: it comes as a signed integer, which is added to an unsigned zero. -/
def Block.reading : Nat → List ScalarType → Block
  | _, [] => []
  | i, t :: ts =>
      (t.unsignedZero?.toList.map fun zero =>
        (⟨false, false⟩, .plain (.add (.param i) (.literal zero) (.var (.param i))))) ++ reading (i + 1) ts

/-! ## Code that differs -/

/-- The shape of host code and a variation of it, with the steps that its body is given in front. -/
inductive Shape.Like (δ : Variation) : Shape → Shape → Block → Prop
  | same (shape : Shape) : Shape.Like δ shape shape []
  | typed (among : δ = .shapes) (sig : TypedSignature) (caller fallible caller' fallible' : Bool) :
      Shape.Like δ (.typed sig caller fallible) (.typed sig caller' fallible') []
  | generic (among : δ ≠ .flushes) (sig : TypedSignature) (caller fallible : Bool) :
      Shape.Like δ (.typed sig caller fallible) (.generic sig.funcType) (Block.reading 0 sig.params.types)

mutual

inductive Step.Like (δ : Variation) : Step → Step → Prop
  | plain (a : Action) : Step.Like δ (.plain a) (.plain a)
  | func {name store : VarName} {shape shape' : Shape} {label : String} {quiet quiet' : Bool}
      {captures : List VarName} {first : Block} {body body' : List (Guard × Step)}
      (shapes : Shape.Like δ shape shape' first) (steps : Block.Like δ body body') :
      Step.Like δ (.func name store shape label quiet captures body)
        (.func name store shape' label quiet' captures (first ++ body'))
  | call (func : VarName) (args : List Operand) (bind : List VarName) :
      Step.Like δ (.call func args bind) (.call func args bind)
  | typedCall (func : VarName) (args : List Operand) (bind : List VarName) :
      Step.Like δ (.typedCall func args bind) (.typedCall func args bind)
  | branch {a b : Operand} {op : Comparison} {yes yes' no no' : List (Guard × Step)}
      (taken : Block.Like δ yes yes') (other : Block.Like δ no no') :
      Step.Like δ (.branch a op b yes no) (.branch a op b yes' no')
  | loop {n : Nat} {body body' : List (Guard × Step)} (steps : Block.Like δ body body') :
      Step.Like δ (.loop n body) (.loop n body')
  | thread {body body' : List (Guard × Step)} (steps : Block.Like δ body body') :
      Step.Like δ (.thread body) (.thread body')

inductive Block.Like (δ : Variation) : List (Guard × Step) → List (Guard × Step) → Prop
  | nil : Block.Like δ [] []
  | cons {g : Guard} {s s' : Step} {rest rest' : List (Guard × Step)} (first : Step.Like δ s s')
      (steps : Block.Like δ rest rest') : Block.Like δ ((g, s) :: rest) ((g, s') :: rest')
  | flushLeft {g : Guard} {store : VarName} {rest rest' : List (Guard × Step)} (among : δ = .flushes)
      (steps : Block.Like δ rest rest') : Block.Like δ ((g, .plain (.flush store)) :: rest) rest'
  | flushRight {g : Guard} {store : VarName} {rest rest' : List (Guard × Step)} (among : δ = .flushes)
      (steps : Block.Like δ rest rest') : Block.Like δ rest ((g, .plain (.flush store)) :: rest')

end

/-- Host code and a variation of it. Whether it records its own steps does not matter. -/
inductive HostCode.Like (δ : Variation) : HostCode → HostCode → Prop
  | of {label : String} {quiet quiet' : Bool} {shape shape' : Shape} {first body body' : Block}
      (shapes : Shape.Like δ shape shape' first) (steps : Block.Like δ body body') :
      HostCode.Like δ ⟨label, quiet, shape, body⟩ ⟨label, quiet', shape', first ++ body'⟩

variable {δ : Variation}

/-- A variation is registered with the same type. -/
theorem Shape.Like.funcType {shape shape' : Shape} {first : Block} (like : Shape.Like δ shape shape' first) :
    shape'.funcType = shape.funcType := by
  cases like <;> rfl

/-- Taking out flushes changes no shape. -/
theorem Shape.Like.unchanged {shape shape' : Shape} {first : Block}
    (like : Shape.Like .flushes shape shape' first) : shape' = shape ∧ first = [] := by
  cases like with
  | same => exact ⟨rfl, rfl⟩
  | typed among => cases among
  | generic among => exact absurd rfl among

/-- Generic code is given its caller and may fail. -/
theorem Shape.Like.allows {shape shape' : Shape} {first : Block}
    (like : Shape.Like .generic shape shape' first) :
    (shape.hasCaller = true → shape'.hasCaller = true) ∧ (shape.fallible = true → shape'.fallible = true) := by
  cases like with
  | same => exact ⟨id, id⟩
  | typed among => cases among
  | generic => exact ⟨fun _ => rfl, fun _ => rfl⟩

theorem HostCode.Like.allows {code code' : HostCode} (like : code.Like .generic code') :
    (code.shape.hasCaller = true → code'.shape.hasCaller = true) ∧
      (code.shape.fallible = true → code'.shape.fallible = true) := by
  cases like with
  | of shapes steps => exact shapes.allows

theorem HostCode.Like.unchanged {code code' : HostCode} (like : code.Like .flushes code') :
    code'.shape = code.shape := by
  cases like with
  | of shapes steps => exact shapes.unchanged.1

theorem HostCode.Like.label {code code' : HostCode} (like : code.Like δ code') :
    code'.label = code.label := by
  cases like
  rfl

theorem HostCode.Like.funcType {code code' : HostCode} (like : code.Like δ code') :
    code'.shape.funcType = code.shape.funcType := by
  cases like with
  | of shapes steps => exact shapes.funcType

end HostEmbedding
