import HostEmbedding.Function.Signature
import HostEmbedding.Outcome
import HostEmbedding.Value.Basic

/-!
# Typed signatures

A statically typed parameter or result list is one scalar or a tuple of scalars. It determines the
kinds at the engine boundary, encodes its scalars in order, and decodes the first values of a list,
failing at the first position that is missing or holds another kind.
-/

namespace HostEmbedding

inductive TypeList where
  | single (t : ScalarType)
  | tuple (ts : List ScalarType)
  deriving DecidableEq

namespace TypeList

variable {ρ : Type}

def types : TypeList → List ScalarType
  | .single t => [t]
  | .tuple ts => ts

def kinds : TypeList → List Kind
  | .single t => [t.kind]
  | .tuple ts => ts.map ScalarType.kind

def encode (ss : List (Scalar ρ)) : List (Val ρ) := ss.map Scalar.toVal

/-- Decode one value after another; values that are left over are ignored. -/
def decodeTuple : List ScalarType → List (Val ρ) → Except Fault (List (Scalar ρ))
  | [], _ => .ok []
  | _ :: _, [] => .error .tooFewValues
  | t :: ts, v :: vs =>
      match Scalar.decode? t v with
      | none => .error (.unexpectedKind t.kind v.kind)
      | some s =>
          match decodeTuple ts vs with
          | .error f => .error f
          | .ok ss => .ok (s :: ss)

/-- Decode the first values of a list; a single scalar decodes as a tuple of one. -/
def decode : TypeList → List (Val ρ) → Except Fault (List (Scalar ρ))
  | .single t, vs => decodeTuple [t] vs
  | .tuple ts, vs => decodeTuple ts vs

end TypeList

structure TypedSignature where
  params : TypeList
  results : TypeList
  deriving DecidableEq

namespace TypedSignature

def funcType (s : TypedSignature) : FuncType := ⟨s.params.kinds, s.results.kinds⟩

/-- The pieces of a text between commas. -/
def fields : List Char → List (List Char)
  | [] => [[]]
  | ',' :: rest => [] :: fields rest
  | c :: rest =>
      match fields rest with
      | [] => [[c]]
      | f :: fs => (c :: f) :: fs

/-- The scalar types named in a comma-separated text; empty pieces are skipped. -/
def scalarTypes? (cs : List Char) : Option (List ScalarType) :=
  ((fields cs).filter (· ≠ [])).mapM fun f => ScalarType.ofName? (String.ofList f)

def params? (cs : List Char) : Option TypeList :=
  (scalarTypes? cs).map fun ts =>
    match ts with
    | [t] => .single t
    | ts => .tuple ts

def results? (cs : List Char) : Option TypeList :=
  match cs with
  | '(' :: rest => (scalarTypes? (rest.filter (· ≠ ')'))).map .tuple
  | cs => params? cs

/-- The text before and after the first arrow. -/
def splitArrow : List Char → Option (List Char × List Char)
  | [] => none
  | '-' :: '>' :: rest => some ([], rest)
  | c :: rest => (splitArrow rest).map fun p => (c :: p.1, p.2)

/-- Read a typed signature: parameters, an arrow, results. -/
def parse? (s : String) : Option TypedSignature := do
  let (p, r) ← splitArrow s.toList
  pure ⟨← params? p, ← results? r⟩

end TypedSignature

end HostEmbedding
