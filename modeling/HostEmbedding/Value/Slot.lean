import HostEmbedding.Value.Basic

/-!
# Raw slots

What the engine passes: a code byte and a machine word. A word is plain bits or the address of a
counted reference. Encoding a value and reading the slot back at the value's kind gives the value;
the counts that go with a reference are kept by whoever holds the slot.
-/

namespace HostEmbedding

inductive Word (ρ : Type) where
  | bits (w : UInt64)
  | ref (r : ρ)
  deriving DecidableEq

/-- A raw value: a code byte and a payload. -/
structure Slot (ρ : Type) where
  code : UInt8
  word : Word ρ
  deriving DecidableEq

namespace Word

variable {ρ : Type}

/-- The payload as plain bits; an address has none that anything may depend on. -/
def toBits : Word ρ → UInt64
  | .bits w => w
  | .ref _ => 0

/-- The payload as a reference; bits that are no live address give null. -/
def toRef : Word ρ → Option ρ
  | .bits _ => none
  | .ref r => some r

end Word

namespace Slot

variable {ρ : Type}

/-- The content of a slot that nobody has written. -/
def blank : Slot ρ := ⟨Kind.i64.code, .bits 0⟩

def ofVal : Val ρ → Slot ρ
  | .i32 v => ⟨Kind.i32.code, .bits v.toUInt32.toUInt64⟩
  | .i64 v => ⟨Kind.i64.code, .bits v.toUInt64⟩
  | .f32 b => ⟨Kind.f32.code, .bits b.toUInt64⟩
  | .f64 b => ⟨Kind.f64.code, .bits b⟩
  | .externref none => ⟨Kind.externref.code, .bits 0⟩
  | .externref (some r) => ⟨Kind.externref.code, .ref r⟩

/-- Read the payload as a value of a kind. A slot with another code is a fault of the engine, at which
decoding panics; this is left out, because codes are compared with kinds before a slot is read: those
of arguments by the gate, those of results before they are written. -/
def read (k : Kind) (s : Slot ρ) : Val ρ :=
  match k with
  | .i32 => .i32 s.word.toBits.toUInt32.toInt32
  | .i64 => .i64 s.word.toBits.toInt64
  | .f32 => .f32 s.word.toBits.toUInt32
  | .f64 => .f64 s.word.toBits
  | .externref => .externref s.word.toRef

/-- The counted reference a slot holds, if it holds one. -/
def ref? (s : Slot ρ) : Option ρ :=
  if s.code = Kind.externref.code then s.word.toRef else none

def refs (ss : List (Slot ρ)) : List ρ := ss.filterMap ref?

def map {σ : Type} (f : ρ → σ) (s : Slot ρ) : Slot σ :=
  ⟨s.code, match s.word with
    | .bits w => .bits w
    | .ref r => .ref (f r)⟩

@[simp] theorem code_ofVal (v : Val ρ) : (ofVal v).code = v.kind.code := by
  rcases v with _ | _ | _ | _ | (_ | _) <;> rfl

@[simp] theorem ref?_ofVal (v : Val ρ) : (ofVal v).ref? = v.ref? := by
  rcases v with _ | _ | _ | _ | (_ | _) <;> rfl

/-- A slot read at the kind of the value written into it gives that value. -/
@[simp] theorem read_ofVal (v : Val ρ) : (ofVal v).read v.kind = v := by
  rcases v with v | v | b | b | (_ | r)
  · simp [ofVal, read, Val.kind, Word.toBits]
  · simp [ofVal, read, Val.kind, Word.toBits]
  · simp [ofVal, read, Val.kind, Word.toBits]
  · rfl
  · rfl
  · rfl

end Slot

end HostEmbedding
