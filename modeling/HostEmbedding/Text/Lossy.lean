/-!
# Lossy decoding of UTF-8

Arbitrary bytes as text. Well-formed sequences give their characters. Where a sequence breaks off,
the bytes read so far give one replacement character, and the byte that broke it starts afresh.
-/

namespace HostEmbedding.Lossy

/-- The character that stands for undecodable bytes. -/
def replacement : Char := '\uFFFD'

/-- Where decoding stands: between characters, or inside one with `needed` further bytes to come,
the next of them between `low` and `high`. -/
inductive State where
  | start
  | inside (needed : Nat) (low high : UInt8) (code : Nat)

/-- Read the first byte of a character. -/
def lead (b : UInt8) : List Char × State :=
  if b < 0x80 then ([Char.ofNat b.toNat], .start)
  else if b < 0xC2 then ([replacement], .start)
  else if b < 0xE0 then ([], .inside 1 0x80 0xBF (b.toNat - 0xC0))
  else if b = 0xE0 then ([], .inside 2 0xA0 0xBF 0)
  else if b = 0xED then ([], .inside 2 0x80 0x9F 0xD)
  else if b < 0xF0 then ([], .inside 2 0x80 0xBF (b.toNat - 0xE0))
  else if b = 0xF0 then ([], .inside 3 0x90 0xBF 0)
  else if b < 0xF4 then ([], .inside 3 0x80 0xBF (b.toNat - 0xF0))
  else if b = 0xF4 then ([], .inside 3 0x80 0x8F 4)
  else ([replacement], .start)

def feed : State → UInt8 → List Char × State
  | .start, b => lead b
  | .inside needed low high code, b =>
      if low ≤ b ∧ b ≤ high then
        let code := code * 64 + (b.toNat - 0x80)
        if needed ≤ 1 then ([Char.ofNat code], .start)
        else ([], .inside (needed - 1) 0x80 0xBF code)
      else
        let (cs, s) := lead b
        (replacement :: cs, s)

def decodeFrom : State → List UInt8 → List Char
  | .start, [] => []
  | .inside .., [] => [replacement]
  | s, b :: rest =>
      let (cs, s') := feed s b
      cs ++ decodeFrom s' rest

/-- The text of arbitrary bytes. -/
def decode (bs : List UInt8) : String := String.ofList (decodeFrom .start bs)

end HostEmbedding.Lossy
