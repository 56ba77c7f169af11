import HostEmbedding.Text.Lossy
import Mathlib.Data.List.Basic

/-!
# Text that is sent as bytes

Text is sent as the UTF-8 encoding of its characters and read back by lossy decoding, which gives the text
that was sent. So whatever was read once, from bytes of any kind, is not altered by sending it further.
-/

namespace HostEmbedding.Lossy

def encode (s : String) : List UInt8 := s.toUTF8.data.toList

section

variable {n r : Nat} {rest : List UInt8}

theorem toNat_ofNat_byte (small : n < 256) : (UInt8.ofNat n).toNat = n := by
  rw [UInt8.toNat_ofNat']
  exact Nat.mod_eq_of_lt small

/-- The first byte of a character, told by its number. -/
theorem lead_ofNat (small : n < 256) : lead (UInt8.ofNat n) =
    if n < 0x80 then ([Char.ofNat n], .start)
    else if n < 0xC2 then ([replacement], .start)
    else if n < 0xE0 then ([], .inside 1 0x80 0xBF (n - 0xC0))
    else if n = 0xE0 then ([], .inside 2 0xA0 0xBF 0)
    else if n = 0xED then ([], .inside 2 0x80 0x9F 0xD)
    else if n < 0xF0 then ([], .inside 2 0x80 0xBF (n - 0xE0))
    else if n = 0xF0 then ([], .inside 3 0x90 0xBF 0)
    else if n < 0xF4 then ([], .inside 3 0x80 0xBF (n - 0xF0))
    else if n = 0xF4 then ([], .inside 3 0x80 0x8F 4)
    else ([replacement], .start) := by
  unfold lead
  simp only [UInt8.lt_iff_toNat_lt, ← UInt8.toNat_inj, toNat_ofNat_byte small]
  rfl

/-- A further byte of a character, told by what it adds. -/
theorem feed_inside {needed code : Nat} {low high : UInt8} (least : low.toNat ≤ r + 128)
    (most : r + 128 ≤ high.toNat) : feed (.inside needed low high code) (UInt8.ofNat (r + 128)) =
      if needed ≤ 1 then ([Char.ofNat (code * 64 + r)], .start)
      else ([], .inside (needed - 1) 0x80 0xBF (code * 64 + r)) := by
  have bound : high.toNat < 256 := high.toNat_lt
  have value := toNat_ofNat_byte (n := r + 128) (by omega)
  unfold feed
  dsimp only
  rw [if_pos, value, Nat.add_sub_cancel]
  rw [UInt8.le_iff_toNat_le, UInt8.le_iff_toNat_le, value]
  exact ⟨least, most⟩

theorem decodeFrom_start (b : UInt8) (rest : List UInt8) :
    decodeFrom .start (b :: rest) = (lead b).1 ++ decodeFrom (lead b).2 rest := rfl

theorem decodeFrom_inside (needed : Nat) (low high : UInt8) (code : Nat) (b : UInt8) (rest : List UInt8) :
    decodeFrom (.inside needed low high code) (b :: rest) =
      (feed (.inside needed low high code) b).1 ++
        decodeFrom (feed (.inside needed low high code) b).2 rest := rfl

/-- The last byte of a character. -/
theorem decodeFrom_last {low high : UInt8} (code : Nat) (least : low.toNat ≤ r + 128)
    (most : r + 128 ≤ high.toNat) : decodeFrom (.inside 1 low high code) (UInt8.ofNat (r + 128) :: rest) =
      Char.ofNat (code * 64 + r) :: decodeFrom .start rest := by
  rw [decodeFrom_inside, feed_inside least most]
  rfl

/-- A byte of a character before the last one. -/
theorem decodeFrom_next {needed : Nat} {low high : UInt8} (code : Nat) (least : low.toNat ≤ r + 128)
    (most : r + 128 ≤ high.toNat) :
    decodeFrom (.inside (needed + 2) low high code) (UInt8.ofNat (r + 128) :: rest) =
      decodeFrom (.inside (needed + 1) 0x80 0xBF (code * 64 + r)) rest := by
  rw [decodeFrom_inside, feed_inside least most, if_neg (by omega)]
  rfl

end

/-! ## One character -/

section

variable {v : Nat} (rest : List UInt8)

theorem decodeFrom_one (small : v ≤ 127) :
    decodeFrom .start (UInt8.ofNat v :: rest) = Char.ofNat v :: decodeFrom .start rest := by
  rw [decodeFrom_start, lead_ofNat (by omega), if_pos (by omega)]
  rfl

theorem decodeFrom_two (least : 127 < v) (most : v ≤ 2047) :
    decodeFrom .start (UInt8.ofNat (v / 64 % 32 + 192) :: UInt8.ofNat (v % 64 + 128) :: rest) =
      Char.ofNat v :: decodeFrom .start rest := by
  have first : lead (UInt8.ofNat (v / 64 % 32 + 192)) = ([], .inside 1 0x80 0xBF (v / 64)) := by
    have code : v / 64 % 32 + 192 - 0xC0 = v / 64 := by omega
    rw [lead_ofNat (by omega), if_neg (by omega), if_neg (by omega), if_pos (by omega), code]
  have whole : v / 64 * 64 + v % 64 = v := by omega
  rw [decodeFrom_start, first, List.nil_append, decodeFrom_last _ (by simp) (by simp; omega), whole]

theorem decodeFrom_three (least : 2047 < v) (most : v ≤ 65535) (valid : v < 0xD800 ∨ 0xDFFF < v) :
    decodeFrom .start (UInt8.ofNat (v / 4096 % 16 + 224) :: UInt8.ofNat (v / 64 % 64 + 128) ::
      UInt8.ofNat (v % 64 + 128) :: rest) = Char.ofNat v :: decodeFrom .start rest := by
  -- The first byte narrows what may follow, so that nothing short and no surrogate is read.
  obtain ⟨low, high, first, least', most'⟩ : ∃ low high : UInt8,
      lead (UInt8.ofNat (v / 4096 % 16 + 224)) = ([], .inside 2 low high (v / 4096)) ∧
        low.toNat ≤ v / 64 % 64 + 128 ∧ v / 64 % 64 + 128 ≤ high.toNat := by
    rw [lead_ofNat (by omega), if_neg (by omega), if_neg (by omega), if_neg (by omega)]
    by_cases zero : v / 4096 % 16 + 224 = 0xE0
    · have code : v / 4096 = 0 := by omega
      rw [if_pos zero, code]
      exact ⟨0xA0, 0xBF, rfl, by simp; omega, by simp; omega⟩
    · rw [if_neg zero]
      by_cases surrogate : v / 4096 % 16 + 224 = 0xED
      · have code : v / 4096 = 0xD := by omega
        rw [if_pos surrogate, code]
        exact ⟨0x80, 0x9F, rfl, by simp, by simp; omega⟩
      · have code : v / 4096 % 16 + 224 - 0xE0 = v / 4096 := by omega
        rw [if_neg surrogate, if_pos (by omega), code]
        exact ⟨0x80, 0xBF, rfl, by simp, by simp; omega⟩
  have whole : (v / 4096 * 64 + v / 64 % 64) * 64 + v % 64 = v := by omega
  rw [decodeFrom_start, first, List.nil_append, decodeFrom_next _ least' most',
    decodeFrom_last _ (by simp) (by simp; omega), whole]

theorem decodeFrom_four (least : 65535 < v) (most : v < 0x110000) :
    decodeFrom .start (UInt8.ofNat (v / 262144 % 8 + 240) :: UInt8.ofNat (v / 4096 % 64 + 128) ::
      UInt8.ofNat (v / 64 % 64 + 128) :: UInt8.ofNat (v % 64 + 128) :: rest) =
        Char.ofNat v :: decodeFrom .start rest := by
  obtain ⟨low, high, first, least', most'⟩ : ∃ low high : UInt8,
      lead (UInt8.ofNat (v / 262144 % 8 + 240)) = ([], .inside 3 low high (v / 262144)) ∧
        low.toNat ≤ v / 4096 % 64 + 128 ∧ v / 4096 % 64 + 128 ≤ high.toNat := by
    rw [lead_ofNat (by omega), if_neg (by omega), if_neg (by omega), if_neg (by omega), if_neg (by omega),
      if_neg (by omega), if_neg (by omega)]
    by_cases zero : v / 262144 % 8 + 240 = 0xF0
    · have code : v / 262144 = 0 := by omega
      rw [if_pos zero, code]
      exact ⟨0x90, 0xBF, rfl, by simp; omega, by simp; omega⟩
    · rw [if_neg zero]
      by_cases inner : v / 262144 % 8 + 240 < 0xF4
      · have code : v / 262144 % 8 + 240 - 0xF0 = v / 262144 := by omega
        rw [if_pos inner, code]
        exact ⟨0x80, 0xBF, rfl, by simp, by simp; omega⟩
      · have code : v / 262144 = 4 := by omega
        rw [if_neg inner, if_pos (by omega), code]
        exact ⟨0x80, 0x8F, rfl, by simp, by simp; omega⟩
  have whole : ((v / 262144 * 64 + v / 4096 % 64) * 64 + v / 64 % 64) * 64 + v % 64 = v := by omega
  rw [decodeFrom_start, first, List.nil_append, decodeFrom_next _ least' most',
    decodeFrom_next _ (by simp) (by simp; omega), decodeFrom_last _ (by simp) (by simp; omega), whole]

end

/-- The encoding of a character gives the character. -/
theorem decodeFrom_char (c : Char) (rest : List UInt8) :
    decodeFrom .start (String.utf8EncodeChar c ++ rest) = c :: decodeFrom .start rest := by
  have valid : c.val.toNat < 0xD800 ∨ 0xDFFF < c.val.toNat ∧ c.val.toNat < 0x110000 := c.valid
  have back : Char.ofNat c.val.toNat = c := Char.ofNat_toNat c
  have named {bs : List UInt8} (decoded : decodeFrom .start bs = Char.ofNat c.val.toNat :: decodeFrom .start rest) :
      decodeFrom .start bs = c :: decodeFrom .start rest := by rwa [back] at decoded
  unfold String.utf8EncodeChar
  dsimp only
  split
  · next one => exact named (decodeFrom_one rest one)
  · next one =>
      split
      · next two => exact named (decodeFrom_two rest (Nat.lt_of_not_le one) two)
      · next two =>
          split
          · next three => exact named (decodeFrom_three rest (Nat.lt_of_not_le two) three (by omega))
          · next three => exact named (decodeFrom_four rest (Nat.lt_of_not_le three) (by omega))

theorem decodeFrom_chars (cs : List Char) : decodeFrom .start (cs.flatMap String.utf8EncodeChar) = cs := by
  induction cs with
  | nil => rfl
  | cons c cs ih => rw [List.flatMap_cons, decodeFrom_char, ih]

theorem encode_eq (s : String) : encode s = s.toList.flatMap String.utf8EncodeChar := by
  have bytes : s.toUTF8 = s.toList.utf8Encode := by
    rw [String.toUTF8_eq_toByteArray, ← String.toByteArray_ofList, String.ofList_toList]
  unfold encode
  rw [bytes]
  exact List.toList_data_toByteArray

/-- Text that is sent is read back as it was. -/
theorem decode_encode (s : String) : decode (encode s) = s := by
  unfold decode
  rw [encode_eq, decodeFrom_chars, String.ofList_toList]

end HostEmbedding.Lossy
