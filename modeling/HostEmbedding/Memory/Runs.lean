/-!
# Byte sequences as runs

A long byte sequence is kept as runs of equal bytes. `expand` is the sequence that the runs stand
for, and every operation is pinned down by what it does to that view. Runs built here are never
empty and no two neighbours share a byte, so the written form of a sequence is unique.
-/

namespace HostEmbedding

/-- A byte sequence as runs: a byte, and how often it stands there. -/
abbrev Runs := List (UInt8 × Nat)

namespace Runs

def expand : Runs → List UInt8
  | [] => []
  | (b, n) :: rest => List.replicate n b ++ expand rest

def size : Runs → Nat
  | [] => 0
  | (_, n) :: rest => n + size rest

/-- Put `n` copies of a byte in front, joining them to an equal neighbour. -/
def cons (b : UInt8) (n : Nat) (rs : Runs) : Runs :=
  if n = 0 then rs
  else match rs with
    | [] => [(b, n)]
    | (c, m) :: rest => if b = c then (c, n + m) :: rest else (b, n) :: (c, m) :: rest

def append (a b : Runs) : Runs := a.foldr (fun r acc => cons r.1 r.2 acc) b

def replicate (n : Nat) (b : UInt8) : Runs := cons b n []

def ofBytes (bs : List UInt8) : Runs := bs.foldr (fun b acc => cons b 1 acc) []

def times (n : Nat) (rs : Runs) : Runs := Nat.repeat (append rs) n []

def take : Nat → Runs → Runs
  | _, [] => []
  | n, (b, m) :: rest => if n ≤ m then cons b n [] else cons b m (take (n - m) rest)

def drop : Nat → Runs → Runs
  | _, [] => []
  | n, (b, m) :: rest => if n < m then cons b (m - n) rest else drop (n - m) rest

/-- The bytes from `offset` on, `len` of them. -/
def slice (offset len : Nat) (rs : Runs) : Runs := take len (drop offset rs)

/-- Replace the bytes from `offset` on by `new`. -/
def splice (rs : Runs) (offset : Nat) (new : Runs) : Runs :=
  append (take offset rs) (append new (drop (offset + size new) rs))

@[simp] theorem expand_cons (b : UInt8) (n : Nat) (rs : Runs) :
    expand (cons b n rs) = List.replicate n b ++ expand rs := by
  unfold cons
  split
  · simp_all
  · split
    · simp [expand]
    · split
      · simp_all [expand, ← List.append_assoc]
      · simp [expand]

@[simp] theorem length_expand (rs : Runs) : (expand rs).length = size rs := by
  induction rs with
  | nil => rfl
  | cons r rest ih => simp [expand, size, ih]

@[simp] theorem expand_append (a b : Runs) : expand (append a b) = expand a ++ expand b := by
  induction a with
  | nil => rfl
  | cons r rest ih =>
    have : append (r :: rest) b = cons r.1 r.2 (append rest b) := rfl
    rw [this, expand_cons, ih]
    simp [expand]

@[simp] theorem expand_replicate (n : Nat) (b : UInt8) :
    expand (replicate n b) = List.replicate n b := by
  simp [replicate, expand]

@[simp] theorem expand_ofBytes (bs : List UInt8) : expand (ofBytes bs) = bs := by
  induction bs with
  | nil => rfl
  | cons b rest ih =>
    have : ofBytes (b :: rest) = cons b 1 (ofBytes rest) := rfl
    rw [this, expand_cons, ih]
    rfl

@[simp] theorem expand_take (n : Nat) (rs : Runs) : expand (take n rs) = (expand rs).take n := by
  induction rs generalizing n with
  | nil => simp [take, expand]
  | cons r rest ih =>
    obtain ⟨b, m⟩ := r
    simp only [take, expand]
    split
    · rename_i h
      rw [expand_cons, List.take_append_of_le_length (by simpa using h)]
      simp [expand, h]
    · rename_i h
      rw [expand_cons, ih, List.take_append]
      simp only [List.take_replicate, List.length_replicate]
      rw [Nat.min_eq_right (by omega)]

@[simp] theorem expand_drop (n : Nat) (rs : Runs) : expand (drop n rs) = (expand rs).drop n := by
  induction rs generalizing n with
  | nil => simp [drop, expand]
  | cons r rest ih =>
    obtain ⟨b, m⟩ := r
    simp only [drop, expand]
    split
    · rename_i h
      rw [expand_cons, List.drop_append_of_le_length (by simpa using Nat.le_of_lt h)]
      simp
    · rename_i h
      rw [ih, List.drop_append]
      simp only [List.drop_replicate, List.length_replicate]
      rw [Nat.sub_eq_zero_of_le (Nat.le_of_not_lt h)]
      simp

@[simp] theorem expand_slice (offset len : Nat) (rs : Runs) :
    expand (slice offset len rs) = ((expand rs).drop offset).take len := by
  simp [slice]

theorem expand_splice (rs : Runs) (offset : Nat) (new : Runs) :
    expand (splice rs offset new) =
      (expand rs).take offset ++ (expand new ++ (expand rs).drop (offset + size new)) := by
  simp [splice]

end Runs

end HostEmbedding
