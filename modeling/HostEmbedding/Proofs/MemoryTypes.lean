import HostEmbedding.Proofs.Memory.Making

/-!
# Memory types that come back

A memory tells the type that it was made with, whenever it is asked, through whichever handle, and however
it has grown. There is one exception: the greatest page number stands for an absent maximum on the native
side, so a maximum that is stated to be this number comes back as none.
-/

namespace HostEmbedding

namespace MemoryType

variable {t : MemoryType} {l : Limits}

/-- What is told of a type by the native limits that it is turned into. -/
def told (t : MemoryType) : MemoryType :=
  if t.maximum = some Limits.unbounded then ⟨t.minimum, none⟩ else t

theorem ofLimits_toLimits? (native : t.toLimits? = some l) : ofLimits l = t.told := by
  obtain ⟨least, most⟩ := t.toLimits?_eq_some native
  obtain ⟨minimum, maximum⟩ := t
  unfold ofLimits told
  rw [least, most]
  cases maximum with
  | none => rfl
  | some max =>
      by_cases greatest : max = Limits.unbounded
      · subst greatest
        rfl
      · simp [greatest]

/-- Exactly the types whose maximum is not stated to be the greatest page number come back. -/
theorem ofLimits_toLimits?_iff (native : t.toLimits? = some l) :
    ofLimits l = t ↔ t.maximum ≠ some Limits.unbounded := by
  rw [ofLimits_toLimits? native]
  unfold told
  split
  · next greatest =>
      refine iff_of_false (fun same => ?_) (not_not.mpr greatest)
      rw [← same] at greatest
      cases greatest
  · next other => exact iff_of_true rfl other

/-- A type that comes back as another one. -/
example : (toLimits? ⟨1, some 4294967295⟩).map ofLimits = some ⟨1, none⟩ := rfl

end MemoryType

namespace Machine

/-- On every run of a public script, a memory that it made tells its type through every handle that reaches
it. -/
theorem memoryTypes_after (level : Option LogLevel) {script : Block} (isPublic : Block.isPublic script = true)
    {k : ℕ} {type : MemoryType} {cap : UInt32} {n : NativeId}
    (made : MadeBefore (after level script) k type cap n) {g : Guard} {v : VarName} {mem : LinearMemory}
    (begins : (after level script k).AtStep g (.plain (.memoryType v)))
    (named : (after level script k).memoryNamed? v = some (n, mem)) :
    after level script (k + 1) = (after level script k).finish (.memoryType type.told) := by
  have ofType := made.ofType isPublic (memory_of_named named)
  rw [after_succ, AtStep.memoryOp .type begins named, ← MemoryType.ofLimits_toLimits? ofType.limits]
  rfl

end Machine

end HostEmbedding
