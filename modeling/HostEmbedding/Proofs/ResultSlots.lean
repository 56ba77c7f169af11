import HostEmbedding.Proofs.Machine.Running
import HostEmbedding.Proofs.Slots.Leaving

/-!
# Results and parked panics

The references among the values that the engine returns to a host call are counted for that call. With
nothing parked the call hands all of them on. A call that resumes a panic does not look at the values,
and their references stay counted although nobody holds them.
-/

namespace HostEmbedding

/-- The references that a call does not hand on once the engine has returned values to it. -/
def leftBehind : Option Fault → List (Val ObjId) → List ObjId
  | none, _ => []
  | some _, vals => Val.refs vals

/-- What a call hands on and what it leaves behind are the references it was given. -/
theorem refs_resumed {declared : List Kind} {vals : List (Val ObjId)}
    (kinds : vals.map Val.kind = declared) (slot : Option Fault) :
    (Machine.resumed declared slot (.ok (vals.map Slot.ofVal))).refs ++ leftBehind slot vals =
      Val.refs vals := by
  cases slot with
  | none =>
      rw [Machine.resumed_values kinds]
      exact List.append_nil _
  | some f => rfl

namespace World

/-- A call to which the engine returns values drops its raw arguments and closes its slot; the values
stay counted, also those that it leaves behind. -/
theorem Sound.finishCall {w : World} {type : FuncType} {raw : List (Slot ObjId)}
    {vals : List (Val ObjId)} {slot : Option Fault} {lower : List (Option Fault)} {held : List ObjId}
    (sound : w.Sound (Val.refs vals ++ (Slot.refs raw ++ held)))
    (frames : w.thread.frames = slot :: lower) (kinds : vals.map Val.kind = type.results) :
    let ended := w.finishCall type raw (.ok (vals.map Slot.ofVal))
    ended.1 = Machine.resumed type.results slot (.ok (vals.map Slot.ofVal)) ∧
      ended.2.thread.frames = lower ∧ ended.2.Sound (ended.1.refs ++ (leftBehind slot vals ++ held)) := by
  have ended := finishCall_withSlots w type raw (.ok (vals.map Slot.ofVal)) slot lower
  rw [← frames, withSlots_frames] at ended
  have dropped : (w.releaseAll (Slot.refs raw)).Sound (Val.refs vals ++ held) :=
    Sound.releaseAll (Slot.refs raw) (sound.regroup fun id => by
      simp only [List.count_append]
      omega)
  rw [ended]
  refine ⟨rfl, rfl, ?_⟩
  rw [← List.append_assoc, refs_resumed kinds slot]
  exact dropped.rethread rfl rfl rfl dropped.retired dropped.finalizing

end World

namespace Machine

/-- A function that gives back a reference although a panic is parked: its body calls a function that
panics by its raw pointer, and goes on. -/
def lostResult : Block :=
  [(⟨false, false⟩, .plain (.store (.scoped "s") none)),
    (⟨false, false⟩, .plain (.reference (.scoped "r") "r" (.int 7))),
    (⟨false, false⟩, .func (.scoped "p") (.scoped "s") (.generic ⟨[], []⟩) "p" false []
      [(⟨false, false⟩, .plain (.panic (.text "boom")))]),
    (⟨false, false⟩, .plain (.rawPointer (.scoped "q") (.scoped "p"))),
    (⟨false, false⟩, .func (.scoped "f") (.scoped "s") (.generic ⟨[], [.externref]⟩) "f" false
      [.scoped "r"]
      [(⟨false, false⟩, .nativeCall none (some (.global "q")) (.elements []) ⟨0, false⟩),
        (⟨false, false⟩, .plain (.giveBack [.var (.scoped "r")]))]),
    (⟨false, false⟩, .call (.scoped "f") [] []),
    (⟨false, false⟩, .plain (.drop (.scoped "f"))),
    (⟨false, false⟩, .plain (.drop (.scoped "r")))]

/-- After the call the host value is counted for a holder that there is not: it outlives the script,
which leaves nothing else alive. -/
theorem lostResult_outlives : (after none lostResult 30).isHalted = true ∧
    (after none lostResult 30).globals.length = 0 ∧
      (after none lostResult 30).world.heap.size = 8 ∧
        ∀ i < 8, (after none lostResult 30).world.strong ⟨i⟩ = if i = 1 then 1 else 0 := by
  decide +kernel

end Machine

end HostEmbedding
