import HostEmbedding.World.Release

/-!
# The engine's gate

Every entry into the engine passes one gate. It refuses with the first reason that applies: a pending
interrupt, which is thereby consumed; a wrong number of arguments or result slots; an argument of the
wrong kind; exhausted call depth. An admitted call is counted in its store until it leaves.
-/

namespace HostEmbedding

/-- How a call into the engine ends: a trap, or the result slots. -/
abbrev EngineResult := Except NativeTrap (List (Slot ObjId))

def firstWrongKind : List UInt8 → List (Slot ObjId) → Option Nat
  | c :: cs, a :: as => if a.code = c then (firstWrongKind cs as).map (· + 1) else some 0
  | _, _ => none

structure Admitted where
  func : NativeFunc
  /-- The number of calls active on the store, this one included. -/
  depth : UInt32

namespace World

/-- A call enters a store. -/
def count (w : World) (store : NativeId) : World :=
  w.modifyNativeStore store fun s => { s with depth := s.depth + 1 }

def leave (w : World) (store : NativeId) : World :=
  w.modifyNativeStore store fun s => { s with depth := s.depth - 1 }

/-- A change of a native store that is taken back leaves the world as it was. -/
theorem modifyNativeStore_takenBack (w : World) (n : NativeId) {f g : NativeStore → NativeStore}
    (back : ∀ s, g (f s) = s) : (w.modifyNativeStore n f).modifyNativeStore n g = w := by
  have kept : ((w.modifyNativeStore n f).modifyNativeStore n g).natives = w.natives := by
    refine Array.ext (by simp [modifyNativeStore, modifyNative]) fun i _ _ => ?_
    simp only [modifyNativeStore, modifyNative, Array.getElem_modify]
    split
    · rcases w.natives[i] with ⟨o, deletions, finalized, tag⟩
      cases o <;> simp [back]
    · rfl
  exact congrArg (fun natives => { w with natives }) kept

/-- A call that is not counted any more leaves nothing behind, whatever the counter was: the step that
wraps around is taken back. -/
theorem leave_count (w : World) (store : NativeId) : (w.count store).leave store = w :=
  modifyNativeStore_takenBack w store fun s => by simp

/-- Ask the gate to admit a call. The call is counted before the depth is compared with its limit, and
taken back when the limit refuses it. -/
def tryEnter (w : World) (n : NativeId) (args : List (Slot ObjId)) (slots : Nat) :
    Except NativeTrap Admitted × World :=
  match w.nativeFunc? n with
  | none => (.error (.ofMessage "wasm trap: no such function"), w)
  | some f =>
      match w.nativeStore? f.store with
      | none => (.error (.ofMessage "wasm trap: no such store"), w)
      | some s =>
          if s.interrupt then
            (.error (.ofCode .interrupt),
              w.modifyNativeStore f.store fun s => { s with interrupt := false })
          else if args.length ≠ f.type.params.length ∨ slots ≠ f.type.results.length then
            (.error (.wrongArity f.type.params.length f.type.results.length args.length slots), w)
          else match firstWrongKind f.type.params args with
            | some i => (.error (.wrongKind i), w)
            | none =>
                let w := w.count f.store
                if s.config.maxCallDepth ≤ s.depth then (.error (.ofCode .stackOverflow), w.leave f.store)
                else (.ok ⟨f, s.depth + 1⟩, w)

end World

end HostEmbedding
