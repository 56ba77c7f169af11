import HostEmbedding.Host.Store

/-!
# Views

An extern view hides whether it views a function or a memory. Every view, also a view of a view, keeps
the owning handle itself alive, never another view.
-/

namespace HostEmbedding.World

/-- The owning handle behind a handle. -/
def ownerOf (handle : ObjId) (h : Handle) : ObjId := h.owner.getD handle

def asExtern (w : World) (handle : ObjId) (h : Handle) : ObjId × World :=
  w.borrow h.native h.store (ownerOf handle h) .view

def sharedLock? (w : World) (owner : ObjId) : Option Nat :=
  match w.handle? owner with
  | some ⟨_, _, _, .memory lock⟩ => some lock
  | _ => none

/-- View an extern as a function, with the type the native side has for it. -/
def intoFunc? (w : World) (handle : ObjId) (h : Handle) : Option (ObjId × FuncType × World) :=
  match w.nativeFunc? h.native with
  | some f =>
      let (v, w) := w.borrow h.native h.store (ownerOf handle h) (.func none)
      some (v, FuncType.ofNative f.type, w)
  | none => none

/-- View an extern as a memory that shares the lock of its owner. -/
def intoMemory? (w : World) (handle : ObjId) (h : Handle) : Option (ObjId × World) :=
  match w.nativeMemory? h.native, w.sharedLock? (ownerOf handle h) with
  | some _, some lock => some (w.borrow h.native h.store (ownerOf handle h) (.memory lock))
  | _, _ => none

end HostEmbedding.World
