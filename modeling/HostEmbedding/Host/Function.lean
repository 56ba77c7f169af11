import HostEmbedding.Host.Store

/-!
# Registering host functions

A closure is registered with the engine under an environment that the native function and the owning
handle share. The environment does not keep its store alive.
-/

namespace HostEmbedding.World

/-- Register host code whose captures are already counted. -/
def register (w : World) (store : ObjId) (code : HostCode) (captures : Scope) :
    Option ObjId × World :=
  let type := code.shape.funcType
  let w := w.flush store
  let (closure, w) := w.alloc (.closure code captures) 1
  let (env, w) := w.alloc (.env (some closure) type store) 2
  match w.storeNative? store with
  | none => (none, w)
  | some s =>
      let (n, w) := (w.guard .funcNew).allocNative (.func ⟨s, type.toNative, .host env⟩)
      let w := w.logAbout n (.registered type)
      let (h, w) := w.acquire n store (.func (some env))
      (some h, w)

end HostEmbedding.World
