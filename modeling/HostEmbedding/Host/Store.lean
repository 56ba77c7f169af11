import HostEmbedding.World.Release

/-!
# Stores and handles

Stores are created in an engine and own the queues of their native objects. A handle either acquires
a fresh native object or borrows one that its owner keeps alive; both keep the store alive.
-/

namespace HostEmbedding.World

/-- Create an engine: it is its configuration. -/
def createEngine (w : World) (config : Config) : World := w.log (.createdEngine config)

/-- Create a store with empty queues; the caller owns the only reference to it. -/
def createStore (w : World) (config : Config) : ObjId × World :=
  let (n, w) := w.allocNative (.store ⟨config, false, 0⟩)
  w.alloc (.store n config {}) 1

/-- The owning handle of a fresh native object. -/
def acquire (w : World) (native : NativeId) (store : ObjId) (state : HandleState) :
    ObjId × World :=
  (w.retain store).alloc (.handle ⟨native, store, none, state⟩) 1

/-- A view of a native object that `owner` keeps alive. -/
def borrow (w : World) (native : NativeId) (store owner : ObjId) (state : HandleState) :
    ObjId × World :=
  ((w.retain store).retain owner).alloc (.handle ⟨native, store, some owner, state⟩) 1

def createInterrupt (w : World) (store : ObjId) : Option ObjId × World :=
  let w := (w.flush store).guard .interruptNew
  match w.storeNative? store with
  | none => (none, w)
  | some s =>
      let (n, w) := w.allocNative (.interrupt s)
      let (h, w) := w.acquire n store .interrupt
      (some h, w)

/-- Request an interrupt through a native handle: the flag of its store is raised. -/
def requestInterrupt (w : World) (n : NativeId) : World :=
  match w.native? n with
  | some (.interrupt s) => w.modifyNativeStore s fun s => { s with interrupt := true }
  | _ => w

def interrupt (w : World) (h : Handle) : World :=
  (w.logAbout h.native .interruptRequested).requestInterrupt h.native

end HostEmbedding.World
