import HostEmbedding.Host.Store

/-!
# Memories through handles

Creating a memory flushes its store first, also when the type is then refused. Access through any
handle reaches the one native memory behind it.
-/

namespace HostEmbedding.World

/-- Create a memory on the native side; none when its minimum exceeds the page cap of the store. -/
def createNativeMemory (w : World) (store : NativeId) (limits : Limits) :
    Option NativeId × World :=
  match (w.nativeStore? store).bind fun s => LinearMemory.create? s.config.maxMemoryPages limits with
  | none => (none, w)
  | some m =>
      let (n, w) := w.allocNative (.memory m)
      (some n, w)

def createMemory (w : World) (store : ObjId) (type : MemoryType) :
    Except ApiError ObjId × World :=
  let w := w.flush store
  match type.toLimits?, w.storeNative? store with
  | some limits, some s =>
      match (w.guard .memoryNew).createNativeMemory s limits with
      | (none, w) => (.error (.invalidMemoryType type), w)
      | (some n, w) =>
          let w := w.logAbout n (.createdMemory type)
          let (h, w) := { w with locks := w.locks + 1 }.acquire n store (.memory w.locks)
          (.ok h, w)
  | _, _ => (.error (.invalidMemoryType type), w)

def memoryOf? (w : World) (handle : ObjId) : Option (NativeId × LinearMemory) :=
  match w.handle? handle with
  | some h => (w.nativeMemory? h.native).map fun m => (h.native, m)
  | none => none

/-- Grow a native memory; whether it was granted. -/
def growNative (w : World) (n : NativeId) (m : LinearMemory) (delta : UInt32) : Bool × World :=
  match m.grow? delta with
  | some m => (true, w.setNative n (.memory m))
  | none => (false, w)

def grow (w : World) (n : NativeId) (m : LinearMemory) (delta : UInt32) : Bool × World :=
  match w.growNative n m delta with
  | (true, w) => (true, w)
  | (false, w) => (false, w.logAbout n fun t => .refusedGrow t delta)

def write (w : World) (n : NativeId) (m : LinearMemory) (offset : Nat) (data : Runs) :
    Except ApiError Unit × World :=
  match m.write? offset data with
  | some m => (.ok (), w.setNative n (.memory m))
  | none => (.error (.outOfBounds offset data.size m.dataSize), w)

def read (m : LinearMemory) (offset len : Nat) : Except ApiError Runs :=
  match m.read? offset len with
  | some data => .ok data
  | none => .error (.outOfBounds offset len m.dataSize)

/-- Whether the bytes of two memories start at the same address: they are the same memory, or neither
has any bytes, which all start at one dangling address. -/
def sameData (a b : NativeId × LinearMemory) : Bool :=
  a.1 = b.1 || (a.2.dataSize = 0 && b.2.dataSize = 0)

end HostEmbedding.World
