import HostEmbedding.Proofs.Machine.Reading
import HostEmbedding.Proofs.Memory.Plain
import HostEmbedding.Proofs.Native.Deeds

/-!
# What steps add

The native objects that a step may add to those that there are, and what it makes them from. Nothing but a
step, or the end of a call by pointer that trapped, adds any.
-/

namespace HostEmbedding

/-- A native object as it is created: nothing has interrupted or entered a store, and a memory is filled
with zeros. -/
def Native.Fresh : Native → Prop
  | .store s => s.interrupt = false ∧ s.depth = 0
  | .memory m => LinearMemory.create? m.cap m.limits = some m
  | _ => True

theorem Native.Fresh.of_create? {cap : UInt32} {limits : Limits} {m : LinearMemory}
    (created : LinearMemory.create? cap limits = some m) : (Native.memory m).Fresh := by
  obtain ⟨limits, capped⟩ := LinearMemory.limits_create? created
  show LinearMemory.create? m.cap m.limits = some m
  rw [limits, capped, created]

/-- The next step may add a native object. -/
inductive Machine.Adds (m : Machine) : Step → Native → Prop
  | store (name : VarName) : Adds m (.plain (.store name none)) (.store ⟨.standard, false, 0⟩)
  | storeIn (name v : VarName) (config : Config) (held : m.lookup v = some (.engine config)) :
      Adds m (.plain (.store name (some v))) (.store ⟨config, false, 0⟩)
  | memory (name v : VarName) (type : MemoryType) (s : ObjId) (n : NativeId) (st : NativeStore)
      (limits : Limits) (mem : LinearMemory) (held : m.lookup v = some (.store s))
      (native : m.world.storeNative? s = some n) (object : m.world.nativeObject? n = some (.store st))
      (valid : type.toLimits? = some limits)
      (created : LinearMemory.create? st.config.maxMemoryPages limits = some mem) :
      Adds m (.plain (.memory name v type)) (.memory mem)
  | interrupt (name v : VarName) (s : ObjId) (n : NativeId) (held : m.lookup v = some (.store s))
      (native : m.world.storeNative? s = some n) :
      Adds m (.plain (.interruptHandle name v)) (.interrupt n)
  | func (name v : VarName) (shape : Shape) (label : String) (quiet : Bool) (names : List VarName)
      (body : Block) (s env : ObjId) (n : NativeId) (held : m.lookup v = some (.store s))
      (native : m.world.storeNative? s = some n) :
      Adds m (.func name v shape label quiet names body) (.func ⟨n, shape.funcType.toNative, .host env⟩)
  | engineNew (name : Option VarName) (config : Config) :
      Adds m (.native name (.engineNew (some config))) (.engine config)
  | storeNew (name p : Option VarName) (n : NativeId) (config : Config)
      (named : m.objectNamed? p = some (n, .engine config)) :
      Adds m (.native name (.storeNew p)) (.store ⟨config, false, 0⟩)
  | funcTypeNew (name : Option VarName) (params results : RawArray UInt8) (t : NativeFuncType)
      (created : NativeFuncType.create? params.toList results.toList = some t) :
      Adds m (.native name (.funcTypeNew params results)) (.funcType t)
  | memoryTypeNew (name : Option VarName) (l : Limits) (ordered : ¬ l.max < l.min) :
      Adds m (.native name (.memoryTypeNew (some l))) (.memoryType l)
  | memoryNew (name p q : Option VarName) (n k : NativeId) (st : NativeStore) (limits : Limits)
      (mem : LinearMemory) (named : m.objectNamed? p = some (n, .store st))
      (typed : m.objectNamed? q = some (k, .memoryType limits))
      (created : LinearMemory.create? st.config.maxMemoryPages limits = some mem) :
      Adds m (.native name (.memoryNew p q)) (.memory mem)
  | memoryType (name p : Option VarName) (n : NativeId) (mem : LinearMemory)
      (named : m.objectNamed? p = some (n, .memory mem)) :
      Adds m (.native name (.memoryType p)) (.memoryType mem.limits)
  | funcType (name p : Option VarName) (n : NativeId) (f : NativeFunc)
      (named : m.objectNamed? p = some (n, .func f)) :
      Adds m (.native name (.funcType p)) (.funcType f.type)
  | interruptNew (name p : Option VarName) (n : NativeId) (o : Native)
      (named : m.objectNamed? p = some (n, o)) :
      Adds m (.native name (.interruptNew p)) (.interrupt n)
  | trapNew (name p : Option VarName) (message : RawArray UInt8) :
      Adds m (.native name (.trapNew p message)) (.trap (.ofMessage (Lossy.decode message.toList)))
  | nativeFunc (name p q : Option VarName) (label : String) (reply : Reply) (trap : Option (List UInt8))
      (nested : Option VarName) (finalizes : Bool) (finalizer : Block) (n k : NativeId) (o : Native)
      (t : NativeFuncType) (named : m.objectNamed? p = some (n, o))
      (typed : m.objectNamed? q = some (k, .funcType t)) :
      Adds m (.nativeFunc name p q label reply trap nested finalizes finalizer)
        (.func ⟨n, t, .native ⟨label, reply, trap, nested, finalizes, finalizer⟩⟩)

variable {m : Machine} {s : Step} {o : Native}

/-- What a pointer names is the object that was put there. -/
theorem Machine.nativeObject?_of_named {p : Option VarName} {n : NativeId}
    (named : m.objectNamed? p = some (n, o)) : m.world.nativeObject? n = some o :=
  World.nativeObject?_of_native? (native?_of_named named)

/-- Nothing has been done yet to an object that a step adds. -/
theorem Machine.Adds.fresh (adds : m.Adds s o) : o.Fresh := by
  cases adds with
  | store | storeIn | storeNew => exact ⟨rfl, rfl⟩
  | memory _ _ _ _ _ _ _ _ _ _ _ _ created => exact .of_create? created
  | memoryNew _ _ _ _ _ _ _ _ _ _ created => exact .of_create? created
  | _ => trivial

end HostEmbedding
