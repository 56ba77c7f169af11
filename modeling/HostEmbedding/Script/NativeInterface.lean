import HostEmbedding.Script.Calling
import HostEmbedding.Decimal.Shortest

/-!
# Steps of the native interface

Raw pointers are plain numbers: they count nothing, and nothing stops a script from deleting what they
point to. A step that names a deleted object is refused by name.
-/

namespace HostEmbedding.Machine

/-- Go on with the native object a pointer argument names; null gives `none`. -/
def withPointer (m : Machine) (p : Option VarName) (k : Option NativeId → Machine) : Machine :=
  match p with
  | none => k none
  | some v =>
      match m.lookup v with
      | some (.raw n) =>
          if (m.world.native? n).isSome then k (some n) else m.finish (.freed v.text)
      | _ => m.unusable v

/-- Go on with the native object a pointer argument names; null cannot be used. -/
def withObject (m : Machine) (p : Option VarName) (k : NativeId → Native → Machine) : Machine :=
  m.withPointer p fun n? =>
    match n? with
    | none => m.finish (.unusable "null")
    | some n =>
        match m.world.native? n with
        | some o => k n o
        | none => m.finish (.unusable "null")

def givePointer (m : Machine) (name : Option VarName) (n : NativeId) : Machine :=
  match name with
  | some name => (m.assign name (.raw n)).finish .pointer
  | none => m.finish .pointer

def giveNew (m : Machine) (name : Option VarName) (o : Native) : Machine :=
  let (n, w) := m.world.allocNative o
  (m.withWorld w).givePointer name n

/-- The running step returns the pointer it was given, null or not. -/
def giveSame (m : Machine) (name : Option VarName) (p : Option VarName) : Machine :=
  m.withPointer p fun n? =>
    match n? with
    | some n => m.givePointer name n
    | none => m.finish .null

def withNativeMemory (m : Machine) (p : Option VarName) (k : NativeId → LinearMemory → Machine) :
    Machine :=
  m.withObject p fun n o =>
    match o with
    | .memory mem => k n mem
    | _ => m.finish (.unusable "memory")

def withNativeFunc (m : Machine) (p : Option VarName) (k : NativeId → NativeFunc → Machine) :
    Machine :=
  m.withObject p fun n o =>
    match o with
    | .func f => k n f
    | _ => m.finish (.unusable "function")

def slotText (s : Slot Empty) : String :=
  match Kind.ofCode? s.code with
  | some .i32 => "wasm_val_t::I32(" ++ toString s.word.toBits.toUInt32.toInt32.toInt ++ ")"
  | some .i64 => "wasm_val_t::I64(" ++ toString s.word.toBits.toInt64.toInt ++ ")"
  | some .f32 => "wasm_val_t::F32(" ++ FloatFormat.single.text s.word.toBits.toUInt32.toNat ++ ")"
  | some .f64 => "wasm_val_t::F64(" ++ FloatFormat.double.text s.word.toBits.toNat ++ ")"
  | some .externref => "wasm_val_t::ExternRef(" ++ hexAddress s.word.toBits.toNat ++ ")"
  | none => "wasm_val_t::Unknown(kind=" ++ toString s.code.toNat ++ ")"
where
  hexAddress (n : Nat) : String := "0x" ++ String.ofList (Nat.toDigits 16 n)

/-- Delete a function; the finalizer of a native callback runs before the step ends. -/
def deleteFunction (m : Machine) (p : Option NativeId) : Machine :=
  match p with
  | none => (m.withWorld (m.world.guard .funcDelete)).finish .ok
  | some n =>
      let callback? := (m.world.nativeFunc? n).map NativeFunc.callback
      let m := m.withWorld (m.world.deleteFunc n)
      match callback? with
      | some (.native code) =>
          if code.finalizes then
            { m with
              world := (m.world.enterFinalizer n).emit (.finalized code.label)
              context := .finalizer code.label
              stack := .block true 0 code.finalizer :: .finalizer m.context :: m.stack
              control := .run }
          else m.finish .ok
      | _ => m.finish .ok

def deleteMemoryStep (m : Machine) (p : Option NativeId) : Machine :=
  match p with
  | none => (m.withWorld (m.world.guard .memoryDelete)).finish .ok
  | some n => (m.withWorld (m.world.deleteMemory n)).finish .ok

/-- Delete an object whose deletion is not guarded. -/
def deleteUnguarded (m : Machine) (p : Option NativeId) : Machine :=
  match p with
  | none => m.finish .ok
  | some n => (m.withWorld (m.world.deleteNative n)).finish .ok

def nativeMemoryNew (m : Machine) (name : Option VarName) (s t : Option NativeId) : Machine :=
  let m := m.withWorld (m.world.guard .memoryNew)
  match s, t.bind m.world.native? with
  | some s, some (.memoryType limits) =>
      match m.world.createNativeMemory s limits with
      | (some n, w) => (m.withWorld w).givePointer name n
      | (none, w) => (m.withWorld w).finish .null
  | _, _ => m.finish .null

/-- Do a step of the native interface that runs nothing but a finalizer. -/
def native (m : Machine) (name : Option VarName) : NativeStep → Machine
  | .engineNew none => m.finish .null
  | .engineNew (some config) => m.giveNew name (.engine config)
  | .engineDelete p => m.withPointer p m.deleteUnguarded
  | .storeNew p => m.withPointer p fun n? =>
      match n?.bind m.world.native? with
      | some (.engine config) => m.giveNew name (.store ⟨config, false, 0⟩)
      | _ => m.finish .null
  | .storeDelete p => m.withPointer p fun n? =>
      (m.withWorld (m.world.guard .storeDelete)).deleteUnguarded n?
  | .funcTypeNew params results =>
      match NativeFuncType.create? params.toList results.toList with
      | some t => m.giveNew name (.funcType t)
      | none => m.finish .null
  | .funcTypeParams p => m.withObject p fun _ o =>
      match o with
      | .funcType t => m.finish (.codes t.params)
      | _ => m.finish (.unusable "type")
  | .funcTypeResults p => m.withObject p fun _ o =>
      match o with
      | .funcType t => m.finish (.codes t.results)
      | _ => m.finish (.unusable "type")
  | .funcTypeDelete p => m.withPointer p m.deleteUnguarded
  | .memoryTypeNew none => m.finish .null
  | .memoryTypeNew (some l) =>
      if l.max < l.min then m.finish .null else m.giveNew name (.memoryType l)
  | .memoryTypeLimits p => m.withObject p fun _ o =>
      match o with
      | .memoryType l => m.finish (.limits l)
      | _ => m.finish (.unusable "type")
  | .memoryTypeDelete p => m.withPointer p m.deleteUnguarded
  | .memoryNew s t => m.withPointer s fun s => m.withPointer t fun t => m.nativeMemoryNew name s t
  | .memoryType p => m.withNativeMemory p fun _ mem => m.giveNew name (.memoryType mem.limits)
  | .memoryData p => m.withNativeMemory p fun _ mem => m.finish (.runs mem.bytes)
  | .memoryDataSize p => m.withNativeMemory p fun _ mem => m.finish (.nat mem.dataSize)
  | .memorySize p => m.withNativeMemory p fun _ mem => m.finish (.nat mem.pages.toNat)
  | .memoryGrow p delta => m.withNativeMemory p fun n mem =>
      let (granted, w) := m.world.growNative n mem delta
      (m.withWorld w).finish (.bool granted)
  | .memoryAsExtern p => m.giveSame name p
  | .memoryDelete p => m.withPointer p m.deleteMemoryStep
  | .memoryPoke p offset bytes => m.withNativeMemory p fun n mem =>
      (m.withWorld (m.world.setNative n (.memory (mem.overwrite offset (Runs.ofBytes bytes))))).finish
        .ok
  | .externKind p => m.withObject p fun _ o =>
      match o.externKind? with
      | some k => m.finish (.nat k.code.toNat)
      | none => m.finish (.unusable "extern")
  | .externAsFunc p => m.withObject p fun n o =>
      if o.externKind? = some .func then m.givePointer name n else m.finish .null
  | .externAsMemory p => m.withObject p fun n o =>
      if o.externKind? = some .memory then m.givePointer name n else m.finish .null
  | .externDelete p => m.withPointer p fun n? =>
      match n?.bind m.world.externKind? with
      | some .func => m.deleteFunction n?
      | some .memory => m.deleteMemoryStep n?
      | none => m.finish .ok
  | .funcType p => m.withNativeFunc p fun _ f => m.giveNew name (.funcType f.type)
  | .funcParamArity p => m.withNativeFunc p fun _ f => m.finish (.nat f.type.params.length)
  | .funcResultArity p => m.withNativeFunc p fun _ f => m.finish (.nat f.type.results.length)
  | .funcAsExtern p => m.giveSame name p
  | .funcDelete p => m.withPointer p m.deleteFunction
  | .interruptNew p => m.withPointer p fun n? =>
      let m := m.withWorld (m.world.guard .interruptNew)
      match n? with
      | some s => m.giveNew name (.interrupt s)
      | none => m.finish .null
  | .interruptRequest p => m.withObject p fun n _ =>
      (m.withWorld (m.world.requestInterrupt n)).finish .ok
  | .interruptDelete p => m.withPointer p fun n? =>
      (m.withWorld (m.world.guard .interruptDelete)).deleteUnguarded n?
  | .trapNew s message => m.withPointer s fun _ =>
      m.giveNew name (.trap (.ofMessage (Lossy.decode message.toList)))
  | .trapMessage p => m.withPointer p fun n? =>
      match n?.bind m.world.native? with
      | some (.trap t) => m.finish (.trapMessage (some t.message))
      | _ => m.finish (.trapMessage none)
  | .trapCode p => m.withObject p fun _ o =>
      match o with
      | .trap t => m.finish (.trapCode t.code)
      | _ => m.finish (.unusable "trap")
  | .trapDelete p => m.withPointer p m.deleteUnguarded
  | .slotText s => m.finish (.text (slotText s))
  | .blankSlot => m.finish (.slot Slot.blank)
  | .constants => m.finish .nativeConstants

def nativeFunc (m : Machine) (name : Option VarName) (store type : Option VarName)
    (code : NativeCode) : Machine :=
  m.withPointer store fun s => m.withPointer type fun t =>
    let m := m.withWorld (m.world.guard .funcNew)
    match s, t.bind m.world.native? with
    | some s, some (.funcType t) => m.giveNew name (.func ⟨s, t, .native code⟩)
    | _, _ => m.finish .null

/-- Start a call of a raw function pointer: no slot is opened for a panic. -/
def nativeCall (m : Machine) (name : Option VarName) (p : Option VarName)
    (args : RawArray (Slot Empty)) (slots : SlotArray) : Machine :=
  m.withNativeFunc p fun n _ =>
    { m with
      stack := .nativeCall name :: m.stack
      control := .enter n (args.toList.map (Slot.map Empty.elim)) slots }

/-- End a call of a raw function pointer: a trap is kept under a name or deleted. -/
def endNativeCall (m : Machine) (name : Option VarName) : EngineResult → Machine
  | .ok slots => m.finish (.slots (shownSlots slots))
  | .error t =>
      match name with
      | some name =>
          let (n, w) := m.world.allocNative (.trap t)
          ((m.withWorld w).assign name (.raw n)).finish (.nativeTrap t)
      | none => m.finish (.nativeTrap t)

end HostEmbedding.Machine
