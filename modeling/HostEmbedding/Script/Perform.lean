import HostEmbedding.Script.Diagnostic
import HostEmbedding.Script.Machine
import HostEmbedding.Value.Integer

/-!
# Steps that end at once

What a step does that neither calls into the engine nor runs further steps. Such a step reads its
variables, changes the world and its variables, and ends with an answer; it holds nothing on its own.
-/

namespace HostEmbedding.Machine

/-- Create a store, in a fresh standard engine if none is named. -/
def newStore (m : Machine) (name : VarName) (engine : Option VarName) : Machine :=
  let create (m : Machine) (config : Config) :=
    let (s, w) := m.world.createStore config
    ((m.withWorld w).assign name (.store s)).finish (.config config)
  match engine with
  | none => create (m.withWorld (m.world.createEngine .standard)) .standard
  | some v =>
      match m.lookup v with
      | some (.engine config) => create m config
      | _ => m.unusable v

def newMemory (m : Machine) (g : Guard) (name : VarName) (v : VarName) (type : MemoryType) : Machine :=
  m.withStore v fun s =>
    match m.world.createMemory s type with
    | (.ok h, w) => ((m.withWorld w).assign name (.memory h)).finish .ok
    | (.error e, w) => (m.withWorld w).refuse g e

def writeMemory (m : Machine) (g : Guard) (n : NativeId) (mem : LinearMemory) (offset : Nat)
    (data : Runs) : Machine :=
  match m.world.write n mem offset data with
  | (.ok _, w) => (m.withWorld w).finish .ok
  | (.error e, w) => (m.withWorld w).refuse g e

def pokeMemory (m : Machine) (g : Guard) (v : VarName) (address value : Operand) : Machine :=
  m.withMemory v fun n mem =>
    m.withOperand address fun a =>
      m.withOperand value fun s =>
        match a.address?, s.bytes? with
        | some offset, some bytes => m.writeMemory g n mem offset (Runs.ofBytes bytes)
        | _, _ => m.unusable v

def newFunc (m : Machine) (name : VarName) (v : VarName) (code : HostCode) (caps : List VarName) :
    Machine :=
  m.withStore v fun s =>
    match caps.mapM fun c => (m.lookup c).map fun i => (c.base, i) with
    | none => m.unusable v
    | some captures =>
        match (m.world.retainAll (Scope.refs captures)).register s code captures with
        | (some h, w) =>
            ((m.withWorld w).assign name (.func h code.shape.funcType)).finish
              (.text code.shape.funcType.text)
        | (none, w) => (m.withWorld w).unusable v

def showFuncType (m : Machine) (v : VarName) : Machine :=
  match m.lookup v with
  | some (.func h type) =>
      match (m.world.handle? h).bind fun h => m.world.nativeFunc? h.native with
      | some f => m.finish (.funcType type (f.type.params.length, f.type.results.length))
      | none => m.unusable v
  | _ => m.unusable v

def newTyped (m : Machine) (g : Guard) (name : VarName) (v : VarName) (sig : TypedSignature) :
    Machine :=
  match m.lookup v with
  | some (.func h type) =>
      if sig.funcType = type then (m.assignCopy name (.typedFunc h type sig)).finish .ok
      else m.refuse g (.signatureMismatch sig.funcType type)
  | _ => m.unusable v

/-- Make a reference to a content whose own references are already counted. -/
def newReference (m : Machine) (name : VarName) (label : String) (payload : Payload) : Machine :=
  let (r, w) := m.world.alloc (.referent label payload) 1
  ((m.withWorld w).assign name (.value (.externref (some r)))).finish .ok

/-- Make a reference to what a literal describes. -/
def reference (m : Machine) (name : VarName) (label : String) : PayloadLiteral → Machine
  | .text s => m.newReference name label (.text s)
  | .int n => m.newReference name label (.int n)
  | .unit => m.newReference name label .unit
  | .func v | .memory v | .store v =>
      match m.lookup v with
      | some i => (m.withWorld (m.world.retainAll i.refs)).newReference name label (.item i)
      | none => m.unusable v

/-- Whether an item is of the type under which a content is asked for. -/
def hasType : PayloadType → Item → Bool
  | .func, .func .. => true
  | .memory, .memory _ => true
  | .store, .store _ => true
  | _, _ => false

def content (m : Machine) (s : Scalar ObjId) (type : PayloadType) (name : Option VarName) : Machine :=
  let payload? := s.ref?.bind m.world.payload?
  match type, payload? with
  | .text, some (.text s) => m.finish (.text s)
  | .text, _ => m.finish .null
  | .int, some (.int n) => m.finish (.int n)
  | .int, _ => m.finish .null
  | .unit, some .unit => m.finish (.bool true)
  | .unit, _ => m.finish (.bool false)
  | type, some (.item i) =>
      if hasType type i then
        match name with
        | some name => (m.assignCopy name i).finish (.bool true)
        | none => m.finish (.bool true)
      else m.finish (.bool false)
  | _, _ => m.finish (.bool false)

/-- Put a copy of an item into a cell; what it held is dropped after. -/
def putCell (m : Machine) (cell : ObjId) (old : Option Item) (new : Option Item) : Machine :=
  let w := m.world.retainAll (new.toList.flatMap Item.refs)
  let w := w.setObject cell (.cell new)
  (m.withWorld (w.releaseAll (old.toList.flatMap Item.refs))).finish (.bool old.isSome)

def newExtern (m : Machine) (name : VarName) (v : VarName) : Machine :=
  m.withHandle v fun _ id h =>
    let (e, w) := m.world.asExtern id h
    ((m.withWorld w).assign name (.view e)).finish .ok

def externToFunc (m : Machine) (name : VarName) (v : VarName) : Machine :=
  m.withHandle v fun _ id h =>
    match m.world.intoFunc? id h with
    | some (f, type, w) => ((m.withWorld w).assign name (.func f type)).finish (.bool true)
    | none => m.finish (.bool false)

def externToMemory (m : Machine) (name : VarName) (v : VarName) : Machine :=
  m.withHandle v fun _ id h =>
    match m.world.intoMemory? id h with
    | some (mem, w) => ((m.withWorld w).assign name (.memory mem)).finish (.bool true)
    | none => m.finish (.bool false)

def arithmetic (m : Machine) (name : VarName) (f : Int → Int → Int) (a b : Operand) : Machine :=
  m.withOperand a fun x =>
    m.withOperand b fun y =>
      match Scalar.combine? f x y with
      | some s => (m.assign name (.value s)).finish (.value (m.world.shown s))
      | none => m.unusable name

/-- The running body, if it was given its caller. -/
def caller? (m : Machine) : Option Activation :=
  match m.context with
  | .body a => if a.code.shape.hasCaller then some a else none
  | _ => none

def callerDepth (m : Machine) (name : Option VarName) : Machine :=
  match m.caller? with
  | none => m.finish (.unusable "caller")
  | some a =>
      match name with
      | some name => (m.assign name (.value (.i32 a.depth.toInt32))).finish (.nat a.depth.toNat)
      | none => m.finish (.nat a.depth.toNat)

/-- Do a step that ends at once. -/
def perform (m : Machine) (g : Guard) : Action → Machine
  | .engine name pages depth =>
      let config : Config := ⟨pages.getD Config.defaultMaxMemoryPages,
        depth.getD Config.defaultMaxCallDepth⟩
      ((m.withWorld (m.world.createEngine config)).assign name (.engine config)).finish
        (.config config)
  | .store name engine => m.newStore name engine
  | .flush v => m.withStore v fun s =>
      let w := m.world.flush s
      (m.withWorld w).finish (.nat w.lastFlush)
  | .pending v => m.withStore v fun s => m.finish (.nat (m.world.pending s).size)
  | .sameStore a b => m.withStore a fun s => m.withStore b fun t => m.finish (.bool (s = t))
  | .storeOf name v => m.withHandle v fun _ _ h =>
      (m.assignCopy name (.store h.store)).finish .ok
  | .engineOf name v => m.withStore v fun s =>
      (m.assign name (.engine (m.world.storeConfig s))).finish .ok
  | .interruptHandle name v => m.withStore v fun s =>
      let (h?, w) := m.world.createInterrupt s
      (m.withWorld w).assignNew name (h?.map .interrupt) .ok
  | .interrupt v => m.withHandle v fun _ _ h =>
      (m.withWorld (m.world.interrupt h)).finish .ok
  | .memory name v type => m.newMemory g name v type
  | .memoryType v => m.withMemory v fun _ mem =>
      m.finish (.memoryType (.ofLimits mem.limits))
  | .size v => m.withMemory v fun _ mem => m.finish (.nat mem.pages.toNat)
  | .dataSize v => m.withMemory v fun _ mem => m.finish (.nat mem.dataSize)
  | .grow v delta => m.withMemory v fun n mem =>
      let (granted, w) := m.world.grow n mem delta
      (m.withWorld w).finish (.bool granted)
  | .read v offset len => m.withMemory v fun _ mem =>
      match World.read mem offset len with
      | .ok data => m.finish (.runs data)
      | .error e => m.refuse g e
  | .write v offset bytes times => m.withMemory v fun n mem =>
      m.writeMemory g n mem offset (Runs.times times (Runs.ofBytes bytes))
  | .poke v address value => m.pokeMemory g v address value
  | .data v => m.withMemory v fun _ mem => m.finish (.runs mem.bytes)
  | .sameData a b => m.withMemory a fun n x => m.withMemory b fun k y =>
      m.finish (.bool (World.sameData (n, x) (k, y)))
  | .asExtern name v => m.newExtern name v
  | .externKind v => m.withHandle v fun _ _ h =>
      match m.world.externKind? h.native with
      | some k => m.finish (.text k.name)
      | none => m.unusable v
  | .intoFunc name v => m.externToFunc name v
  | .intoMemory name v => m.externToMemory name v
  | .clone name v =>
      match m.lookup v with
      | some i => (m.assignCopy name i).finish .ok
      | none => m.unusable v
  | .drop v =>
      let (existed, m) := m.erase v
      m.finish (.bool existed)
  | .cell name =>
      let (c, w) := m.world.alloc (.cell none) 1
      ((m.withWorld w).assign name (.cell c)).finish .ok
  | .put c v => m.withCell c fun c old =>
      match m.lookup v with
      | some i => m.putCell c old (some i)
      | none => m.unusable v
  | .get name c => m.withCell c fun _ content =>
      match content with
      | some i => (m.assignCopy name i).finish (.bool true)
      | none => m.finish (.bool false)
  | .take c => m.withCell c fun c old => m.putCell c old none
  | .debug v =>
      match (m.lookup v).bind m.world.debug? with
      | some (s, w) => (m.withWorld w).finish (.text s)
      | none => m.unusable v
  | .funcType v => m.showFuncType v
  | .typed name v sig => m.newTyped g name v sig
  | .typedFunc name v =>
      match m.lookup v with
      | some (.typedFunc h type _) => (m.assignCopy name (.func h type)).finish .ok
      | _ => m.unusable v
  | .reference name label payload => m.reference name label payload
  | .set name o => m.withOperand o fun s =>
      let shown := m.world.shown s
      (m.assignCopy name (.value s)).finish (.value shown)
  | .strong o => m.withOperand o fun s =>
      match s.ref? with
      | some r => m.finish (.nat (m.world.strong r))
      | none => m.finish .null
  | .sameReference a b => m.withOperand a fun x => m.withOperand b fun y =>
      m.finish (.bool (x.ref?.isSome && x.ref? = y.ref?))
  | .equalValues a b => m.withOperand a fun x => m.withOperand b fun y =>
      m.finish (.bool (x.toVal = y.toVal))
  | .content o type name => m.withOperand o fun s => m.content s type name
  | .accessors o => m.withOperand o fun s =>
      m.finish (.accessors (s.toVal.map m.world.label))
  | .expectKind o kind => m.withOperand o fun s =>
      if s.toVal.kind = kind then m.finish (.value (m.world.shown (.ofVal s.toVal)))
      else m.complete (.panicked (.unexpectedKind kind s.toVal.kind))
  | .zeroOf kind => m.finish (.zero kind)
  | .describeFuncType type => m.finish (.funcTypeDetails type)
  | .equalFuncTypes a b => m.finish (.bool (a = b))
  | .describeMemoryType type => m.finish (.memoryTypeDetails type)
  | .describeTrap message => m.finish (.trap (.ofMessage message))
  | .configure settings => m.finish (.configDetails (settings.foldl Config.apply .standard))
  | .defaults => m.finish .defaults
  | .typedKinds sig => m.finish (.typedKinds sig.params.kinds sig.results.kinds)
  | .decodeValues sig side os => m.withOperands os fun ss =>
      let types := match side with
        | .params => sig.params
        | .results => sig.results
      match types.decode (TypeList.encode ss) with
      | .ok ss => m.finish (.values (ss.map m.world.shown))
      | .error f => m.complete (.panicked f)
  | .encodeValues _ _ os => m.withOperands os fun ss =>
      m.finish (.values (m.world.shownVals (TypeList.encode ss)))
  | .depth name => m.callerDepth name
  | .callerStore name =>
      match m.caller? with
      | some a => (m.assignCopy name (.store a.store)).finish .ok
      | none => m.finish (.unusable "caller")
  | .callerDebug =>
      match m.caller? with
      | some a => m.finish (.text (Diagnostic.record "Caller" [("depth", toString a.depth.toNat)]))
      | none => m.finish (.unusable "caller")
  | .giveBack os => m.withOperands os fun ss =>
      (m.withWorld (m.world.retainAll (Scalar.refs ss))).complete (.gaveBack ss)
  | .trap message => m.complete (.trapped (.ofMessage message))
  | .panic f => m.complete (.panicked f)
  | .add name a b => m.arithmetic name (· + ·) a b
  | .subtract name a b => m.arithmetic name (· - ·) a b
  | .rawPointer name v =>
      m.withHandle v fun _ _ h => (m.assign name (.raw h.native)).finish .ok

end HostEmbedding.Machine
