import HostEmbedding.Proofs.Native.Additions
import HostEmbedding.Proofs.Ownership.Places

/-!
# Ordinary steps

Most transitions come down to a few operations: references are counted and dropped, objects are added,
stores are flushed, and native objects are created and deleted behind their guards. What these
operations keep, every such transition keeps.

The others are left to those who need them: interrupts, what is done to a memory, views that are used as
memories, deletions without a guard, and whatever starts or ends a call, a thread or a finalizer.
-/

namespace HostEmbedding

/-- A handle that is used as a memory without owning it. -/
def Handle.ViewsMemory (h : Handle) : Prop := h.owner ≠ none ∧ ∃ lock, h.state = .memory lock

def Frame.isCommon : Frame → Bool
  | .thread .. | .finalizer _ => false
  | _ => true

/-- The part of the stack that starts with the innermost thread or finalizer. -/
def Frame.base (stack : List Frame) : List Frame := stack.dropWhile Frame.isCommon

/-- A frame whose step ends as ordinary steps do. -/
def Frame.isInner : Frame → Bool
  | .activation _ | .thread .. | .finalizer _ => false
  | _ => true

/-- The actions that neither interrupt a store, nor change a memory, nor make a view that is used as one. -/
def Action.Ordinary : Action → Prop
  | .interrupt _ | .grow .. | .write .. | .poke .. | .intoMemory .. => False
  | _ => True

/-- The native steps that neither interrupt a store, nor change a memory, nor delete an object that has no
guard, nor delete a function, as its finalizer may then run. -/
def NativeStep.Ordinary : NativeStep → Prop
  | .interruptRequest _ | .memoryGrow .. | .memoryPoke .. => False
  | .engineDelete _ | .funcTypeDelete _ | .memoryTypeDelete _ | .trapDelete _ => False
  | .funcDelete _ | .externDelete _ => False
  | _ => True

def Step.Ordinary : Step → Prop
  | .plain a => a.Ordinary
  | .native _ s => s.Ordinary
  | .thread _ => False
  | _ => True

namespace World

/-- A world comes from another by upkeep: references are counted and dropped, host objects are added,
stores are flushed, and native objects are deleted behind their guards, but none is added. -/
inductive Upkeep : World → World → Prop
  | refl (w : World) : Upkeep w w
  | trans {w v u : World} (first : Upkeep w v) (second : Upkeep v u) : Upkeep w u
  | same {w v : World} (same : Same w v) : Upkeep w v
  | events (w : World) (events : List Event) : Upkeep w { w with events := events }
  | slots (w : World) (slots : List (Option Fault)) :
      Upkeep w (w.modifyThread fun t => { t with frames := slots })
  | retain (w : World) (id : ObjId) : Upkeep w (w.retain id)
  | release (w : World) (id : ObjId) : Upkeep w (w.release id)
  | flush (w : World) (store : ObjId) : Upkeep w (w.flush store)
  | alloc (w : World) {o : Object} (plain : ∀ h, o = .handle h → ¬ h.ViewsMemory) (strong : Nat) :
      Upkeep w (w.alloc o strong).2
  | setCell (w : World) (id : ObjId) (content : Option Item) : Upkeep w (w.setObject id (.cell content))
  | guard (w : World) (op : GuardedOp) : Upkeep w (w.guard op)
  | delete (w : World) (op : GuardedOp) (n : NativeId) : Upkeep w ((w.guard op).deleteNative n)
  | deleteFunc (w : World) (n : NativeId) : Upkeep w (w.deleteFunc n)

/-- A world comes from another by ordinary operations: upkeep, and native objects that are made so are
added, those that handles own behind their guards. -/
inductive Ordinary (made : Native → Prop) : World → World → Prop
  | upkeep {w v : World} (upkeep : Upkeep w v) : Ordinary made w v
  | trans {w v u : World} (first : Ordinary made w v) (second : Ordinary made v u) : Ordinary made w u
  | create (w : World) (op : GuardedOp) {o : Native} (new : made o) :
      Ordinary made w ((w.guard op).allocNative o).2
  | allocNative (w : World) {o : Native} (new : made o) (unhandled : o.isHandled = false) :
      Ordinary made w (w.allocNative o).2

/-! ## Upkeep -/

namespace Upkeep

theorem emit (w : World) (e : Event) : Upkeep w (w.emit e) := .events w _

theorem retainAll (w : World) (ids : List ObjId) : Upkeep w (w.retainAll ids) := by
  induction ids generalizing w with
  | nil => exact .refl w
  | cons id rest ih => exact (retain w id).trans (ih (w.retain id))

theorem releaseAll (w : World) (ids : List ObjId) : Upkeep w (w.releaseAll ids) := by
  induction ids generalizing w with
  | nil => exact .refl w
  | cons id rest ih => exact (release w id).trans (ih (w.release id))

theorem acquire (w : World) (n : NativeId) (store : ObjId) (state : HandleState) :
    Upkeep w (w.acquire n store state).2 :=
  (retain w store).trans <| alloc _ (fun h same views => by
    cases same
    exact views.1 rfl) 1

theorem borrow (w : World) (n : NativeId) (store owner : ObjId) {state : HandleState}
    (plain : ∀ lock, state ≠ .memory lock) : Upkeep w (w.borrow n store owner state).2 :=
  ((retain w store).trans (retain _ owner)).trans <| alloc _ (fun h same views => by
    cases same
    obtain ⟨-, lock, memory⟩ := views
    exact plain lock memory) 1

/-- A panic that is parked, or that cannot be. -/
theorem park (w : World) (f : Fault) : Upkeep w (w.park f).2 := by
  unfold World.park
  split
  · exact slots w _
  · exact .same (same_log w _)
  · exact .same (same_log w _)

/-- Host code starts, or it is gone and nothing happens. -/
theorem enterHost (w : World) (env : ObjId) (native : NativeId) (args : List (Slot ObjId))
    (depth : UInt32) (slots : Nat) : Upkeep w (w.enterHost env native args depth slots).2 := by
  unfold World.enterHost
  split
  · next k callback type store found =>
      split
      · exact .refl w
      · have counted := retain w store
        dsimp only
        split
        · exact counted.trans (release _ store)
        · next closure code running =>
            have given : Upkeep w (((w.retain store).retain closure).decodeBorrowed type.params args).2 :=
              (counted.trans (retain _ closure)).trans (retainAll _ _)
            split
            · exact given
            · next scalars _ =>
                have started := given.trans (retainAll _ (Scalar.refs scalars))
                split
                · exact started
                · exact started.trans (emit _ _)
  · exact .refl w

theorem failHost (w : World) (a : Activation) (f : Fault) : Upkeep w (w.failHost a f).2 :=
  (releaseAll w (Val.refs a.params)).trans (park _ f)

theorem deliverHost (w : World) (a : Activation) (c : Completion) : Upkeep w (w.deliverHost a c).2 := by
  unfold World.deliverHost
  cases c with
  | panicked f => exact failHost w a f
  | trapped t =>
      dsimp only
      split
      · exact releaseAll w _
      · exact failHost w a _
  | done answer =>
      dsimp only
      split
      · exact failHost w a _
      · exact releaseAll w _
  | gaveBack ss =>
      dsimp only
      split
      · exact (releaseAll w _).trans (failHost _ a _)
      · exact releaseAll w _

/-- Host code that is left gives up its place in the engine last. -/
theorem leaveHost (w : World) (a : Activation) (c : Completion) :
    ∃ v, Upkeep w v ∧ (w.leaveHost a c).2 = v.leave a.native := by
  have delivered := (releaseAll w a.locals.refs).trans (deliverHost _ a c)
  exact ⟨_, (delivered.trans (release _ a.closure)).trans (release _ a.store), rfl⟩

theorem finishCall (w : World) (type : FuncType) (raw : List (Slot ObjId)) (r : EngineResult) :
    Upkeep w (w.finishCall type raw r).2 := by
  have popped : Upkeep w w.popFrame.2 := by
    unfold World.popFrame
    split
    · exact .refl w
    · exact slots w _
  have released := popped.trans (releaseAll _ (Slot.refs raw))
  unfold World.finishCall
  dsimp only
  split
  · exact released
  · exact released
  · exact released

end Upkeep

/-! ## Creations -/

namespace Ordinary

variable {made : Native → Prop}

/-- Upkeep that comes after ordinary operations. -/
theorem withUpkeep {w v u : World} (ordinary : Ordinary made w v) (upkeep : Upkeep v u) :
    Ordinary made w u :=
  ordinary.trans (.upkeep upkeep)

theorem createStore (w : World) {config : Config} (new : made (.store ⟨config, false, 0⟩)) :
    Ordinary made w (w.createStore config).2 :=
  (allocNative w new rfl).withUpkeep (.alloc _ (by rintro _ ⟨⟩) 1)

theorem createInterrupt (w : World) {store : ObjId}
    (new : ∀ n, w.storeNative? store = some n → made (.interrupt n)) :
    Ordinary made w (w.createInterrupt store).2 := by
  have flushed := Upkeep.flush w store
  have shapes := ((drains_flush w store).trans (drains_guard _ .interruptNew)).shapes
  unfold World.createInterrupt
  dsimp only
  split
  · exact .upkeep (flushed.trans (.guard _ .interruptNew))
  · next n native =>
      rw [storeNative?_of_shapes shapes] at native
      have created : Ordinary made (w.flush store) _ := create _ .interruptNew (new n native)
      exact (upkeep flushed).trans (created.withUpkeep (.acquire _ _ store _))

/-- A memory is created behind its guard, or its type is refused. -/
theorem createNativeMemory (w : World) {store : NativeId} {limits : Limits}
    (new : ∀ s mem, w.nativeObject? store = some (.store s) →
      LinearMemory.create? s.config.maxMemoryPages limits = some mem → made (.memory mem)) :
    Ordinary made w ((w.guard .memoryNew).createNativeMemory store limits).2 := by
  unfold World.createNativeMemory
  split
  · exact .upkeep (.guard w .memoryNew)
  · next mem created =>
      obtain ⟨s, known, created⟩ := Option.bind_eq_some_iff.mp created
      have object := nativeObject?_of_nativeStore? known
      rw [(drains_guard w .memoryNew).natives] at object
      exact create w .memoryNew (new s mem object created)

theorem createMemory (w : World) {store : ObjId} {type : MemoryType}
    (new : ∀ n s limits mem, w.storeNative? store = some n → w.nativeObject? n = some (.store s) →
      type.toLimits? = some limits → LinearMemory.create? s.config.maxMemoryPages limits = some mem →
        made (.memory mem)) :
    Ordinary made w (w.createMemory store type).2 := by
  have flushed : Ordinary made w (w.flush store) := .upkeep (.flush w store)
  unfold World.createMemory
  dsimp only
  split
  · next limits n valid native =>
      rw [storeNative?_of_shapes (drains_flush w store).shapes] at native
      have created := flushed.trans (createNativeMemory (w.flush store) fun s mem object created => by
        rw [(drains_flush w store).natives] at object
        exact new n s limits mem native object valid created)
      split
      · next refused => rwa [refused] at created
      · next n v granted =>
          rw [granted] at created
          have logged := created.withUpkeep (.same (same_logAbout v n (.createdMemory type)))
          have locked : Same (v.logAbout n (.createdMemory type)) { v.logAbout n (.createdMemory type) with
              locks := (v.logAbout n (.createdMemory type)).locks + 1 } := ⟨rfl, rfl, rfl, rfl, rfl, rfl⟩
          exact (logged.withUpkeep (.same locked)).withUpkeep (.acquire _ _ store _)
  · exact flushed

theorem register (w : World) {store : ObjId} (code : HostCode) (captures : Scope)
    (new : ∀ n env, w.storeNative? store = some n →
      made (.func ⟨n, code.shape.funcType.toNative, .host env⟩)) :
    Ordinary made w (w.register store code captures).2 := by
  have closed := (Upkeep.flush w store).trans (.alloc _ (o := .closure code captures) (by rintro _ ⟨⟩) 1)
  have opened := closed.trans (.alloc _ (o := .env
    (some ((w.flush store).alloc (.closure code captures) 1).1) code.shape.funcType store)
    (by rintro _ ⟨⟩) 2)
  unfold World.register
  dsimp only
  split
  · exact .upkeep opened
  · next n native =>
      have flushed := storeNative?_alloc (by rintro _ _ _ ⟨⟩) (storeNative?_alloc (by rintro _ _ _ ⟨⟩) native)
      rw [storeNative?_of_shapes (drains_flush w store).shapes] at flushed
      refine (upkeep opened).trans ?_
      exact ((create _ .funcNew (new n _ flushed)).withUpkeep (.same (same_logAbout _ _ _))).withUpkeep
        (.acquire _ _ store _)

end Ordinary

end World

namespace Machine

variable {m here : Machine} {made : Native → Prop}

/-- A state comes from another by ordinary operations, with the same threads and finalizers below it. -/
def Ordinary (m : Machine) (made : Native → Prop) (here : Machine) : Prop :=
  World.Ordinary made m.world here.world ∧ Frame.base here.stack = Frame.base m.stack

namespace Ordinary

theorem refl (m : Machine) : m.Ordinary made m := ⟨.upkeep (.refl m.world), rfl⟩

/-- Where the operations start, nothing has been made yet. -/
theorem start (m : Machine) : m.Ordinary (fun _ => False) m := refl m

theorem withWorld (ordinary : m.Ordinary made here) {w : World} (next : World.Ordinary made here.world w) :
    m.Ordinary made (here.withWorld w) := ⟨ordinary.1.trans next, ordinary.2⟩

theorem upkeep (ordinary : m.Ordinary made here) {w : World} (next : World.Upkeep here.world w) :
    m.Ordinary made (here.withWorld w) := ordinary.withWorld (.upkeep next)

/-! ## Variables -/

theorem setScope (ordinary : m.Ordinary made here) (v : VarName) (s : Scope) :
    m.Ordinary made (here.setScope v s) := by
  unfold Machine.setScope
  split
  · exact ordinary
  · split
    · exact ordinary
    · exact ordinary

theorem assign (ordinary : m.Ordinary made here) (v : VarName) (item : Item) :
    m.Ordinary made (here.assign v item) := by
  have set := ordinary.setScope v ((here.scope v).insert v.base item)
  unfold Machine.assign
  dsimp only
  split
  · exact set.upkeep (.releaseAll _ _)
  · exact set

theorem assignCopy (ordinary : m.Ordinary made here) (v : VarName) (item : Item) :
    m.Ordinary made (here.assignCopy v item) :=
  (ordinary.upkeep (.retainAll _ _)).assign v item

theorem erase (ordinary : m.Ordinary made here) (v : VarName) : m.Ordinary made (here.erase v).2 := by
  have set := ordinary.setScope v ((here.scope v).erase v.base)
  unfold Machine.erase
  split
  · exact set.upkeep (.releaseAll _ _)
  · exact ordinary

theorem bindAll (ordinary : m.Ordinary made here) (names : List VarName) (ss : List (Scalar ObjId)) :
    m.Ordinary made (here.bindAll names ss) := by
  unfold Machine.bindAll
  induction names.zip ss generalizing here with
  | nil => exact ordinary
  | cons p rest ih => exact ih (ordinary.assignCopy p.1 (.value p.2))

theorem refuse (ordinary : m.Ordinary made here) (g : Guard) (e : ApiError) :
    m.Ordinary made (here.refuse g e) := by
  unfold Machine.refuse
  split
  · exact ordinary
  · exact ordinary

theorem assignNew (ordinary : m.Ordinary made here) (v : VarName) (item? : Option Item) (a : Answer) :
    m.Ordinary made (here.assignNew v item? a) := by
  unfold Machine.assignNew
  split
  · exact ordinary.assign v _
  · exact ordinary

theorem newReference (ordinary : m.Ordinary made here) (name : VarName) (label : String) (p : Payload) :
    m.Ordinary made (here.newReference name label p) :=
  (ordinary.upkeep (.alloc _ (by rintro _ ⟨⟩) 1)).assign name _

theorem createStore (ordinary : m.Ordinary made here) (name : VarName) {config : Config}
    (new : made (.store ⟨config, false, 0⟩)) :
    m.Ordinary made ((here.withWorld (here.world.createStore config).2).assign name
      (.store (here.world.createStore config).1)) :=
  (ordinary.withWorld (.createStore _ new)).assign name _

theorem givePointer (ordinary : m.Ordinary made here) (name : Option VarName) (n : NativeId) :
    m.Ordinary made (here.givePointer name n) := by
  cases name with
  | none => exact ordinary
  | some name => exact ordinary.assign name _

theorem giveNew (ordinary : m.Ordinary made here) (name : Option VarName) {o : Native} (new : made o)
    (unhandled : o.isHandled = false) : m.Ordinary made (here.giveNew name o) :=
  (ordinary.withWorld (.allocNative here.world new unhandled)).givePointer name _

section

variable {v : VarName} {p : Option VarName}

theorem withOperand {o : Operand} {k : Scalar ObjId → Machine} (next : ∀ s, m.Ordinary made (k s)) :
    m.Ordinary made (m.withOperand o k) := of_withOperand (fun _ => refl m) next

theorem withOperands {os : List Operand} {k : List (Scalar ObjId) → Machine}
    (next : ∀ ss, m.Ordinary made (k ss)) : m.Ordinary made (m.withOperands os k) :=
  of_withOperands (fun _ => refl m) next

theorem withStore {k : ObjId → Machine} (next : ∀ s, m.lookup v = some (.store s) → m.Ordinary made (k s)) :
    m.Ordinary made (m.withStore v k) := of_withStore (fun _ => refl m) next

theorem withMemory {k : NativeId → LinearMemory → Machine} (next : ∀ n mem, m.Ordinary made (k n mem)) :
    m.Ordinary made (m.withMemory v k) := of_withMemory (fun _ => refl m) fun n mem _ => next n mem

theorem withHandle {k : Item → ObjId → Handle → Machine} (next : ∀ i id h, m.Ordinary made (k i id h)) :
    m.Ordinary made (m.withHandle v k) := of_withHandle (fun _ => refl m) next

theorem withCell {k : ObjId → Option Item → Machine} (next : ∀ c i, m.Ordinary made (k c i)) :
    m.Ordinary made (m.withCell v k) := of_withCell (fun _ => refl m) next

theorem withPointer {k : Option NativeId → Machine} (next : ∀ n?, m.Ordinary made (k n?)) :
    m.Ordinary made (m.withPointer p k) := of_withPointer (fun _ _ => refl m) next

theorem withObject {k : NativeId → Native → Machine} (next : ∀ n o, m.Ordinary made (k n o)) :
    m.Ordinary made (m.withObject p k) := of_withObject (fun _ _ => refl m) fun n o _ => next n o

theorem withNamed {k : Option NativeId → Machine} (null : m.Ordinary made (k none))
    (next : ∀ n o, m.objectNamed? p = some (n, o) → m.Ordinary made (k (some n))) :
    m.Ordinary made (m.withPointer p k) := of_withPointer_named (fun _ _ => refl m) null next

theorem withNativeMemory {k : NativeId → LinearMemory → Machine}
    (next : ∀ n mem, m.objectNamed? p = some (n, .memory mem) → m.Ordinary made (k n mem)) :
    m.Ordinary made (m.withNativeMemory p k) := of_withNativeMemory (fun _ _ => refl m) next

theorem withNativeFunc {k : NativeId → NativeFunc → Machine}
    (next : ∀ n f, m.objectNamed? p = some (n, .func f) → m.Ordinary made (k n f)) :
    m.Ordinary made (m.withNativeFunc p k) := of_withNativeFunc (fun _ _ => refl m) next

end

end Ordinary

/-! ## Actions -/

theorem ordinary_newStore (m : Machine) (name : VarName) (engine : Option VarName) :
    m.Ordinary (m.Adds (.plain (.store name engine))) (m.newStore name engine) := by
  have self : m.Ordinary (m.Adds (.plain (.store name engine))) m := .refl m
  unfold Machine.newStore
  dsimp only
  split
  · exact (self.upkeep (.same (World.same_log _ _))).createStore name (.store name)
  · next v =>
      split
      · next config held => exact self.createStore name (.storeIn name v config held)
      · exact self

theorem ordinary_newMemory (m : Machine) (g : Guard) (name v : VarName) (type : MemoryType) :
    m.Ordinary (m.Adds (.plain (.memory name v type))) (m.newMemory g name v type) := by
  refine Ordinary.withStore fun s held => ?_
  have created := (Ordinary.refl m).withWorld (.createMemory m.world fun n st limits mem native object valid created =>
    Adds.memory name v type s n st limits mem held native object valid created)
  split
  · next h w granted =>
      rw [granted] at created
      exact created.assign name _
  · next e w refused =>
      rw [refused] at created
      exact created.refuse g e

theorem ordinary_newFunc (m : Machine) (name v : VarName) (shape : Shape) (label : String) (quiet : Bool)
    (names : List VarName) (body : Block) :
    m.Ordinary (m.Adds (.func name v shape label quiet names body))
      (m.newFunc name v ⟨label, quiet, shape, body⟩ names) := by
  refine Ordinary.withStore fun s held => ?_
  split
  · exact Ordinary.refl m
  · next captures _ =>
      have counted := World.Upkeep.retainAll m.world (Scope.refs captures)
      have native := World.storeNative?_of_shapes (World.shapes_retainAll (Scope.refs captures) m.world) s
      have registered := (Ordinary.refl m).withWorld ((World.Ordinary.upkeep counted).trans
        (.register _ ⟨label, quiet, shape, body⟩ captures fun n env found =>
          Adds.func name v shape label quiet names body s env n held (native.symm.trans found)))
      split
      · next h w made =>
          rw [made] at registered
          exact registered.assign name _
      · next w made =>
          rw [made] at registered
          exact registered

theorem ordinary_reference (m : Machine) (name : VarName) (label : String) (p : PayloadLiteral) :
    m.Ordinary made (m.reference name label p) := by
  have self : m.Ordinary made m := .refl m
  have wrapped (v : VarName) : m.Ordinary made (m.reference name label (.func v)) := by
    unfold Machine.reference
    dsimp only
    split
    · exact (self.upkeep (.retainAll _ _)).newReference name label _
    · exact self
  cases p with
  | text | int | unit => exact self.newReference name label _
  | func v | memory v | store v => exact wrapped v

theorem ordinary_content (m : Machine) (s : Scalar ObjId) (type : PayloadType) (name : Option VarName) :
    m.Ordinary made (m.content s type name) := by
  have self : m.Ordinary made m := .refl m
  unfold Machine.content
  dsimp only
  split
  case h_7 =>
    split
    · split
      · exact self.assignCopy _ _
      · exact self
    · exact self
  all_goals exact self

theorem ordinary_putCell (m : Machine) (cell : ObjId) (old new : Option Item) :
    m.Ordinary made (m.putCell cell old new) := by
  have counted := World.Upkeep.retainAll m.world (new.toList.flatMap Item.refs)
  exact (Ordinary.refl m).upkeep ((counted.trans (.setCell _ cell new)).trans (.releaseAll _ _))

theorem ordinary_callerDepth (m : Machine) (name : Option VarName) : m.Ordinary made (m.callerDepth name) := by
  unfold Machine.callerDepth
  split
  · exact Ordinary.refl m
  · split
    · exact (Ordinary.refl m).assign _ _
    · exact Ordinary.refl m

theorem ordinary_arithmetic (m : Machine) (name : VarName) (f : Int → Int → Int) (a b : Operand) :
    m.Ordinary made (m.arithmetic name f a b) := by
  refine Ordinary.withOperand fun x => Ordinary.withOperand fun y => ?_
  split
  · exact (Ordinary.refl m).assign _ _
  · exact Ordinary.refl m

theorem ordinary_externToFunc (m : Machine) (name v : VarName) : m.Ordinary made (m.externToFunc name v) := by
  refine Ordinary.withHandle fun i id h => ?_
  unfold World.intoFunc?
  cases m.world.nativeFunc? h.native with
  | none => exact Ordinary.refl m
  | some f => exact ((Ordinary.refl m).upkeep (.borrow _ _ _ _ (by rintro _ ⟨⟩))).assign name _

theorem ordinary_perform (m : Machine) (g : Guard) {a : Action} (ordinary : a.Ordinary) :
    m.Ordinary (m.Adds (.plain a)) (m.perform g a) := by
  have self : m.Ordinary (m.Adds (.plain a)) m := .refl m
  cases a with
  | interrupt | grow | write | poke | intoMemory => cases ordinary
  | engine name => exact (self.upkeep (.same (World.same_log _ _))).assign name _
  | store name engine => exact ordinary_newStore m name engine
  | flush => exact Ordinary.withStore fun s _ => self.upkeep (.flush _ s)
  | pending => exact Ordinary.withStore fun s _ => self
  | sameStore => exact Ordinary.withStore fun s _ => Ordinary.withStore fun t _ => self
  | storeOf name => exact Ordinary.withHandle fun i id h => self.assignCopy name _
  | engineOf name => exact Ordinary.withStore fun s _ => self.assign name _
  | interruptHandle name v =>
      refine Ordinary.withStore fun s held => ?_
      have created := self.withWorld (.createInterrupt _ fun n native => Adds.interrupt name v s n held native)
      exact created.assignNew name _ _
  | memory name v type => exact ordinary_newMemory m g name v type
  | memoryType | size | dataSize | data => exact Ordinary.withMemory fun n mem => self
  | read =>
      refine Ordinary.withMemory fun n mem => ?_
      split
      · exact self
      · exact self.refuse g _
  | sameData => exact Ordinary.withMemory fun n x => Ordinary.withMemory fun k y => self
  | asExtern name =>
      exact Ordinary.withHandle fun i id h =>
        (self.upkeep (.borrow _ _ _ _ (by rintro _ ⟨⟩))).assign name _
  | externKind =>
      refine Ordinary.withHandle fun i id h => ?_
      split
      · exact self
      · exact self
  | intoFunc name v => exact ordinary_externToFunc m name v
  | clone name | typedFunc name =>
      unfold Machine.perform
      dsimp only
      split
      · exact self.assignCopy name _
      · exact self
  | drop v => exact self.erase v
  | cell name => exact (self.upkeep (.alloc _ (by rintro _ ⟨⟩) 1)).assign name _
  | put c v =>
      refine Ordinary.withCell fun c old => ?_
      split
      · exact ordinary_putCell m c old _
      · exact self
  | get name =>
      refine Ordinary.withCell fun c content => ?_
      split
      · exact self.assignCopy name _
      · exact self
  | take => exact Ordinary.withCell fun c old => ordinary_putCell m c old none
  | debug v =>
      unfold Machine.perform
      dsimp only
      split
      · next s w shown =>
          obtain ⟨item, -, shown⟩ := Option.bind_eq_some_iff.mp shown
          exact self.upkeep (.same (World.same_debug? shown))
      · exact self
  | funcType v =>
      show m.Ordinary _ (m.showFuncType v)
      unfold Machine.showFuncType
      split
      · split
        · exact self
        · exact self
      · exact self
  | typed name v sig =>
      show m.Ordinary _ (m.newTyped g name v sig)
      unfold Machine.newTyped
      split
      · split
        · exact self.assignCopy name _
        · exact self.refuse g _
      · exact self
  | reference name label payload => exact ordinary_reference m name label payload
  | set name => exact Ordinary.withOperand fun s => self.assignCopy name _
  | accessors => exact Ordinary.withOperand fun s => self
  | strong | expectKind =>
      refine Ordinary.withOperand fun s => ?_
      split
      · exact self
      · exact self
  | sameReference | equalValues => exact Ordinary.withOperand fun x => Ordinary.withOperand fun y => self
  | content o type name => exact Ordinary.withOperand fun s => ordinary_content m s type name
  | zeroOf | describeFuncType | equalFuncTypes | describeMemoryType => exact self
  | describeTrap | configure | defaults | typedKinds => exact self
  | decodeValues =>
      refine Ordinary.withOperands fun ss => ?_
      dsimp only
      split
      · exact self
      · exact self
  | encodeValues => exact Ordinary.withOperands fun ss => self
  | depth name => exact ordinary_callerDepth m name
  | callerStore name =>
      unfold Machine.perform
      dsimp only
      split
      · exact self.assignCopy name _
      · exact self
  | callerDebug =>
      unfold Machine.perform
      dsimp only
      split
      · exact self
      · exact self
  | giveBack => exact Ordinary.withOperands fun ss => self.upkeep (.retainAll _ _)
  | trap | panic => exact self
  | add name a b | subtract name a b => exact ordinary_arithmetic m name _ a b
  | rawPointer name => exact Ordinary.withHandle fun i id h => self.assign name _

/-! ## Steps of the native interface -/

theorem ordinary_giveSame (m : Machine) (name p : Option VarName) : m.Ordinary made (m.giveSame name p) := by
  refine Ordinary.withPointer fun n? => ?_
  cases n? with
  | none => exact Ordinary.refl m
  | some n => exact (Ordinary.refl m).givePointer name n

/-- A deletion behind a guard. -/
theorem ordinary_delete (m : Machine) (op : GuardedOp) (n? : Option NativeId) :
    m.Ordinary made ((m.withWorld (m.world.guard op)).deleteUnguarded n?) := by
  cases n? with
  | none => exact (Ordinary.refl m).upkeep (.guard _ op)
  | some n => exact (Ordinary.refl m).upkeep (.delete _ op n)

theorem ordinary_deleteMemoryStep (m : Machine) (n? : Option NativeId) :
    m.Ordinary made (m.deleteMemoryStep n?) := by
  cases n? with
  | none => exact (Ordinary.refl m).upkeep (.guard _ .memoryDelete)
  | some n => exact (Ordinary.refl m).upkeep (.delete _ .memoryDelete n)

/-- A creation behind a guard. -/
theorem ordinary_create (m : Machine) (op : GuardedOp) (name : Option VarName) {o : Native}
    (new : made o) : m.Ordinary made ((m.withWorld (m.world.guard op)).giveNew name o) :=
  ((Ordinary.refl m).withWorld (.create _ op new)).givePointer name _

theorem ordinary_nativeMemoryNew (m : Machine) (name : Option VarName) {s t : Option NativeId}
    (new : ∀ n st limits mem, s = some n → m.world.nativeObject? n = some (.store st) →
      (t.bind (m.world.guard .memoryNew).native?) = some (.memoryType limits) →
        LinearMemory.create? st.config.maxMemoryPages limits = some mem → made (.memory mem)) :
    m.Ordinary made (m.nativeMemoryNew name s t) := by
  unfold Machine.nativeMemoryNew
  dsimp only
  split
  · next n limits typed =>
      have created := (Ordinary.refl m).withWorld (.createNativeMemory m.world fun st mem known =>
        new n st limits mem rfl known typed)
      split
      · next n w granted =>
          rw [show (m.world.guard .memoryNew).createNativeMemory _ limits = (some n, w) from granted]
            at created
          exact created.givePointer name n
      · next w refused =>
          rw [show (m.world.guard .memoryNew).createNativeMemory _ limits = (none, w) from refused]
            at created
          exact created
  · exact (Ordinary.refl m).upkeep (.guard _ .memoryNew)

theorem ordinary_memoryNew (m : Machine) (name p q : Option VarName) :
    m.Ordinary (m.Adds (.native name (.memoryNew p q))) (m.native name (.memoryNew p q)) := by
  refine Ordinary.withNamed ?_ fun n o named => Ordinary.withNamed ?_ fun k l typed => ?_
  · exact Ordinary.withPointer fun t => ordinary_nativeMemoryNew m name nofun
  · exact ordinary_nativeMemoryNew m name nofun
  · refine ordinary_nativeMemoryNew m name fun n' st limits mem same object type created => ?_
    cases same
    obtain rfl : o = .store st := Option.some.inj ((nativeObject?_of_named named).symm.trans object)
    rw [World.native?_guard, Option.bind_some, native?_of_named typed] at type
    cases type
    exact .memoryNew name p q n k st limits mem named typed created

theorem ordinary_nativeFunc (m : Machine) (name p q : Option VarName) (label : String) (reply : Reply)
    (trap : Option (List UInt8)) (nested : Option VarName) (finalizes : Bool) (finalizer : Block) :
    m.Ordinary (m.Adds (.nativeFunc name p q label reply trap nested finalizes finalizer))
      (m.nativeFunc name p q ⟨label, reply, trap, nested, finalizes, finalizer⟩) := by
  have refused (made : Native → Prop) : m.Ordinary made ((m.withWorld (m.world.guard .funcNew)).finish .null) :=
    (Ordinary.refl m).upkeep (.guard _ .funcNew)
  refine Ordinary.withNamed (Ordinary.withPointer fun t => refused _) fun n o named =>
    Ordinary.withNamed (refused _) fun k l typed => ?_
  dsimp only
  rw [show (m.withWorld (m.world.guard .funcNew)).world.native? = m.world.native? from
    World.native?_guard m.world .funcNew, Option.bind_some, native?_of_named typed]
  cases l with
  | funcType t =>
      exact ordinary_create m .funcNew name
        (.nativeFunc name p q label reply trap nested finalizes finalizer n k o t named typed)
  | _ => exact refused _

theorem ordinary_native (m : Machine) (name : Option VarName) {s : NativeStep} (ordinary : s.Ordinary) :
    m.Ordinary (m.Adds (.native name s)) (m.native name s) := by
  have self : m.Ordinary (m.Adds (.native name s)) m := .refl m
  cases s with
  | interruptRequest | memoryGrow | memoryPoke => cases ordinary
  | engineDelete | funcTypeDelete | memoryTypeDelete | trapDelete => cases ordinary
  | funcDelete | externDelete => cases ordinary
  | engineNew config =>
      cases config with
      | none => exact self
      | some config => exact self.giveNew name (.engineNew name config) rfl
  | storeNew p =>
      refine Ordinary.withNamed self fun n o named => ?_
      rw [Option.bind_some, native?_of_named named]
      cases o with
      | engine config => exact self.giveNew name (.storeNew name p n config named) rfl
      | _ => exact self
  | storeDelete => exact Ordinary.withPointer fun n? => ordinary_delete m .storeDelete n?
  | funcTypeNew params results =>
      unfold Machine.native
      dsimp only
      split
      · next t created => exact self.giveNew name (.funcTypeNew name params results t created) rfl
      · exact self
  | funcTypeParams | funcTypeResults | memoryTypeLimits | trapCode =>
      refine Ordinary.withObject fun n o => ?_
      split
      · exact self
      · exact self
  | memoryTypeNew limits =>
      cases limits with
      | none => exact self
      | some l =>
          unfold Machine.native
          dsimp only
          split
          · exact self
          · next ordered => exact self.giveNew name (.memoryTypeNew name l ordered) rfl
  | memoryNew p q => exact ordinary_memoryNew m name p q
  | memoryType p =>
      exact Ordinary.withNativeMemory fun n mem named =>
        self.giveNew name (.memoryType name p n mem named) rfl
  | memoryData | memoryDataSize | memorySize => exact Ordinary.withNativeMemory fun n mem _ => self
  | memoryAsExtern p | funcAsExtern p => exact ordinary_giveSame m name p
  | memoryDelete => exact Ordinary.withPointer fun n? => ordinary_deleteMemoryStep m n?
  | externKind =>
      refine Ordinary.withObject fun n o => ?_
      split
      · exact self
      · exact self
  | externAsFunc | externAsMemory =>
      refine Ordinary.withObject fun n o => ?_
      split
      · exact self.givePointer name n
      · exact self
  | funcType p =>
      exact Ordinary.withNativeFunc fun n f named => self.giveNew name (.funcType name p n f named) rfl
  | funcParamArity | funcResultArity => exact Ordinary.withNativeFunc fun n f _ => self
  | interruptNew p =>
      exact Ordinary.withNamed (self.upkeep (.guard _ .interruptNew)) fun n o named =>
        ordinary_create m .interruptNew name (.interruptNew name p n o named)
  | interruptDelete => exact Ordinary.withPointer fun n? => ordinary_delete m .interruptDelete n?
  | trapNew p message => exact Ordinary.withPointer fun n? => self.giveNew name (.trapNew name p message) rfl
  | trapMessage =>
      refine Ordinary.withPointer fun n? => ?_
      split
      · exact self
      · exact self
  | slotText | blankSlot | constants => exact self

/-- What deleting a function comes to: the finalizer of a native callback runs before the step ends. -/
inductive Deletion (m : Machine) (made : Native → Prop) (here : Machine) : Prop
  | ordinary (ordinary : m.Ordinary made here)
  | finalizes (n : NativeId) (code : NativeCode) (same : here = { m with
      world := ((m.world.deleteFunc n).enterFinalizer n).emit (.finalized code.label)
      context := .finalizer code.label
      stack := .block true 0 code.finalizer :: .finalizer m.context :: m.stack
      control := .run })

theorem deletion_deleteFunction (m : Machine) (n? : Option NativeId) :
    m.Deletion made (m.deleteFunction n?) := by
  cases n? with
  | none => exact .ordinary ((Ordinary.refl m).upkeep (.guard _ .funcDelete))
  | some n =>
      have deleted : m.Ordinary made _ := (Ordinary.refl m).upkeep (.deleteFunc m.world n)
      unfold Machine.deleteFunction
      dsimp only
      split
      · next code _ =>
          split
          · exact .finalizes n code rfl
          · exact .ordinary deleted
      · exact .ordinary deleted

theorem deletion_funcDelete (m : Machine) (name p : Option VarName) :
    m.Deletion made (m.native name (.funcDelete p)) :=
  of_withPointer (fun _ _ => .ordinary (Ordinary.refl m)) fun n? => deletion_deleteFunction m n?

theorem deletion_externDelete (m : Machine) (name p : Option VarName) :
    m.Deletion made (m.native name (.externDelete p)) := by
  unfold Machine.native
  refine of_withPointer (fun _ _ => .ordinary (Ordinary.refl m)) fun n? => ?_
  split
  · exact deletion_deleteFunction m n?
  · exact .ordinary (ordinary_deleteMemoryStep m n?)
  · exact .ordinary (Ordinary.refl m)

/-! ## Steps that call or run further steps -/

theorem Ordinary.startCall (ordinary : m.Ordinary made here) (native : NativeId) (store : ObjId)
    (c : CallRequest) : m.Ordinary made (here.startCall native store c) := by
  have flushed := ordinary.upkeep (.flush _ store)
  unfold Machine.startCall
  dsimp only
  split
  · exact flushed.upkeep (.releaseAll _ c.refs)
  · have counted := flushed.upkeep (.retainAll _ (Slot.refs (c.args.map Slot.ofVal)))
    exact counted.upkeep (.slots _ _)

/-- A call counts its function and its arguments before it starts. -/
theorem ordinary_request (m : Machine) (os : List Operand) (id : ObjId) (h : Handle) (type : FuncType)
    (bind : List VarName) (sig : Option TypedSignature) :
    m.Ordinary made (m.withOperands os fun ss =>
      (m.withWorld ((m.world.retain id).retainAll (Val.refs (TypeList.encode ss)))).startCall h.native
        h.store ⟨id, type, TypeList.encode ss, bind, sig⟩) := by
  refine Ordinary.withOperands fun ss => ?_
  have counted := (World.Upkeep.retain m.world id).trans
    (.retainAll _ (Val.refs (TypeList.encode ss)))
  exact ((Ordinary.refl m).upkeep counted).startCall _ _ _

theorem ordinary_call (m : Machine) (v : VarName) (os : List Operand) (bind : List VarName) :
    m.Ordinary made (m.call v os bind) := by
  refine Ordinary.withHandle fun i id h => ?_
  cases i with
  | func _ type => exact ordinary_request m os id h type bind none
  | _ => exact Ordinary.refl m

theorem ordinary_typedCall (m : Machine) (v : VarName) (os : List Operand) (bind : List VarName) :
    m.Ordinary made (m.typedCall v os bind) := by
  refine Ordinary.withHandle fun i id h => ?_
  cases i with
  | typedFunc _ type sig => exact ordinary_request m os id h type bind (some sig)
  | _ => exact Ordinary.refl m

theorem Ordinary.loop (ordinary : m.Ordinary made here) (n : Nat) (body : Block) :
    m.Ordinary made (here.loop n body) := by
  cases n with
  | zero => exact ordinary
  | succ n => exact ordinary

theorem ordinary_begin (m : Machine) (g : Guard) {s : Step} (ordinary : s.Ordinary) :
    m.Ordinary (m.Adds s) (m.begin g s) := by
  cases s with
  | plain a => exact ordinary_perform m g ordinary
  | func name v => exact ordinary_newFunc m name v ..
  | call f os bind => exact ordinary_call m f os bind
  | typedCall f os bind => exact ordinary_typedCall m f os bind
  | branch a op b yes no =>
      refine Ordinary.withOperand fun x => Ordinary.withOperand fun y => ?_
      split
      · exact Ordinary.refl m
      · exact Ordinary.refl m
  | loop n body => exact (Ordinary.refl m).loop n body
  | thread body => cases ordinary
  | native name s => exact ordinary_native m name ordinary
  | nativeFunc name p q => exact ordinary_nativeFunc m name p q ..
  | nativeCall name f => exact Ordinary.withNativeFunc fun n f _ => Ordinary.refl m

/-! ## Ends of steps -/

theorem ordinary_settle (m : Machine) (c : Completion) {outer : Bool} {index : Nat} {g : Guard} {s : Step}
    {rest : Block} {below : List Frame} (stack : m.stack = .block outer index ((g, s) :: rest) :: below) :
    m.Ordinary made (m.settle c outer index g s rest below) := by
  have self (control : Control) : m.Ordinary made { m with stack := below, control := control } :=
    ⟨.upkeep (.refl m.world), by rw [stack]; rfl⟩
  have next : m.Ordinary made (m.next outer index rest below) := self .run
  have noted (e : Event) : m.Ordinary made (m.noteAndGoOn e c outer index rest below) :=
    ((next.upkeep (.emit _ e)).upkeep (.releaseAll _ c.refs))
  have dropped := World.Upkeep.releaseAll m.world c.refs
  unfold Machine.settle
  dsimp only
  split
  · split
    · exact next.upkeep (dropped.trans (.events _ []))
    · exact noted _
  · exact noted _
  · exact noted _
  · split
    · split
      · exact next
      · exact next.upkeep (.emit _ _)
    · split
      · exact self _
      · exact (self (.complete c)).upkeep (.emit _ _)

theorem ordinary_halt (m : Machine) : m.Ordinary made m.halt :=
  (Ordinary.refl m).upkeep ((World.Upkeep.releaseAll m.world m.globals.refs).trans (.events _ []))

/-- A step that ends in a frame that has no end of its own. -/
theorem ordinary_deliver (m : Machine) (c : Completion) (inner : ∀ f ∈ m.stack.head?, f.isInner = true) :
    m.Ordinary made (m.deliver c) := by
  unfold Machine.deliver
  cases stack : m.stack with
  | nil => exact ordinary_halt m
  | cons f below =>
      rw [stack] at inner
      have self (plain : f.isCommon = true) : m.Ordinary made { m with stack := below } := by
        refine ⟨.upkeep (.refl m.world), ?_⟩
        rw [stack]
        exact (List.dropWhile_cons_of_pos plain).symm
      cases f with
      | block outer index steps =>
          cases steps with
          | nil => exact self rfl
          | cons first rest => exact ordinary_settle m c stack
      | loop left body =>
          dsimp only
          split
          · exact (self rfl).loop left body
          · exact self rfl
      | activation | thread | finalizer => cases inner _ rfl
      | branch | hostCall | nativeCall | callback => exact self rfl

/-! ## Ends of calls -/

theorem Ordinary.returnCall (ordinary : m.Ordinary made here) (c : CallRequest) (vals : List (Val ObjId)) :
    m.Ordinary made (here.returnCall c vals) := by
  unfold Machine.returnCall
  split
  · have bound := ordinary.bindAll c.bind (vals.map .ofVal)
    exact (bound.upkeep (.releaseAll _ (Val.refs vals))).upkeep (.releaseAll _ c.refs)
  · have dropped := ordinary.upkeep (.releaseAll _ (Val.refs c.args))
    dsimp only
    split
    · next ss _ =>
        have bound := dropped.bindAll c.bind ss
        exact (bound.upkeep (.releaseAll _ (Val.refs vals))).upkeep (.release _ c.func)
    · exact (dropped.upkeep (.releaseAll _ (Val.refs vals))).upkeep (.release _ c.func)

theorem Ordinary.endCall (ordinary : m.Ordinary made here) (c : HostCall) (r : EngineResult) :
    m.Ordinary made (here.endCall c r) := by
  have finished := ordinary.upkeep (.finishCall here.world c.request.type c.raw r)
  unfold Machine.endCall
  split
  · next vals w returned =>
      rw [returned] at finished
      exact finished.returnCall c.request vals
  · next t w trapped =>
      rw [trapped] at finished
      exact finished.upkeep (.releaseAll w c.request.refs)
  · next f w panicked =>
      rw [panicked] at finished
      exact finished.upkeep (.releaseAll w c.request.refs)

theorem Ordinary.endNativeCall (ordinary : m.Ordinary made here) (name : Option VarName) {r : EngineResult}
    (new : ∀ t, r = .error t → made (.trap t)) : m.Ordinary made (here.endNativeCall name r) := by
  cases r with
  | ok slots => exact ordinary
  | error t =>
      cases name with
      | none => exact ordinary
      | some name => exact (ordinary.withWorld (.allocNative _ (new t rfl) rfl)).assign name _

/-- A call into the engine that ends, unless a native callback has made it. -/
theorem ordinary_deliverEngine (m : Machine) {r : EngineResult} (new : ∀ t, r = .error t → made (.trap t))
    (called : ∀ c below, m.stack ≠ .callback c :: below) : m.Ordinary made (m.deliverEngine r) := by
  unfold Machine.deliverEngine
  cases stack : m.stack with
  | nil => exact Ordinary.refl m
  | cons f below =>
      have self (plain : f.isCommon = true) : m.Ordinary made { m with stack := below } := by
        refine ⟨.upkeep (.refl m.world), ?_⟩
        rw [stack]
        exact (List.dropWhile_cons_of_pos plain).symm
      cases f with
      | hostCall c => exact (self rfl).endCall c r
      | nativeCall name => exact (self rfl).endNativeCall name new
      | callback c => exact absurd stack (called c below)
      | _ => exact Ordinary.refl m

end Machine

end HostEmbedding
