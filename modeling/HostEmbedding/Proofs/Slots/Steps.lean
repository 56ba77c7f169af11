import HostEmbedding.Proofs.Machine.Leaving
import HostEmbedding.Proofs.Slots.World

/-!
# Steps on another stack

A machine can be put on another stack and over other slots. A step that ends at once does the same
there, so neither the stack nor the slots have a part in how it ends.
-/

namespace HostEmbedding.Machine

def onto (m : Machine) (s : List Frame) (xs : List (Option Fault)) : Machine :=
  { m with world := m.world.withSlots xs, stack := s }

/-- What a machine has come to, here and on another stack: it differs in nothing else, and the context
has at most other locals. -/
structure Blind (m : Machine) (s : List Frame) (xs : List (Option Fault)) (here there : Machine) :
    Prop where
  same : there = here.onto s xs
  context : ∃ t, here.context = m.context.withLocals t

structure Finishes (m : Machine) (s : List Frame) (xs : List (Option Fault)) (here there : Machine) : Prop
    extends Blind m s xs here there where
  ended : ∃ c, here.control = .complete c

variable {m here there : Machine} {s : List Frame} {xs : List (Option Fault)}

@[simp]
theorem onto_self (m : Machine) : m.onto m.stack m.world.thread.frames = m := rfl

/-- What a transition does on its own stack. -/
theorem step_here (stack : m.stack = s) (frames : m.world.thread.frames = xs)
    (same : (m.onto s xs).step = here) : m.step = here := by
  rw [← same, ← stack, ← frames, onto_self]

@[simp]
theorem onto_onto (m : Machine) (s s' : List Frame) (xs xs' : List (Option Fault)) :
    (m.onto s xs).onto s' xs' = m.onto s' xs' := rfl

@[simp]
theorem onto_world (m : Machine) (s : List Frame) (xs : List (Option Fault)) :
    (m.onto s xs).world = m.world.withSlots xs := rfl

/-! ## Variables -/

theorem lookup_onto (m : Machine) (v : VarName) : (m.onto s xs).lookup v = m.lookup v := by
  cases v <;> rfl

theorem operand?_onto (m : Machine) (o : Operand) : (m.onto s xs).operand? o = m.operand? o := by
  cases o with
  | literal c => rfl
  | var v =>
      unfold Machine.operand?
      dsimp only
      rw [lookup_onto]

theorem operands?_onto (m : Machine) (os : List Operand) :
    (m.onto s xs).operands? os = m.operands? os := by
  unfold Machine.operands?
  exact congrArg (fun read => os.mapM read) (funext fun o => operand?_onto m o)

theorem scope_onto (m : Machine) (v : VarName) : (m.onto s xs).scope v = m.scope v := by
  cases v <;> rfl

theorem blind_self (m : Machine) (s : List Frame) (xs : List (Option Fault)) :
    Blind m s xs m (m.onto s xs) :=
  ⟨rfl, Context.withLocals_kept _⟩

/-- Changing the world in the same way. -/
theorem Blind.world (blind : Blind m s xs here there) {w w' : World} (same : w' = w.withSlots xs) :
    Blind m s xs (here.withWorld w) (there.withWorld w') := by
  rw [blind.same, same]
  exact ⟨rfl, blind.context⟩

theorem Blind.setScope (blind : Blind m s xs here there) (v : VarName) (scope : Scope) :
    Blind m s xs (here.setScope v scope) (there.setScope v scope) := by
  rw [blind.same]
  obtain ⟨t, context⟩ := blind.context
  match v with
  | .global name => exact ⟨rfl, t, context⟩
  | .scoped name =>
      unfold Machine.setScope
      dsimp only
      have same : (here.onto s xs).context = here.context := rfl
      rw [same]
      split
      · next a here' =>
          refine ⟨rfl, scope, ?_⟩
          show Context.body { a with locals := scope } = m.context.withLocals scope
          rw [← Context.withLocals_withLocals m.context t scope, ← context, here']
          rfl
      · exact ⟨rfl, t, context⟩

theorem Blind.assign (blind : Blind m s xs here there) (v : VarName) (item : Item) :
    Blind m s xs (here.assign v item) (there.assign v item) := by
  have set := blind.setScope v ((here.scope v).insert v.base item)
  have scope : there.scope v = here.scope v := by rw [blind.same, scope_onto]
  unfold Machine.assign
  dsimp only
  rw [scope]
  split
  · refine set.world ?_
    rw [set.same, onto_world, World.releaseAll_withSlots]
  · exact set

theorem Blind.assignCopy (blind : Blind m s xs here there) (v : VarName) (item : Item) :
    Blind m s xs (here.assignCopy v item) (there.assignCopy v item) := by
  refine (blind.world ?_).assign v item
  rw [blind.same, onto_world, World.retainAll_withSlots]

theorem Blind.erase (blind : Blind m s xs here there) (v : VarName) :
    (there.erase v).1 = (here.erase v).1 ∧ Blind m s xs (here.erase v).2 (there.erase v).2 := by
  have set := blind.setScope v ((here.scope v).erase v.base)
  have scope : there.scope v = here.scope v := by rw [blind.same, scope_onto]
  unfold Machine.erase
  dsimp only
  rw [scope]
  split
  · refine ⟨rfl, set.world ?_⟩
    rw [set.same, onto_world, World.releaseAll_withSlots]
  · exact ⟨rfl, blind⟩

theorem Blind.bindAll (blind : Blind m s xs here there) (names : List VarName)
    (ss : List (Scalar ObjId)) : Blind m s xs (here.bindAll names ss) (there.bindAll names ss) := by
  unfold Machine.bindAll
  induction names.zip ss generalizing here there with
  | nil => exact blind
  | cons p rest ih => exact ih (blind.assignCopy p.1 (.value p.2))

/-! ## Ends of steps -/

theorem Blind.complete (blind : Blind m s xs here there) (c : Completion) :
    Finishes m s xs (here.complete c) (there.complete c) := by
  rw [blind.same]
  exact ⟨⟨rfl, blind.context⟩, c, rfl⟩

theorem Blind.finish (blind : Blind m s xs here there) (a : Answer) :
    Finishes m s xs (here.finish a) (there.finish a) :=
  blind.complete (.done a)

theorem Blind.unusable (blind : Blind m s xs here there) (v : VarName) :
    Finishes m s xs (here.unusable v) (there.unusable v) :=
  blind.finish _

theorem Blind.refuse (blind : Blind m s xs here there) (g : Guard) (e : ApiError) :
    Finishes m s xs (here.refuse g e) (there.refuse g e) := by
  unfold Machine.refuse
  split
  · exact blind.complete _
  · exact blind.finish _

theorem Blind.assignNew (blind : Blind m s xs here there) (v : VarName) (item? : Option Item)
    (a : Answer) : Finishes m s xs (here.assignNew v item? a) (there.assignNew v item? a) := by
  unfold Machine.assignNew
  split
  · exact (blind.assign v _).finish a
  · exact blind.unusable v

/-! ## Reading variables -/

section

variable {R : Machine → Machine → Prop} {v : VarName} {o : Operand}

theorem withOperand_onto (stuck : ∀ a, R (m.finish a) ((m.onto s xs).finish a))
    {k k' : Scalar ObjId → Machine} (next : ∀ c, R (k c) (k' c)) :
    R (m.withOperand o k) ((m.onto s xs).withOperand o k') := by
  unfold Machine.withOperand
  rw [operand?_onto]
  split
  · exact next _
  · split
    · exact stuck _
    · exact stuck _

theorem withOperands_onto (stuck : ∀ a, R (m.finish a) ((m.onto s xs).finish a))
    {os : List Operand} {k k' : List (Scalar ObjId) → Machine} (next : ∀ cs, R (k cs) (k' cs)) :
    R (m.withOperands os k) ((m.onto s xs).withOperands os k') := by
  unfold Machine.withOperands
  rw [operands?_onto]
  split
  · exact next _
  · exact stuck _

theorem withStore_onto (stuck : ∀ a, R (m.finish a) ((m.onto s xs).finish a))
    {k k' : ObjId → Machine} (next : ∀ id, R (k id) (k' id)) :
    R (m.withStore v k) ((m.onto s xs).withStore v k') := by
  unfold Machine.withStore
  rw [lookup_onto]
  split
  · exact next _
  · exact stuck _

theorem withMemory_onto (stuck : ∀ a, R (m.finish a) ((m.onto s xs).finish a))
    {k k' : NativeId → LinearMemory → Machine} (next : ∀ n mem, R (k n mem) (k' n mem)) :
    R (m.withMemory v k) ((m.onto s xs).withMemory v k') := by
  unfold Machine.withMemory
  rw [lookup_onto]
  simp only [onto_world, World.memoryOf?_withSlots]
  split
  · split
    · exact next _ _
    · exact stuck _
  · exact stuck _

theorem withHandle_onto (stuck : ∀ a, R (m.finish a) ((m.onto s xs).finish a))
    {k k' : Item → ObjId → Handle → Machine} (next : ∀ i id h, R (k i id h) (k' i id h)) :
    R (m.withHandle v k) ((m.onto s xs).withHandle v k') := by
  unfold Machine.withHandle
  rw [lookup_onto]
  simp only [onto_world, World.handle?_withSlots]
  split
  · split
    · split
      · exact next _ _ _
      · exact stuck _
    · exact stuck _
  · exact stuck _

theorem withCell_onto (stuck : ∀ a, R (m.finish a) ((m.onto s xs).finish a))
    {k k' : ObjId → Option Item → Machine} (next : ∀ id content, R (k id content) (k' id content)) :
    R (m.withCell v k) ((m.onto s xs).withCell v k') := by
  unfold Machine.withCell
  rw [lookup_onto]
  simp only [onto_world, World.object?_withSlots]
  split
  · split
    · exact next _ _
    · exact stuck _
  · exact stuck _

theorem withPointer_onto (stuck : ∀ a, R (m.finish a) ((m.onto s xs).finish a))
    {p : Option VarName} {k k' : Option NativeId → Machine} (next : ∀ n?, R (k n?) (k' n?)) :
    R (m.withPointer p k) ((m.onto s xs).withPointer p k') := by
  unfold Machine.withPointer
  split
  · exact next _
  · rw [lookup_onto]
    split
    · next n _ =>
        have same : (m.onto s xs).world.native? n = m.world.native? n := rfl
        rw [same]
        split
        · exact next _
        · exact stuck _
    · exact stuck _

theorem withObject_onto (stuck : ∀ a, R (m.finish a) ((m.onto s xs).finish a))
    {p : Option VarName} {k k' : NativeId → Native → Machine} (next : ∀ n o, R (k n o) (k' n o)) :
    R (m.withObject p k) ((m.onto s xs).withObject p k') := by
  refine withPointer_onto stuck fun n? => ?_
  cases n? with
  | none => exact stuck _
  | some n =>
      simp only [onto_world, World.native?_withSlots]
      split
      · exact next _ _
      · exact stuck _

theorem withNativeMemory_onto (stuck : ∀ a, R (m.finish a) ((m.onto s xs).finish a))
    {p : Option VarName} {k k' : NativeId → LinearMemory → Machine}
    (next : ∀ n mem, R (k n mem) (k' n mem)) :
    R (m.withNativeMemory p k) ((m.onto s xs).withNativeMemory p k') := by
  refine withObject_onto stuck fun n o => ?_
  cases o with
  | memory mem => exact next _ _
  | _ => exact stuck _

theorem withNativeFunc_onto (stuck : ∀ a, R (m.finish a) ((m.onto s xs).finish a))
    {p : Option VarName} {k k' : NativeId → NativeFunc → Machine} (next : ∀ n f, R (k n f) (k' n f)) :
    R (m.withNativeFunc p k) ((m.onto s xs).withNativeFunc p k') := by
  refine withObject_onto stuck fun n o => ?_
  cases o with
  | func f => exact next _ _
  | _ => exact stuck _

end

theorem finishes_stuck (m : Machine) (s : List Frame) (xs : List (Option Fault)) (a : Answer) :
    Finishes m s xs (m.finish a) ((m.onto s xs).finish a) :=
  (blind_self m s xs).finish a

/-! ## Steps that end at once -/

theorem finishes_newStore (m : Machine) (name : VarName) (engine : Option VarName) :
    Finishes m s xs (m.newStore name engine) ((m.onto s xs).newStore name engine) := by
  have create {here there : Machine} (blind : Blind m s xs here there) (config : Config) :
      Finishes m s xs
        (((here.withWorld (here.world.createStore config).2).assign name
          (.store (here.world.createStore config).1)).finish (.config config))
        (((there.withWorld (there.world.createStore config).2).assign name
          (.store (there.world.createStore config).1)).finish (.config config)) := by
    have made : there.world.createStore config =
        ((here.world.createStore config).1, (here.world.createStore config).2.withSlots xs) := by
      rw [blind.same, onto_world, World.createStore_withSlots]
    rw [made]
    exact ((blind.world rfl).assign name _).finish _
  unfold Machine.newStore
  dsimp only
  split
  · exact create ((blind_self m s xs).world (World.createEngine_withSlots _ xs _)) .standard
  · rw [lookup_onto]
    split
    · exact create (blind_self m s xs) _
    · exact (blind_self m s xs).unusable _

theorem finishes_newMemory (m : Machine) (g : Guard) (name v : VarName) (type : MemoryType) :
    Finishes m s xs (m.newMemory g name v type) ((m.onto s xs).newMemory g name v type) := by
  refine withStore_onto (finishes_stuck m s xs) fun id => ?_
  rw [onto_world, World.createMemory_withSlots]
  obtain ⟨made, w⟩ := m.world.createMemory id type
  cases made with
  | ok h => exact (((blind_self m s xs).world rfl).assign name _).finish _
  | error e => exact ((blind_self m s xs).world rfl).refuse g e

theorem finishes_writeMemory (m : Machine) (g : Guard) (n : NativeId) (mem : LinearMemory) (offset : Nat)
    (data : Runs) : Finishes m s xs (m.writeMemory g n mem offset data)
      ((m.onto s xs).writeMemory g n mem offset data) := by
  unfold Machine.writeMemory
  rw [onto_world, World.write_withSlots]
  obtain ⟨written, w⟩ := m.world.write n mem offset data
  cases written with
  | ok _ => exact ((blind_self m s xs).world rfl).finish _
  | error e => exact ((blind_self m s xs).world rfl).refuse g e

theorem finishes_pokeMemory (m : Machine) (g : Guard) (v : VarName) (address value : Operand) :
    Finishes m s xs (m.pokeMemory g v address value) ((m.onto s xs).pokeMemory g v address value) := by
  refine withMemory_onto (finishes_stuck m s xs) fun n mem => ?_
  refine withOperand_onto (finishes_stuck m s xs) fun a => ?_
  refine withOperand_onto (finishes_stuck m s xs) fun c => ?_
  split
  · exact finishes_writeMemory m g n mem _ _
  · exact (blind_self m s xs).unusable v

theorem finishes_newFunc (m : Machine) (name v : VarName) (code : HostCode) (captures : List VarName) :
    Finishes m s xs (m.newFunc name v code captures) ((m.onto s xs).newFunc name v code captures) := by
  refine withStore_onto (finishes_stuck m s xs) fun id => ?_
  simp only [lookup_onto, onto_world, World.retainAll_withSlots, World.register_withSlots]
  split
  · exact (blind_self m s xs).unusable v
  · next captured _ =>
      obtain ⟨made, w⟩ := (m.world.retainAll (Scope.refs captured)).register id code captured
      cases made with
      | some h => exact (((blind_self m s xs).world rfl).assign name _).finish _
      | none => exact ((blind_self m s xs).world rfl).unusable v

theorem finishes_newReference (m : Machine) (name : VarName) (label : String) (p : Payload)
    (blind : Blind m s xs here there) :
    Finishes m s xs (here.newReference name label p) (there.newReference name label p) := by
  have made : there.world.alloc (.referent label p) 1 = ((here.world.alloc (.referent label p) 1).1,
      (here.world.alloc (.referent label p) 1).2.withSlots xs) := by
    rw [blind.same, onto_world, World.alloc_withSlots]
  unfold Machine.newReference
  rw [made]
  exact ((blind.world rfl).assign name _).finish _

theorem finishes_reference (m : Machine) (name : VarName) (label : String) (p : PayloadLiteral) :
    Finishes m s xs (m.reference name label p) ((m.onto s xs).reference name label p) := by
  have wrapped (v : VarName) : Finishes m s xs (m.reference name label (.func v))
      ((m.onto s xs).reference name label (.func v)) := by
    unfold Machine.reference
    dsimp only
    rw [lookup_onto]
    split
    · exact finishes_newReference m name label _
        ((blind_self m s xs).world (World.retainAll_withSlots xs _ _))
    · exact (blind_self m s xs).unusable v
  cases p with
  | text _ => exact finishes_newReference m name label _ (blind_self m s xs)
  | int _ => exact finishes_newReference m name label _ (blind_self m s xs)
  | unit => exact finishes_newReference m name label _ (blind_self m s xs)
  | func v => exact wrapped v
  | memory v => exact wrapped v
  | store v => exact wrapped v

theorem finishes_content (m : Machine) (c : Scalar ObjId) (type : PayloadType) (name : Option VarName) :
    Finishes m s xs (m.content c type name) ((m.onto s xs).content c type name) := by
  have ends (a : Answer) := (blind_self m s xs).finish a
  have payload : (m.onto s xs).world.payload? = m.world.payload? := rfl
  unfold Machine.content
  dsimp only
  rw [payload]
  split
  case h_7 =>
    split
    · split
      · exact ((blind_self m s xs).assignCopy _ _).finish _
      · exact ends _
    · exact ends _
  all_goals exact ends _

theorem finishes_putCell (m : Machine) (cell : ObjId) (old new : Option Item) :
    Finishes m s xs (m.putCell cell old new) ((m.onto s xs).putCell cell old new) := by
  unfold Machine.putCell
  simp only [onto_world, World.retainAll_withSlots, World.setObject_withSlots,
    World.releaseAll_withSlots]
  exact ((blind_self m s xs).world rfl).finish _

theorem finishes_arithmetic (m : Machine) (name : VarName) (f : Int → Int → Int) (a b : Operand) :
    Finishes m s xs (m.arithmetic name f a b) ((m.onto s xs).arithmetic name f a b) := by
  refine withOperand_onto (finishes_stuck m s xs) fun x => ?_
  refine withOperand_onto (finishes_stuck m s xs) fun y => ?_
  split
  · exact ((blind_self m s xs).assign name _).finish _
  · exact (blind_self m s xs).unusable name

theorem finishes_externToFunc (m : Machine) (name v : VarName) :
    Finishes m s xs (m.externToFunc name v) ((m.onto s xs).externToFunc name v) := by
  refine withHandle_onto (finishes_stuck m s xs) fun i id h => ?_
  rw [onto_world, World.intoFunc?_withSlots]
  cases m.world.intoFunc? id h with
  | none => exact (blind_self m s xs).finish _
  | some made => exact (((blind_self m s xs).world rfl).assign name _).finish _

theorem finishes_externToMemory (m : Machine) (name v : VarName) :
    Finishes m s xs (m.externToMemory name v) ((m.onto s xs).externToMemory name v) := by
  refine withHandle_onto (finishes_stuck m s xs) fun i id h => ?_
  rw [onto_world, World.intoMemory?_withSlots]
  cases m.world.intoMemory? id h with
  | none => exact (blind_self m s xs).finish _
  | some made => exact (((blind_self m s xs).world rfl).assign name _).finish _

theorem finishes_callerDepth (m : Machine) (name : Option VarName) :
    Finishes m s xs (m.callerDepth name) ((m.onto s xs).callerDepth name) := by
  have caller : (m.onto s xs).caller? = m.caller? := rfl
  unfold Machine.callerDepth
  rw [caller]
  split
  · exact (blind_self m s xs).finish _
  · split
    · exact ((blind_self m s xs).assign _ _).finish _
    · exact (blind_self m s xs).finish _

theorem finishes_showFuncType (m : Machine) (v : VarName) :
    Finishes m s xs (m.showFuncType v) ((m.onto s xs).showFuncType v) := by
  unfold Machine.showFuncType
  rw [lookup_onto]
  simp only [onto_world, World.handle?_withSlots, World.nativeFunc?_withSlots]
  split
  · split
    · exact (blind_self m s xs).finish _
    · exact (blind_self m s xs).unusable v
  · exact (blind_self m s xs).unusable v

/-- A step that ends at once sees neither the stack nor the slots. -/
theorem finishes_perform (m : Machine) (g : Guard) (a : Action) :
    Finishes m s xs (m.perform g a) ((m.onto s xs).perform g a) := by
  have self := blind_self m s xs
  have caller : (m.onto s xs).caller? = m.caller? := rfl
  cases a with
  | engine =>
      exact ((self.world (World.createEngine_withSlots _ xs _)).assign _ _).finish _
  | store name engine => exact finishes_newStore m name engine
  | flush =>
      refine withStore_onto (finishes_stuck m s xs) fun id => ?_
      rw [onto_world, World.flush_withSlots]
      exact (self.world rfl).finish _
  | pending => exact withStore_onto (finishes_stuck m s xs) fun id => self.finish _
  | sameStore =>
      refine withStore_onto (finishes_stuck m s xs) fun a => ?_
      exact withStore_onto (finishes_stuck m s xs) fun b => self.finish _
  | storeOf =>
      exact withHandle_onto (finishes_stuck m s xs) fun i id h => (self.assignCopy _ _).finish _
  | engineOf => exact withStore_onto (finishes_stuck m s xs) fun id => (self.assign _ _).finish _
  | interruptHandle name v =>
      refine withStore_onto (finishes_stuck m s xs) fun id => ?_
      rw [onto_world, World.createInterrupt_withSlots]
      exact (self.world rfl).assignNew name _ _
  | interrupt =>
      refine withHandle_onto (finishes_stuck m s xs) fun i id h => ?_
      exact (self.world (World.interrupt_withSlots _ xs h)).finish _
  | memory name v type => exact finishes_newMemory m g name v type
  | memoryType | size | dataSize | data =>
      exact withMemory_onto (finishes_stuck m s xs) fun n mem => self.finish _
  | grow v delta =>
      refine withMemory_onto (finishes_stuck m s xs) fun n mem => ?_
      rw [onto_world, World.grow_withSlots]
      exact (self.world rfl).finish _
  | read v offset len =>
      refine withMemory_onto (finishes_stuck m s xs) fun n mem => ?_
      split
      · exact self.finish _
      · exact self.refuse g _
  | write =>
      exact withMemory_onto (finishes_stuck m s xs) fun n mem => finishes_writeMemory m g n mem _ _
  | poke v address value => exact finishes_pokeMemory m g v address value
  | sameData =>
      refine withMemory_onto (finishes_stuck m s xs) fun n x => ?_
      exact withMemory_onto (finishes_stuck m s xs) fun k y => self.finish _
  | asExtern =>
      refine withHandle_onto (finishes_stuck m s xs) fun i id h => ?_
      exact ((self.world rfl).assign _ _).finish _
  | externKind v =>
      refine withHandle_onto (finishes_stuck m s xs) fun i id h => ?_
      rw [onto_world, World.externKind?_withSlots]
      split
      · exact self.finish _
      · exact self.unusable v
  | intoFunc name v => exact finishes_externToFunc m name v
  | intoMemory name v => exact finishes_externToMemory m name v
  | clone name v =>
      unfold Machine.perform
      dsimp only
      rw [lookup_onto]
      split
      · exact (self.assignCopy _ _).finish _
      · exact self.unusable v
  | drop v =>
      obtain ⟨existed, erased⟩ := self.erase v
      unfold Machine.perform
      dsimp only
      rw [existed]
      exact erased.finish _
  | cell => exact ((self.world rfl).assign _ _).finish _
  | put c v =>
      refine withCell_onto (finishes_stuck m s xs) fun c old => ?_
      rw [lookup_onto]
      split
      · exact finishes_putCell m _ _ _
      · exact self.unusable v
  | get name c =>
      refine withCell_onto (finishes_stuck m s xs) fun c content => ?_
      split
      · exact (self.assignCopy _ _).finish _
      · exact self.finish _
  | take => exact withCell_onto (finishes_stuck m s xs) fun c old => finishes_putCell m _ _ _
  | debug v =>
      unfold Machine.perform
      dsimp only
      rw [lookup_onto]
      cases m.lookup v with
      | none => exact self.unusable v
      | some item =>
          simp only [Option.bind_some, onto_world, World.debug?_withSlots]
          cases m.world.debug? item with
          | none => exact self.unusable v
          | some p => exact (self.world rfl).finish _
  | funcType v => exact finishes_showFuncType m v
  | typed name v sig =>
      show Finishes m s xs (m.newTyped g name v sig) ((m.onto s xs).newTyped g name v sig)
      unfold Machine.newTyped
      rw [lookup_onto]
      split
      · split
        · exact (self.assignCopy _ _).finish _
        · exact self.refuse g _
      · exact self.unusable v
  | typedFunc name v =>
      unfold Machine.perform
      dsimp only
      rw [lookup_onto]
      split
      · exact (self.assignCopy _ _).finish _
      · exact self.unusable v
  | reference name label payload => exact finishes_reference m name label payload
  | set => exact withOperand_onto (finishes_stuck m s xs) fun c => (self.assignCopy _ _).finish _
  | accessors => exact withOperand_onto (finishes_stuck m s xs) fun c => self.finish _
  | strong =>
      refine withOperand_onto (finishes_stuck m s xs) fun c => ?_
      split
      · exact self.finish _
      · exact self.finish _
  | sameReference | equalValues =>
      refine withOperand_onto (finishes_stuck m s xs) fun x => ?_
      exact withOperand_onto (finishes_stuck m s xs) fun y => self.finish _
  | content o type name =>
      exact withOperand_onto (finishes_stuck m s xs) fun c => finishes_content m c type name
  | expectKind o kind =>
      refine withOperand_onto (finishes_stuck m s xs) fun c => ?_
      split
      · exact self.finish _
      · exact self.complete _
  | zeroOf | describeFuncType | equalFuncTypes | describeMemoryType => exact self.finish _
  | describeTrap | configure | defaults | typedKinds => exact self.finish _
  | decodeValues =>
      refine withOperands_onto (finishes_stuck m s xs) fun cs => ?_
      dsimp only
      split
      · exact self.finish _
      · exact self.complete _
  | encodeValues => exact withOperands_onto (finishes_stuck m s xs) fun cs => self.finish _
  | depth name => exact finishes_callerDepth m name
  | callerStore name =>
      unfold Machine.perform
      dsimp only
      rw [caller]
      split
      · exact (self.assignCopy _ _).finish _
      · exact self.finish _
  | callerDebug =>
      unfold Machine.perform
      dsimp only
      rw [caller]
      split
      · exact self.finish _
      · exact self.finish _
  | giveBack =>
      refine withOperands_onto (finishes_stuck m s xs) fun cs => ?_
      exact (self.world (World.retainAll_withSlots xs _ _)).complete _
  | trap => exact self.complete _
  | panic => exact self.complete _
  | add name a b => exact finishes_arithmetic m name _ a b
  | subtract name a b => exact finishes_arithmetic m name _ a b
  | rawPointer => exact withHandle_onto (finishes_stuck m s xs) fun i id h => (self.assign _ _).finish _

end HostEmbedding.Machine
