import HostEmbedding.Proofs.Views.Calling

/-!
# Chains of views

A view is made from a handle by asking for an extern, a clone, a function or a memory, and the view is a
handle again, so views are made from views in chains of any length. Every conversion keeps the native
object, and nothing else has to be remembered.
-/

namespace HostEmbedding

/-! ## Operations -/

inductive MemoryOp where
  | type
  | size
  | dataSize
  | data
  | grow (delta : UInt32)
  | read (offset len : Nat)
  | write (offset : Nat) (bytes : List UInt8) (times : Nat)

def MemoryOp.on : MemoryOp → VarName → Action
  | .type, v => .memoryType v
  | .size, v => .size v
  | .dataSize, v => .dataSize v
  | .data, v => .data v
  | .grow delta, v => .grow v delta
  | .read offset len, v => .read v offset len
  | .write offset bytes times, v => .write v offset bytes times

/-- What an operation does to a native memory, whoever asks for it. -/
def MemoryOp.effect (m : Machine) (g : Guard) (n : NativeId) (mem : LinearMemory) : MemoryOp → Machine
  | .type => m.finish (.memoryType (.ofLimits mem.limits))
  | .size => m.finish (.nat mem.pages.toNat)
  | .dataSize => m.finish (.nat mem.dataSize)
  | .data => m.finish (.runs mem.bytes)
  | .grow delta =>
      let (granted, w) := m.world.grow n mem delta
      (m.withWorld w).finish (.bool granted)
  | .read offset len =>
      match World.read mem offset len with
      | .ok bytes => m.finish (.runs bytes)
      | .error e => m.refuse g e
  | .write offset bytes times => m.writeMemory g n mem offset (Runs.times times (Runs.ofBytes bytes))

theorem MemoryOp.perform_on (op : MemoryOp) (m : Machine) (g : Guard) (v : VarName) :
    m.perform g (op.on v) = m.withMemory v fun n mem => op.effect m g n mem := by
  cases op <;> rfl

/-! ## Conversions -/

/-- A step that makes a view of what a variable holds and puts it under a name, and its answer if it
succeeds. -/
inductive Action.Converts : Action → VarName → VarName → Answer → Prop
  | view (name v : VarName) : Action.Converts (.asExtern name v) v name .ok
  | clone (name v : VarName) : Action.Converts (.clone name v) v name .ok
  | func (name v : VarName) : Action.Converts (.intoFunc name v) v name (.bool true)
  | memory (name v : VarName) : Action.Converts (.intoMemory name v) v name (.bool true)

namespace Machine

variable {m : Machine} {v name : VarName} {id x y : ObjId} {h k : Handle} {kind : ExternKind} {g : Guard}

def named? (m : Machine) (v : VarName) : Option ObjId := (m.lookup v).bind Item.handle?

def Converts (m : Machine) (x y : ObjId) : Prop :=
  ∃ g a v name answer, m.AtStep g (.plain a) ∧ a.Converts v name answer ∧ m.named? v = some x ∧
    m.step.control = .complete (.done answer) ∧ m.step.named? name = some y

/-- What a chain of conversions has led to by some time, from a handle at an earlier time. In between
anything else may happen. -/
inductive Chain (run : Nat → Machine) (j : Nat) (id : ObjId) : Nat → ObjId → Prop
  | original : Chain run j id j id
  | keeps {k : Nat} {x : ObjId} (chain : Chain run j id k x) : Chain run j id (k + 1) x
  | converts {k : Nat} {x y : ObjId} (chain : Chain run j id k x) (step : (run k).Converts x y) :
      Chain run j id (k + 1) y

theorem Chain.later {run : Nat → Machine} {j k : Nat} (chain : Chain run j id k x) (d : Nat) :
    Chain run j id (k + d) x := by
  induction d with
  | zero => exact chain
  | succ d ih => exact ih.keeps

def viewed (m : Machine) (name : VarName) (id : ObjId) (h : Handle) (state : HandleState)
    (item : ObjId → Item) (a : Answer) : Machine :=
  let r := m.world.borrow h.native h.store (World.ownerOf id h) state
  ((m.withWorld r.2).assign name (item r.1)).finish a

theorem lookup_viewed (m : Machine) (name : VarName) (id : ObjId) (h : Handle) (state : HandleState)
    (item : ObjId → Item) (a : Answer) : (m.viewed name id h state item a).lookup name =
      some (item (m.world.borrow h.native h.store (World.ownerOf id h) state).1) :=
  lookup_assign _ _ _

/-- A new view is on the native object that was viewed. -/
theorem shapes_viewed (m : Machine) (name : VarName) (id : ObjId) (h : Handle) (state : HandleState)
    (item : ObjId → Item) (a : Answer) : (m.viewed name id h state item a).world.shapes.IsHandle
      (m.world.borrow h.native h.store (World.ownerOf id h) state).1
      ⟨h.native, h.store, some (World.ownerOf id h), state⟩ := by
  have made : (m.viewed name id h state item a).world.shapes =
      (m.world.borrow h.native h.store (World.ownerOf id h) state).2.shapes := assign_shapes _ _ _
  rw [made]
  exact World.shapes_alloc_self _ _ _

theorem handleNamed?_eq_some (named : m.named? v = some id) (found : m.world.handle? id = some h) :
    m.handleNamed? v = some (id, h) := by
  unfold named? at named
  unfold handleNamed?
  rw [named, Option.bind_some, found]
  rfl

section

variable (named : m.handleNamed? v = some (id, h))
include named

theorem newExtern_eq (name : VarName) : m.newExtern name v = m.viewed name id h .view .view .ok := by
  unfold newExtern
  rw [withHandle_eq, named]
  rfl

theorem externToFunc_eq (name : VarName) : m.externToFunc name v =
    match m.world.nativeFunc? h.native with
    | some f => m.viewed name id h (.func none) (.func · (FuncType.ofNative f.type)) (.bool true)
    | none => m.finish (.bool false) := by
  unfold externToFunc World.intoFunc?
  rw [withHandle_eq, named]
  dsimp only
  cases m.world.nativeFunc? h.native <;> rfl

theorem externToMemory_eq (name : VarName) : m.externToMemory name v =
    match m.world.nativeMemory? h.native, m.world.sharedLock? (World.ownerOf id h) with
    | some _, some lock => m.viewed name id h (.memory lock) .memory (.bool true)
    | _, _ => m.finish (.bool false) := by
  unfold externToMemory World.intoMemory?
  rw [withHandle_eq, named]
  dsimp only
  cases m.world.nativeMemory? h.native <;> cases m.world.sharedLock? (World.ownerOf id h) <;> rfl

theorem externKind_eq (g : Guard) : m.perform g (.externKind v) =
    match m.world.externKind? h.native with
    | some k => m.finish (.text k.name)
    | none => m.unusable v := by
  have reads := withHandle_eq m v fun _ h =>
    match m.world.externKind? h.native with
    | some k => m.finish (.text k.name)
    | none => m.unusable v
  rw [named] at reads
  exact reads

end

theorem clone_eq {item : Item} (holds : m.lookup v = some item) :
    m.perform g (.clone name v) = (m.assignCopy name item).finish .ok := by
  unfold Machine.perform
  dsimp only
  rw [holds]

/-- A variable that holds a handle holds a live one. -/
theorem Busy.named {m₀ : Machine} {extra : List ObjId} (busy : Busy m₀ extra m)
    (named : m.named? v = some x) : ∃ h, m.world.handle? x = some h := by
  obtain ⟨item, found, handle⟩ := Option.bind_eq_some_iff.mp named
  have usable := busy.lookup found
  have known : (∃ h, m.world.shapes.IsHandle x h) ∧ x ∈ item.refs := by
    have fits := usable.fits
    cases item with
    | memory =>
        cases handle
        obtain ⟨h, lock, known, -⟩ := fits
        exact ⟨⟨h, known⟩, List.mem_cons_self⟩
    | view | interrupt =>
        cases handle
        obtain ⟨h, known, -⟩ := fits
        exact ⟨⟨h, known⟩, List.mem_cons_self⟩
    | func =>
        cases handle
        obtain ⟨h, env, f, known, -⟩ := fits
        exact ⟨⟨h, known⟩, List.mem_cons_self⟩
    | typedFunc =>
        cases handle
        obtain ⟨-, h, env, f, known, -⟩ := fits
        exact ⟨⟨h, known⟩, List.mem_cons_self⟩
    | _ => cases handle
  obtain ⟨⟨h, known⟩, mem⟩ := known
  exact ⟨h, World.handle?_eq_some.mpr ⟨known, busy.alive usable x mem⟩⟩

/-- What is converted is live. -/
theorem Coherent.converts_live (coherent : m.Coherent) (converts : m.Converts x y) :
    ∃ h, m.world.handle? x = some h := by
  obtain ⟨g, a, v, name, answer, begins, -, named, -⟩ := converts
  exact (coherent.busy (by rw [begins.control]; rfl)).named named

/-- A conversion leads to a handle on the same native object. -/
theorem Coherent.converts_native (coherent : m.Coherent) (converts : m.Converts x y)
    (found : m.world.handle? x = some h) :
    ∃ k, m.step.world.shapes.IsHandle y k ∧ k.native = h.native := by
  obtain ⟨g, a, v, name, answer, begins, form, named, told, result⟩ := converts
  have reads := handleNamed?_eq_some named found
  have step : m.step = m.perform g a := begins.step_eq
  rw [step] at told result ⊢
  have viewed {state : HandleState} {item : ObjId → Item} {a : Answer}
      (handle : ∀ id, (item id).handle? = some id)
      (result : (m.viewed name x h state item a).named? name = some y) :
      ∃ k, (m.viewed name x h state item a).world.shapes.IsHandle y k ∧ k.native = h.native := by
    unfold named? at result
    rw [lookup_viewed, Option.bind_some, handle] at result
    obtain rfl := Option.some.inj result
    exact ⟨_, shapes_viewed m name x h state item a, rfl⟩
  cases form with
  | view =>
      rw [show m.perform g (.asExtern name v) = _ from newExtern_eq reads name] at result ⊢
      exact viewed (fun _ => rfl) result
  | clone =>
      obtain ⟨item, holds, handle⟩ := Option.bind_eq_some_iff.mp named
      rw [clone_eq holds] at result
      have bound : ((m.assignCopy name item).finish .ok).lookup name = some item := lookup_assign _ _ _
      unfold named? at result
      rw [bound, Option.bind_some, handle] at result
      obtain rfl := Option.some.inj result
      have grows := coherent.grows
      rw [step] at grows
      exact ⟨h, grows.object (World.handle?_eq_some.mp found).1, rfl⟩
  | func =>
      rw [show m.perform g (.intoFunc name v) = _ from externToFunc_eq reads name] at told result ⊢
      cases native : m.world.nativeFunc? h.native with
      | none =>
          rw [native] at told
          cases told
      | some f =>
          rw [native] at result
          exact viewed (fun _ => rfl) result
  | memory =>
      rw [show m.perform g (.intoMemory name v) = _ from externToMemory_eq reads name] at told result ⊢
      cases native : m.world.nativeMemory? h.native with
      | none =>
          rw [native] at told
          cases told
      | some mem =>
          cases shared : m.world.sharedLock? (World.ownerOf x h) with
          | none =>
              rw [native, shared] at told
              cases told
          | some lock =>
              rw [native, shared] at result
              exact viewed (fun _ => rfl) result

/-! ## The conversion that matches -/

/-- A variable can be viewed, and its view can be taken back as what it is: the kind is told, and of the two
conversions exactly the one that matches the kind succeeds. The other one does nothing. -/
structure Matches (m : Machine) (v : VarName) (kind : ExternKind) : Prop where
  tells : ∀ g, m.perform g (.externKind v) = m.finish (.text kind.name)
  view : ∀ g name, (m.perform g (.asExtern name v)).control = .complete (.done .ok) ∧
    ∃ y, (m.perform g (.asExtern name v)).lookup name = some (.view y)
  clone : ∀ g name, (m.perform g (.clone name v)).control = .complete (.done .ok) ∧
    (m.perform g (.clone name v)).lookup name = m.lookup v
  intoFunc : ∀ g name,
    if kind = .func then (m.perform g (.intoFunc name v)).control = .complete (.done (.bool true)) ∧
      ∃ y type, (m.perform g (.intoFunc name v)).lookup name = some (.func y type)
    else m.perform g (.intoFunc name v) = m.finish (.bool false)
  intoMemory : ∀ g name,
    if kind = .memory then (m.perform g (.intoMemory name v)).control = .complete (.done (.bool true)) ∧
      ∃ y, (m.perform g (.intoMemory name v)).lookup name = some (.memory y)
    else m.perform g (.intoMemory name v) = m.finish (.bool false)

theorem Coherent.matches (coherent : m.Coherent) (named : m.named? v = some x)
    (found : m.world.handle? x = some h) (known : m.world.shapes.kind? h.native = some kind) :
    m.Matches v kind := by
  have reads := handleNamed?_eq_some named found
  have bal := coherent.world.toBalanced
  obtain ⟨o, live, same⟩ := bal.live_kind found known
  have told : m.world.externKind? h.native = some kind := by
    unfold World.externKind?
    rw [live]
    exact same
  refine ⟨fun g => ?_, fun g name => ?_, fun g name => ?_, fun g name => ?_, fun g name => ?_⟩
  · rw [externKind_eq reads, told]
  · rw [show m.perform g (.asExtern name v) = _ from newExtern_eq reads name]
    exact ⟨rfl, _, lookup_viewed ..⟩
  · obtain ⟨item, holds, -⟩ := Option.bind_eq_some_iff.mp named
    rw [clone_eq holds, holds]
    exact ⟨rfl, lookup_assign _ _ _⟩
  · rw [show m.perform g (.intoFunc name v) = _ from externToFunc_eq reads name]
    cases kind with
    | func =>
        obtain ⟨f, native, -⟩ := bal.live_func found known
        rw [native, if_pos rfl]
        exact ⟨rfl, _, _, lookup_viewed ..⟩
    | memory =>
        obtain ⟨mem, lock, -, none, -⟩ := bal.live_memory found known
        rw [none, if_neg (by decide)]
  · rw [show m.perform g (.intoMemory name v) = _ from externToMemory_eq reads name]
    cases kind with
    | func =>
        obtain ⟨f, -, none⟩ := bal.live_func found known
        rw [none, if_neg (by decide)]
    | memory =>
        obtain ⟨mem, lock, native, -, shared⟩ := bal.live_memory found known
        rw [native, shared, if_pos rfl]
        exact ⟨rfl, _, lookup_viewed ..⟩

/-! ## Operations through views -/

/-- A variable that holds a memory reaches the native memory of its handle. -/
theorem Coherent.reaches_memory (coherent : m.Coherent) (holds : m.lookup v = some (.memory x))
    (found : m.world.handle? x = some h) (known : m.world.shapes.kind? h.native = some .memory) :
    ∃ mem, m.world.nativeMemory? h.native = some mem ∧ m.memoryNamed? v = some (h.native, mem) := by
  obtain ⟨mem, lock, native, -⟩ := coherent.world.toBalanced.live_memory found known
  refine ⟨mem, native, ?_⟩
  unfold memoryNamed? World.memoryOf?
  rw [holds]
  dsimp only
  rw [found]
  dsimp only
  rw [native]
  rfl

/-- A function is held under the type of its native function, and asking for it tells that type. -/
theorem Coherent.tells_type (coherent : m.Coherent) (running : m.control = .run) {type : FuncType}
    (holds : m.lookup v = some (.func x type)) (found : m.world.handle? x = some h) :
    (∃ f, m.world.shapes.native? h.native = some (.func f) ∧ type = FuncType.ofNative f.type) ∧
      ∀ g, m.perform g (.funcType v) = m.finish (.funcType type (type.params.length, type.results.length)) := by
  obtain ⟨h', live⟩ := (coherent.busy (by rw [running]; rfl)).live_func holds
  obtain rfl := Option.some.inj (live.handle.symm.trans found)
  obtain ⟨f, native, typed⟩ := live.native
  refine ⟨⟨f, native, by rw [typed, FuncType.ofNative_toNative]⟩, fun g => ?_⟩
  obtain ⟨f', func, -⟩ := coherent.world.toBalanced.live_func found
    (Option.bind_eq_some_iff.mpr ⟨_, native, rfl⟩)
  have shape := World.shapes_of_native? (World.nativeFunc?_eq_some.mp func)
  obtain rfl : f' = f := Native.func.inj (Option.some.inj (shape.symm.trans native))
  show m.showFuncType v = _
  unfold showFuncType
  rw [holds]
  dsimp only
  rw [found, Option.bind_some, func]
  dsimp only
  rw [typed, FuncType.toNative, List.length_map, List.length_map]

/-! ## Runs -/

/-- Whatever a chain leads to is on the native object that the chain began with. -/
theorem chain_native (level : Option LogLevel) {script : Block} (isPublic : Block.isPublic script = true)
    {i j : Nat} (known : (after level script i).world.shapes.IsHandle id h)
    (chain : Chain (after level script) i id j x) :
    (after level script j).world.shapes.IsHandle id h ∧
      ∃ k, (after level script j).world.shapes.IsHandle x k ∧ k.native = h.native := by
  induction chain with
  | original => exact ⟨known, h, known, rfl⟩
  | @keeps j x chain before =>
      obtain ⟨first, k, there, same⟩ := before
      have grows := (coherent_after level isPublic j).grows
      rw [← after_succ] at grows
      exact ⟨grows.object first, k, grows.object there, same⟩
  | @converts j x y chain step before =>
      obtain ⟨first, k, there, same⟩ := before
      have coherent := coherent_after level isPublic j
      have grows := coherent.grows
      obtain ⟨k', live⟩ := coherent.converts_live step
      have here := (World.handle?_eq_some.mp live).1
      obtain rfl : k' = k := Object.handle.inj (Option.some.inj (here.symm.trans there))
      obtain ⟨p, made, native⟩ := coherent.converts_native step live
      rw [← after_succ] at made grows
      exact ⟨grows.object first, p, made, native.trans same⟩

structure ViewAt (level : Option LogLevel) (script : Block) (i : Nat) (id : ObjId) (h : Handle) (j : Nat)
    (x : ObjId) (k : Handle) : Prop where
  original : (after level script i).world.handle? id = some h
  chain : Chain (after level script) i id j x
  live : (after level script j).world.handle? x = some k

section

variable {level : Option LogLevel} {script : Block} {i j : Nat}

theorem ViewAt.native (isPublic : Block.isPublic script = true) (view : ViewAt level script i id h j x k) :
    (after level script j).world.shapes.IsHandle id h ∧ k.native = h.native := by
  obtain ⟨first, p, there, same⟩ :=
    chain_native level isPublic (World.handle?_eq_some.mp view.original).1 view.chain
  have here := (World.handle?_eq_some.mp view.live).1
  obtain rfl : p = k := Object.handle.inj (Option.some.inj (there.symm.trans here))
  exact ⟨first, same⟩

/-- The native object of a view of a memory or function is of that kind. -/
theorem ViewAt.native_kind (isPublic : Block.isPublic script = true) (view : ViewAt level script i id h j x k)
    (state : h.state.kind? = some kind) : (after level script j).world.shapes.kind? k.native = some kind := by
  obtain ⟨first, same⟩ := view.native isPublic
  rw [same]
  exact (coherent_after level isPublic j).world.toBalanced.kind_of_state first state

end

/-- What chains of views lead to, at any later time, from a memory or function that was alive once. -/
structure ViewChains (level : Option LogLevel) (script : Block) : Prop where
  denotes : ∀ {i id h j x k}, ViewAt level script i id h j x k →
    (after level script j).world.Denotes id h x k
  kinds : ∀ {i id h j x k}, ViewAt level script i id h j x k → ∀ {kind}, h.state.kind? = some kind →
    ∀ {v}, (after level script j).named? v = some x → (after level script j).Matches v kind
  memory : ∀ {i id h j x k}, ViewAt level script i id h j x k → h.state.kind? = some .memory →
    ∀ {v}, (after level script j).lookup v = some (.memory x) →
      ∃ mem, (after level script j).world.nativeMemory? h.native = some mem ∧
        ∀ g (op : MemoryOp), (after level script j).perform g (op.on v) =
          op.effect (after level script j) g h.native mem
  data : ∀ {i id h j x k y l}, ViewAt level script i id h j x k → ViewAt level script i id h j y l →
    h.state.kind? = some .memory → ∀ {v u}, (after level script j).lookup v = some (.memory x) →
      (after level script j).lookup u = some (.memory y) →
      ∀ g, (after level script j).perform g (.sameData v u) = (after level script j).finish (.bool true)
  func : ∀ {i id h j x k}, ViewAt level script i id h j x k → h.state.kind? = some .func →
    (after level script j).control = .run → ∀ {v type}, (after level script j).lookup v = some (.func x type) →
      (∃ f, (after level script j).world.shapes.native? h.native = some (.func f) ∧
        type = FuncType.ofNative f.type) ∧
      ∀ g, (after level script j).perform g (.funcType v) =
        (after level script j).finish (.funcType type (type.params.length, type.results.length))
  calls : ∀ {i id h j x k y l}, ViewAt level script i id h j x k → h.state.kind? = some .func →
    (after level script j).control = .run → Frame.Waits (after level script j).stack →
    (after level script j).world.handle? y = some l → l.native = h.native → ∀ {v type} args names,
      (after level script j).lookup v = some (.func x type) →
      AlikeCalls x y (after level script j).stack ((after level script j).call v args names)
        ((after level script j).callThrough y l type args names none)
  typedCalls : ∀ {i id h j x k y l}, ViewAt level script i id h j x k → h.state.kind? = some .func →
    (after level script j).control = .run → Frame.Waits (after level script j).stack →
    (after level script j).world.handle? y = some l → l.native = h.native → ∀ {v type sig} args names,
      (after level script j).lookup v = some (.typedFunc x type sig) →
      AlikeCalls x y (after level script j).stack ((after level script j).typedCall v args names)
        ((after level script j).callThrough y l type args names (some sig))

/-- Along every chain of views of a public script, from every memory and every function, a view stays what it
was made from. -/
theorem viewChains_after (level : Option LogLevel) {script : Block}
    (isPublic : Block.isPublic script = true) : ViewChains level script where
  denotes := by
    intro i id h j x k view
    obtain ⟨first, native⟩ := view.native isPublic
    exact (coherent_after level isPublic j).world.toBalanced.denotes (locksShared_after level isPublic j)
      first view.live native
  kinds := by
    intro i id h j x k view kind state v named
    exact (coherent_after level isPublic j).matches named view.live (view.native_kind isPublic state)
  memory := by
    intro i id h j x k view state v holds
    obtain ⟨mem, native, reached⟩ :=
      (coherent_after level isPublic j).reaches_memory holds view.live (view.native_kind isPublic state)
    rw [(view.native isPublic).2] at native reached
    refine ⟨mem, native, fun g op => ?_⟩
    rw [op.perform_on, withMemory_eq, reached]
  data := by
    intro i id h j x k y l view view' state v u holds holds' g
    have coherent := coherent_after level isPublic j
    obtain ⟨mem, native, reached⟩ := coherent.reaches_memory holds view.live (view.native_kind isPublic state)
    obtain ⟨mem', native', reached'⟩ :=
      coherent.reaches_memory holds' view'.live (view'.native_kind isPublic state)
    rw [(view.native isPublic).2] at native reached
    rw [(view'.native isPublic).2] at native' reached'
    obtain rfl : mem' = mem := Option.some.inj (native'.symm.trans native)
    show (after level script j).withMemory v (fun n p => (after level script j).withMemory u fun o q =>
      (after level script j).finish (.bool (World.sameData (n, p) (o, q)))) = _
    rw [withMemory_eq, reached]
    dsimp only
    rw [withMemory_eq, reached']
    simp [World.sameData]
  func := by
    intro i id h j x k view state running v type holds
    have told := (coherent_after level isPublic j).tells_type running holds view.live
    rwa [(view.native isPublic).2] at told
  calls := by
    intro i id h j x k y l view state running waits found native v type args names holds
    have coherent := coherent_after level isPublic j
    obtain ⟨k', live⟩ := (coherent.busy (by rw [running]; rfl)).live_func holds
    obtain rfl := Option.some.inj (live.handle.symm.trans view.live)
    rw [call_through holds live.handle]
    exact coherent.calls_alike running waits live found (native.trans (view.native isPublic).2.symm) args names
      fun s none => nomatch none
  typedCalls := by
    intro i id h j x k y l view state running waits found native v type sig args names holds
    have coherent := coherent_after level isPublic j
    obtain ⟨signature, k', live⟩ := (coherent.busy (by rw [running]; rfl)).live_typedFunc holds
    obtain rfl := Option.some.inj (live.handle.symm.trans view.live)
    rw [typedCall_through holds live.handle]
    refine coherent.calls_alike running waits live found (native.trans (view.native isPublic).2.symm) args names
      fun s same => ?_
    cases same
    exact signature

/-- A memory and a function that are viewed and taken back; then the memory and the externs are dropped. -/
def viewedAndTakenBack : Block :=
  [(⟨false, false⟩, .plain (.store (.scoped "s") none)),
    (⟨false, false⟩, .plain (.memory (.scoped "m") (.scoped "s") ⟨1, none⟩)),
    (⟨false, false⟩, .func (.scoped "f") (.scoped "s") (.generic ⟨[], []⟩) "f" false [] []),
    (⟨false, false⟩, .plain (.asExtern (.scoped "e") (.scoped "m"))),
    (⟨false, false⟩, .plain (.intoMemory (.scoped "v") (.scoped "e"))),
    (⟨false, false⟩, .plain (.asExtern (.scoped "d") (.scoped "f"))),
    (⟨false, false⟩, .plain (.intoFunc (.scoped "g") (.scoped "d"))),
    (⟨false, false⟩, .plain (.drop (.scoped "m"))),
    (⟨false, false⟩, .plain (.drop (.scoped "e"))),
    (⟨false, false⟩, .plain (.drop (.scoped "d"))),
    (⟨false, false⟩, .plain (.grow (.scoped "v") 1))]

theorem converts_viewedAndTakenBack : (after none viewedAndTakenBack 6).Converts ⟨1⟩ ⟨5⟩ ∧
    (after none viewedAndTakenBack 8).Converts ⟨5⟩ ⟨6⟩ ∧
    (after none viewedAndTakenBack 10).Converts ⟨4⟩ ⟨7⟩ ∧
    (after none viewedAndTakenBack 12).Converts ⟨7⟩ ⟨8⟩ :=
  ⟨⟨_, _, _, _, _, ⟨rfl, rfl, _, _, _, _, rfl⟩, .view _ _, rfl, rfl, rfl⟩,
    ⟨_, _, _, _, _, ⟨rfl, rfl, _, _, _, _, rfl⟩, .memory _ _, rfl, rfl, rfl⟩,
    ⟨_, _, _, _, _, ⟨rfl, rfl, _, _, _, _, rfl⟩, .view _ _, rfl, rfl, rfl⟩,
    ⟨_, _, _, _, _, ⟨rfl, rfl, _, _, _, _, rfl⟩, .func _ _, rfl, rfl, rfl⟩⟩

/-- The view that is left of the memory grows it, and the view of the function is called as the function is. -/
theorem viewChains_after_viewedAndTakenBack : Block.isPublic viewedAndTakenBack = true ∧
    ((after none viewedAndTakenBack 20).world.Denotes ⟨1⟩ ⟨⟨1⟩, ⟨0⟩, none, .memory 0⟩ ⟨6⟩
      ⟨⟨1⟩, ⟨0⟩, some ⟨1⟩, .memory 0⟩) ∧
    (∃ mem, (after none viewedAndTakenBack 20).world.nativeMemory? ⟨1⟩ = some mem ∧
      (after none viewedAndTakenBack 20).perform ⟨false, false⟩ (.grow (.scoped "v") 1) =
        MemoryOp.effect (after none viewedAndTakenBack 20) ⟨false, false⟩ ⟨1⟩ mem (.grow 1)) ∧
    AlikeCalls ⟨8⟩ ⟨4⟩ (after none viewedAndTakenBack 14).stack
      ((after none viewedAndTakenBack 14).call (.scoped "g") [] [])
      ((after none viewedAndTakenBack 14).callThrough ⟨4⟩ ⟨⟨2⟩, ⟨0⟩, none, .func (some ⟨3⟩)⟩ ⟨[], []⟩ [] [] none) := by
  have isPublic : Block.isPublic viewedAndTakenBack = true := by decide
  have chains := viewChains_after none isPublic
  obtain ⟨viewed, taken, viewed', taken'⟩ := converts_viewedAndTakenBack
  have memory : ViewAt none viewedAndTakenBack 6 ⟨1⟩ ⟨⟨1⟩, ⟨0⟩, none, .memory 0⟩ 20 ⟨6⟩
      ⟨⟨1⟩, ⟨0⟩, some ⟨1⟩, .memory 0⟩ :=
    ⟨rfl, (((Chain.original.converts viewed).keeps.converts taken).later 11), by decide +kernel⟩
  have func : ViewAt none viewedAndTakenBack 10 ⟨4⟩ ⟨⟨2⟩, ⟨0⟩, none, .func (some ⟨3⟩)⟩ 14 ⟨8⟩
      ⟨⟨2⟩, ⟨0⟩, some ⟨4⟩, .func none⟩ :=
    ⟨rfl, (((Chain.original.converts viewed').keeps.converts taken').later 1), rfl⟩
  have holds : (after none viewedAndTakenBack 20).lookup (.scoped "v") = some (.memory ⟨6⟩) := by decide +kernel
  obtain ⟨mem, native, grows⟩ := chains.memory memory rfl holds
  exact ⟨isPublic, chains.denotes memory, ⟨mem, native, grows _ (.grow 1)⟩,
    chains.calls func rfl rfl trivial rfl rfl [] [] rfl⟩

end Machine

end HostEmbedding
