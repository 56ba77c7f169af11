import HostEmbedding.Proofs.Machine.Reading

/-!
# How steps end at once

A step that begins goes on with a block or a call, or ends at once: with an answer, with what it gives
back, with a panic, or with a trap that it asks for. It can also be refused with an error, which its guard
may raise as a trap. An error is never an answer for another reason.
-/

namespace HostEmbedding

def Guard.refusal (g : Guard) (e : ApiError) : Completion :=
  if g.errorTraps then .trapped (.ofMessage e.message) else .done (.error e)

namespace Machine

variable {m here : Machine} {g : Guard} {s : Step}

theorem refuse_eq (m : Machine) (g : Guard) (e : ApiError) : m.refuse g e = m.complete (g.refusal e) := by
  unfold refuse Guard.refusal
  split <;> rfl

/-- A step is refused with an error: a function is not of the type of a signature, a memory of a type cannot
be made, or bytes lie outside of a memory. -/
inductive RefusedWith (m : Machine) : Step → ApiError → Prop
  | typed (name : VarName) {v : VarName} {sig : TypedSignature} {h : ObjId} {type : FuncType}
      (held : m.lookup v = some (.func h type)) (other : sig.funcType ≠ type) :
      m.RefusedWith (.plain (.typed name v sig)) (.signatureMismatch sig.funcType type)
  | memory (name : VarName) {v : VarName} {store : ObjId} {type : MemoryType}
      (held : m.lookup v = some (.store store))
      (rejected : (m.world.createMemory store type).1 = .error (.invalidMemoryType type)) :
      m.RefusedWith (.plain (.memory name v type)) (.invalidMemoryType type)
  | read {v : VarName} {offset len : Nat} {n : NativeId} {mem : LinearMemory}
      (named : m.memoryNamed? v = some (n, mem)) (outside : mem.read? offset len = none) :
      m.RefusedWith (.plain (.read v offset len)) (.outOfBounds offset len mem.dataSize)
  | write {v : VarName} {offset : Nat} {bytes : List UInt8} {times : Nat} {n : NativeId} {mem : LinearMemory}
      (named : m.memoryNamed? v = some (n, mem))
      (outside : mem.write? offset (Runs.times times (Runs.ofBytes bytes)) = none) :
      m.RefusedWith (.plain (.write v offset bytes times))
        (.outOfBounds offset (Runs.times times (Runs.ofBytes bytes)).size mem.dataSize)
  | poke {v : VarName} {address value : Operand} {x y : Scalar ObjId} {offset : Nat} {bytes : List UInt8}
      {n : NativeId} {mem : LinearMemory} (named : m.memoryNamed? v = some (n, mem))
      (address? : m.operand? address = some x) (place : x.address? = some offset)
      (value? : m.operand? value = some y) (content : y.bytes? = some bytes)
      (outside : mem.write? offset (Runs.ofBytes bytes) = none) :
      m.RefusedWith (.plain (.poke v address value))
        (.outOfBounds offset (Runs.ofBytes bytes).size mem.dataSize)

inductive MayEnd (m : Machine) (g : Guard) (s : Step) : Completion → Prop
  | answers {a : Answer} (regular : ∀ e, a ≠ .error e) : MayEnd m g s (.done a)
  | givesBack (ss : List (Scalar ObjId)) : MayEnd m g s (.gaveBack ss)
  | panics (f : Fault) : MayEnd m g s (.panicked f)
  | asks {text : String} (asked : s = .plain (.trap text)) : MayEnd m g s (.trapped (.ofMessage text))
  | refused {e : ApiError} (refuses : m.RefusedWith s e) : MayEnd m g s (g.refusal e)

/-- Where a step has come to, it has ended only in a way that it may. -/
def EndsWell (m : Machine) (g : Guard) (s : Step) (here : Machine) : Prop :=
  ∀ c, here.control = .complete c → m.MayEnd g s c

/-! ## Ends -/

theorem endsWell_complete {c : Completion} (ends : m.MayEnd g s c) : m.EndsWell g s (here.complete c) := by
  rintro _ ⟨⟩
  exact ends

theorem endsWell_finish {a : Answer} (regular : ∀ e, a ≠ .error e) : m.EndsWell g s (here.finish a) :=
  endsWell_complete (.answers regular)

theorem endsWell_unusable (x : String) : m.EndsWell g s (here.finish (.unusable x)) := endsWell_finish nofun

theorem endsWell_stuck (a : Answer) (stuck : a.Stuck) : m.EndsWell g s (here.finish a) := by
  cases stuck <;> exact endsWell_finish nofun

theorem endsWell_panicked (f : Fault) : m.EndsWell g s (here.complete (.panicked f)) :=
  endsWell_complete (.panics f)

theorem endsWell_refuse {e : ApiError} (refuses : m.RefusedWith s e) : m.EndsWell g s (here.refuse g e) := by
  rw [refuse_eq]
  exact endsWell_complete (.refused refuses)

section

variable {v : VarName} {p : Option VarName}

theorem endsWell_withOperands {os : List Operand} {k : List (Scalar ObjId) → Machine}
    (next : ∀ ss, m.EndsWell g s (k ss)) : m.EndsWell g s (here.withOperands os k) :=
  of_withOperands endsWell_unusable next

theorem endsWell_withOperand {o : Operand} {k : Scalar ObjId → Machine} (next : ∀ x, m.EndsWell g s (k x)) :
    m.EndsWell g s (here.withOperand o k) := of_withOperand endsWell_unusable next

theorem endsWell_withStore {k : ObjId → Machine} (next : ∀ st, m.EndsWell g s (k st)) :
    m.EndsWell g s (here.withStore v k) := of_withStore endsWell_unusable fun st _ => next st

theorem endsWell_withMemory {k : NativeId → LinearMemory → Machine}
    (next : ∀ n mem, here.memoryNamed? v = some (n, mem) → m.EndsWell g s (k n mem)) :
    m.EndsWell g s (here.withMemory v k) := of_withMemory endsWell_unusable next

theorem endsWell_withHandle {k : Item → ObjId → Handle → Machine}
    (next : ∀ i id h, m.EndsWell g s (k i id h)) : m.EndsWell g s (here.withHandle v k) :=
  of_withHandle endsWell_unusable next

theorem endsWell_withCell {k : ObjId → Option Item → Machine} (next : ∀ c i, m.EndsWell g s (k c i)) :
    m.EndsWell g s (here.withCell v k) := of_withCell endsWell_unusable next

theorem endsWell_withPointer {k : Option NativeId → Machine} (next : ∀ n?, m.EndsWell g s (k n?)) :
    m.EndsWell g s (here.withPointer p k) := of_withPointer endsWell_stuck next

theorem endsWell_withObject {k : NativeId → Native → Machine} (next : ∀ n o, m.EndsWell g s (k n o)) :
    m.EndsWell g s (here.withObject p k) := of_withObject endsWell_stuck fun n o _ => next n o

theorem endsWell_withNativeMemory {k : NativeId → LinearMemory → Machine}
    (next : ∀ n mem, m.EndsWell g s (k n mem)) : m.EndsWell g s (here.withNativeMemory p k) :=
  of_withNativeMemory endsWell_stuck fun n mem _ => next n mem

theorem endsWell_withNativeFunc {k : NativeId → NativeFunc → Machine}
    (next : ∀ n f, m.EndsWell g s (k n f)) : m.EndsWell g s (here.withNativeFunc p k) :=
  of_withNativeFunc endsWell_stuck fun n f _ => next n f

end

/-! ## Steps that end at once -/

theorem endsWell_assignNew (v : VarName) (item? : Option Item) {a : Answer} (regular : ∀ e, a ≠ .error e) :
    m.EndsWell g s (here.assignNew v item? a) := by
  unfold assignNew
  split
  · exact endsWell_finish regular
  · exact endsWell_unusable v.base

theorem endsWell_newStore (name : VarName) (engine : Option VarName) :
    m.EndsWell g s (here.newStore name engine) := by
  unfold newStore
  dsimp only
  split
  · exact endsWell_finish nofun
  · split
    · exact endsWell_finish nofun
    · exact endsWell_unusable _

theorem endsWell_newMemory (name v : VarName) (type : MemoryType) :
    m.EndsWell g (.plain (.memory name v type)) (m.newMemory g name v type) := by
  unfold newMemory withStore
  split
  · next store held =>
      dsimp only
      split
      · exact endsWell_finish nofun
      · next e w made =>
          -- A memory is refused for its type only.
          have rejected : e = .invalidMemoryType type := by
            unfold World.createMemory at made
            dsimp only at made
            split at made
            · split at made
              · cases made
                rfl
              · cases made
            · cases made
              rfl
          subst rejected
          exact endsWell_refuse (.memory name held (congrArg Prod.fst made))
  · exact endsWell_unusable _

theorem endsWell_writeMemory (n : NativeId) {mem : LinearMemory} {offset : Nat} {data : Runs}
    (refuses : mem.write? offset data = none → m.RefusedWith s (.outOfBounds offset data.size mem.dataSize)) :
    m.EndsWell g s (here.writeMemory g n mem offset data) := by
  unfold writeMemory World.write
  cases written : mem.write? offset data with
  | some mem' => exact endsWell_finish nofun
  | none => exact endsWell_refuse (refuses written)

theorem endsWell_pokeMemory (v : VarName) (address value : Operand) :
    m.EndsWell g (.plain (.poke v address value)) (m.pokeMemory g v address value) := by
  refine endsWell_withMemory fun n mem named => ?_
  unfold withOperand
  split
  · next x address? =>
      split
      · next y value? =>
          dsimp only
          split
          · next offset bytes place content =>
              exact endsWell_writeMemory n fun outside => .poke named address? place value? content outside
          · exact endsWell_unusable _
      · split <;> exact endsWell_unusable _
  · split <;> exact endsWell_unusable _

theorem endsWell_newFunc (name v : VarName) (code : HostCode) (captures : List VarName) :
    m.EndsWell g s (here.newFunc name v code captures) := by
  refine endsWell_withStore fun st => ?_
  split
  · exact endsWell_unusable _
  · split
    · exact endsWell_finish nofun
    · exact endsWell_unusable _

theorem endsWell_newTyped (name v : VarName) (sig : TypedSignature) :
    m.EndsWell g (.plain (.typed name v sig)) (m.newTyped g name v sig) := by
  unfold newTyped
  split
  · next h type held =>
      split
      · exact endsWell_finish nofun
      · next other => exact endsWell_refuse (.typed name held other)
  · exact endsWell_unusable _

theorem endsWell_reference (name : VarName) (label : String) (p : PayloadLiteral) :
    m.EndsWell g s (here.reference name label p) := by
  have wrapped (v : VarName) : m.EndsWell g s (here.reference name label (.func v)) := by
    unfold reference
    dsimp only
    split
    · exact endsWell_finish nofun
    · exact endsWell_unusable _
  cases p with
  | text | int | unit => exact endsWell_finish nofun
  | func v | memory v | store v => exact wrapped v

theorem endsWell_content (x : Scalar ObjId) (type : PayloadType) (name : Option VarName) :
    m.EndsWell g s (here.content x type name) := by
  unfold content
  dsimp only
  split
  case h_7 =>
    split
    · split
      · exact endsWell_finish nofun
      · exact endsWell_finish nofun
    · exact endsWell_finish nofun
  all_goals exact endsWell_finish nofun

theorem endsWell_arithmetic (name : VarName) (f : Int → Int → Int) (a b : Operand) :
    m.EndsWell g s (here.arithmetic name f a b) := by
  refine endsWell_withOperand fun x => endsWell_withOperand fun y => ?_
  split
  · exact endsWell_finish nofun
  · exact endsWell_unusable _

theorem endsWell_callerDepth (name : Option VarName) : m.EndsWell g s (here.callerDepth name) := by
  unfold callerDepth
  split
  · exact endsWell_unusable _
  · split
    · exact endsWell_finish nofun
    · exact endsWell_finish nofun

theorem endsWell_showFuncType (v : VarName) : m.EndsWell g s (here.showFuncType v) := by
  unfold showFuncType
  split
  · split
    · exact endsWell_finish nofun
    · exact endsWell_unusable _
  · exact endsWell_unusable _

/-- An action ends only as it may. -/
theorem endsWell_perform (m : Machine) (g : Guard) (a : Action) : m.EndsWell g (.plain a) (m.perform g a) := by
  cases a with
  | engine => exact endsWell_finish nofun
  | store name engine => exact endsWell_newStore name engine
  | flush | pending | engineOf => exact endsWell_withStore fun _ => endsWell_finish nofun
  | sameStore => exact endsWell_withStore fun _ => endsWell_withStore fun _ => endsWell_finish nofun
  | storeOf | interrupt | rawPointer | asExtern =>
      exact endsWell_withHandle fun _ _ _ => endsWell_finish nofun
  | interruptHandle name => exact endsWell_withStore fun _ => endsWell_assignNew name _ nofun
  | memory name v type => exact endsWell_newMemory name v type
  | memoryType | size | dataSize | data | grow =>
      exact endsWell_withMemory fun _ _ _ => endsWell_finish nofun
  | read v offset len =>
      refine endsWell_withMemory fun n mem named => ?_
      unfold World.read
      cases taken : mem.read? offset len with
      | some data => exact endsWell_finish nofun
      | none => exact endsWell_refuse (.read named taken)
  | write => exact endsWell_withMemory fun n mem named => endsWell_writeMemory n (.write named)
  | poke v address value => exact endsWell_pokeMemory v address value
  | sameData =>
      exact endsWell_withMemory fun _ _ _ => endsWell_withMemory fun _ _ _ => endsWell_finish nofun
  | externKind =>
      refine endsWell_withHandle fun _ _ h => ?_
      split
      · exact endsWell_finish nofun
      · exact endsWell_unusable _
  | intoFunc | intoMemory =>
      refine endsWell_withHandle fun _ _ h => ?_
      split
      · exact endsWell_finish nofun
      · exact endsWell_finish nofun
  | clone | debug | typedFunc | callerStore | callerDebug =>
      unfold perform
      dsimp only
      split
      · exact endsWell_finish nofun
      · exact endsWell_finish nofun
  | drop | cell => exact endsWell_finish nofun
  | put =>
      refine endsWell_withCell fun _ _ => ?_
      split
      · exact endsWell_finish nofun
      · exact endsWell_unusable _
  | get =>
      refine endsWell_withCell fun _ _ => ?_
      split
      · exact endsWell_finish nofun
      · exact endsWell_finish nofun
  | take => exact endsWell_withCell fun _ _ => endsWell_finish nofun
  | funcType v => exact endsWell_showFuncType v
  | typed name v sig => exact endsWell_newTyped name v sig
  | reference name label payload => exact endsWell_reference name label payload
  | set | accessors => exact endsWell_withOperand fun _ => endsWell_finish nofun
  | strong =>
      refine endsWell_withOperand fun _ => ?_
      split
      · exact endsWell_finish nofun
      · exact endsWell_finish nofun
  | sameReference | equalValues =>
      exact endsWell_withOperand fun _ => endsWell_withOperand fun _ => endsWell_finish nofun
  | content o type name => exact endsWell_withOperand fun x => endsWell_content x type name
  | expectKind =>
      refine endsWell_withOperand fun _ => ?_
      split
      · exact endsWell_finish nofun
      · exact endsWell_panicked _
  | zeroOf | describeFuncType | equalFuncTypes | describeMemoryType => exact endsWell_finish nofun
  | describeTrap | configure | defaults | typedKinds => exact endsWell_finish nofun
  | decodeValues =>
      refine endsWell_withOperands fun _ => ?_
      dsimp only
      split
      · exact endsWell_finish nofun
      · exact endsWell_panicked _
  | encodeValues => exact endsWell_withOperands fun _ => endsWell_finish nofun
  | depth name => exact endsWell_callerDepth name
  | giveBack => exact endsWell_withOperands fun ss => endsWell_complete (.givesBack ss)
  | trap => exact endsWell_complete (.asks rfl)
  | panic f => exact endsWell_panicked f
  | add name a b => exact endsWell_arithmetic name _ a b
  | subtract name a b => exact endsWell_arithmetic name _ a b

/-! ## Steps of the native interface -/

theorem endsWell_givePointer (name : Option VarName) (n : NativeId) :
    m.EndsWell g s (here.givePointer name n) := by
  cases name <;> exact endsWell_finish nofun

theorem endsWell_giveSame (name p : Option VarName) : m.EndsWell g s (here.giveSame name p) := by
  refine endsWell_withPointer fun n? => ?_
  cases n? with
  | none => exact endsWell_finish nofun
  | some n => exact endsWell_givePointer name n

theorem endsWell_deleteUnguarded (n? : Option NativeId) : m.EndsWell g s (here.deleteUnguarded n?) := by
  cases n? <;> exact endsWell_finish nofun

theorem endsWell_deleteMemoryStep (n? : Option NativeId) : m.EndsWell g s (here.deleteMemoryStep n?) := by
  cases n? <;> exact endsWell_finish nofun

theorem endsWell_deleteFunction (n? : Option NativeId) : m.EndsWell g s (here.deleteFunction n?) := by
  unfold deleteFunction
  split
  · exact endsWell_finish nofun
  · dsimp only
    split
    · split
      · exact nofun
      · exact endsWell_finish nofun
    · exact endsWell_finish nofun

theorem endsWell_nativeMemoryNew (name : Option VarName) (st t : Option NativeId) :
    m.EndsWell g s (here.nativeMemoryNew name st t) := by
  unfold nativeMemoryNew
  dsimp only
  split
  · split
    · exact endsWell_givePointer name _
    · exact endsWell_finish nofun
  · exact endsWell_finish nofun

/-- A step of the native interface ends only as it may. -/
theorem endsWell_native (name : Option VarName) (st : NativeStep) : m.EndsWell g s (here.native name st) := by
  cases st with
  | engineNew config =>
      cases config with
      | none => exact endsWell_finish nofun
      | some config => exact endsWell_givePointer name _
  | engineDelete | funcTypeDelete | memoryTypeDelete | storeDelete | interruptDelete | trapDelete =>
      exact endsWell_withPointer fun n? => endsWell_deleteUnguarded n?
  | storeNew =>
      refine endsWell_withPointer fun n? => ?_
      split
      · exact endsWell_givePointer name _
      · exact endsWell_finish nofun
  | funcTypeNew params results =>
      unfold native
      dsimp only
      split
      · exact endsWell_givePointer name _
      · exact endsWell_finish nofun
  | funcTypeParams | funcTypeResults | memoryTypeLimits | trapCode =>
      refine endsWell_withObject fun n o => ?_
      cases o <;> exact endsWell_finish nofun
  | memoryTypeNew limits =>
      cases limits with
      | none => exact endsWell_finish nofun
      | some l =>
          unfold native
          dsimp only
          split
          · exact endsWell_finish nofun
          · exact endsWell_givePointer name _
  | memoryNew =>
      exact endsWell_withPointer fun st => endsWell_withPointer fun t => endsWell_nativeMemoryNew name st t
  | memoryType => exact endsWell_withNativeMemory fun n mem => endsWell_givePointer name _
  | memoryData | memoryDataSize | memorySize | memoryGrow | memoryPoke =>
      exact endsWell_withNativeMemory fun n mem => endsWell_finish nofun
  | memoryAsExtern p | funcAsExtern p => exact endsWell_giveSame name p
  | memoryDelete => exact endsWell_withPointer fun n? => endsWell_deleteMemoryStep n?
  | externKind =>
      refine endsWell_withObject fun n o => ?_
      split
      · exact endsWell_finish nofun
      · exact endsWell_unusable _
  | externAsFunc | externAsMemory =>
      refine endsWell_withObject fun n o => ?_
      split
      · exact endsWell_givePointer name n
      · exact endsWell_finish nofun
  | externDelete =>
      refine endsWell_withPointer fun n? => ?_
      split
      · exact endsWell_deleteFunction n?
      · exact endsWell_deleteMemoryStep n?
      · exact endsWell_finish nofun
  | funcType => exact endsWell_withNativeFunc fun n f => endsWell_givePointer name _
  | funcParamArity | funcResultArity => exact endsWell_withNativeFunc fun n f => endsWell_finish nofun
  | funcDelete => exact endsWell_withPointer fun n? => endsWell_deleteFunction n?
  | interruptNew =>
      refine endsWell_withPointer fun n? => ?_
      cases n? with
      | none => exact endsWell_finish nofun
      | some n => exact endsWell_givePointer name _
  | interruptRequest => exact endsWell_withObject fun n o => endsWell_finish nofun
  | trapNew => exact endsWell_withPointer fun n? => endsWell_givePointer name _
  | trapMessage =>
      refine endsWell_withPointer fun n? => ?_
      split
      · exact endsWell_finish nofun
      · exact endsWell_finish nofun
  | slotText | blankSlot | constants => exact endsWell_finish nofun

theorem endsWell_nativeFunc (name store type : Option VarName) (code : NativeCode) :
    m.EndsWell g s (here.nativeFunc name store type code) := by
  refine endsWell_withPointer fun st => endsWell_withPointer fun t => ?_
  dsimp only
  split
  · exact endsWell_givePointer name _
  · exact endsWell_finish nofun

/-! ## All steps -/

theorem endsWell_startCall (native : NativeId) (store : ObjId) (c : CallRequest) :
    m.EndsWell g s (here.startCall native store c) := by
  unfold startCall
  dsimp only
  split
  · exact endsWell_panicked _
  · exact nofun

/-- A step that begins goes on, or ends only as it may. -/
theorem endsWell_begin (m : Machine) (g : Guard) (s : Step) : m.EndsWell g s (m.begin g s) := by
  cases s with
  | plain a => exact endsWell_perform m g a
  | func name store shape label quiet captures body => exact endsWell_newFunc name store _ captures
  | call | typedCall =>
      refine endsWell_withHandle fun i id h => ?_
      split
      · exact endsWell_withOperands fun ss => endsWell_startCall _ _ _
      · exact endsWell_unusable _
  | branch =>
      refine endsWell_withOperand fun x => endsWell_withOperand fun y => ?_
      split
      · exact nofun
      · exact endsWell_unusable _
  | loop n body =>
      cases n with
      | zero => exact endsWell_finish nofun
      | succ n => exact nofun
  | thread => exact nofun
  | native name st => exact endsWell_native name st
  | nativeFunc name store type => exact endsWell_nativeFunc name store type _
  | nativeCall => exact endsWell_withNativeFunc fun n f => nofun

/-- A step that begins ends in a trap only when it asks for it, or when it is refused. -/
theorem begin_trapped {t : Trap} (trapped : (m.begin g s).control = .complete (.trapped t)) :
    (∃ text, s = .plain (.trap text) ∧ t = .ofMessage text) ∨
      ∃ e, m.RefusedWith s e ∧ t = .ofMessage e.message := by
  generalize same : Completion.trapped t = c at trapped
  cases endsWell_begin m g s c trapped with
  | asks asked =>
      cases same
      exact .inl ⟨_, asked, rfl⟩
  | refused refuses =>
      unfold Guard.refusal at same
      split at same
      · cases same
        exact .inr ⟨_, refuses, rfl⟩
      · cases same
  | _ => cases same

/-- A step that begins tells an error only when it is refused with it. -/
theorem begin_error {e : ApiError} (told : (m.begin g s).control = .complete (.done (.error e))) :
    m.RefusedWith s e := by
  generalize same : Completion.done (.error e) = c at told
  cases endsWell_begin m g s c told with
  | answers regular =>
      cases same
      exact absurd rfl (regular e)
  | refused refuses =>
      unfold Guard.refusal at same
      split at same
      · cases same
      · cases same
        exact refuses
  | _ => cases same

/-- A step that is refused with an error ends with the refusal. -/
theorem RefusedWith.begin {e : ApiError} (refuses : m.RefusedWith s e) (g : Guard) :
    (m.begin g s).control = .complete (g.refusal e) := by
  have written {n : NativeId} {mem : LinearMemory} {offset : Nat} {data : Runs}
      (outside : mem.write? offset data = none) : (m.writeMemory g n mem offset data).control =
        .complete (g.refusal (.outOfBounds offset data.size mem.dataSize)) := by
    unfold writeMemory World.write
    rw [outside]
    dsimp only
    rw [refuse_eq]
    rfl
  cases refuses with
  | typed name held other =>
      show (m.newTyped g name _ _).control = _
      unfold newTyped
      rw [held]
      dsimp only
      rw [if_neg other, refuse_eq]
      rfl
  | @memory name v store type held rejected =>
      show (m.newMemory g name v type).control = _
      unfold newMemory withStore
      rw [held]
      dsimp only
      generalize m.world.createMemory store type = made at rejected ⊢
      obtain ⟨result, w⟩ := made
      obtain rfl : result = .error (.invalidMemoryType type) := rejected
      dsimp only
      rw [refuse_eq]
      rfl
  | @read v offset len n mem named outside =>
      show (m.perform g (.read v offset len)).control = _
      unfold perform
      dsimp only
      rw [withMemory_eq, named]
      dsimp only [World.read]
      rw [outside]
      dsimp only
      rw [refuse_eq]
      rfl
  | @write v offset bytes times n mem named outside =>
      show (m.withMemory v fun n mem => m.writeMemory g n mem offset _).control = _
      rw [withMemory_eq, named]
      exact written outside
  | @poke v address value x y offset bytes n mem named address? place value? content outside =>
      show (m.pokeMemory g v address value).control = _
      unfold pokeMemory withOperand
      rw [withMemory_eq, named, address?, value?]
      dsimp only
      rw [place, content]
      exact written outside

end Machine

end HostEmbedding
