import HostEmbedding.Proofs.Native.Transitions
import HostEmbedding.Proofs.Ownership.FlushEffect
import HostEmbedding.Proofs.TypedCalls

/-!
# Steps that call

A step that calls a function, plainly or through a typed view, asks for a call of what its variables hold.
It flushes the store of the function and then checks the arguments: a call whose arguments do not fit has
done nothing but the flush.
-/

namespace HostEmbedding.Machine

variable {m : Machine} {c : CallRequest} {h : Handle}

/-- The running step calls through a handle; `c` is what it asks for. -/
inductive CallsWith (m : Machine) (c : CallRequest) (h : Handle) : Prop
  | func {g : Guard} {v : VarName} {args : List Operand} {names : List VarName} {id : ObjId} {type : FuncType}
      {ss : List (Scalar ObjId)} (begins : m.AtStep g (.call v args names))
      (held : m.lookup v = some (.func id type)) (handle : m.world.handle? id = some h)
      (values : m.operands? args = some ss) (asks : c = ⟨id, type, TypeList.encode ss, names, none⟩)
  | typed {g : Guard} {v : VarName} {args : List Operand} {names : List VarName} {id : ObjId}
      {type : FuncType} {sig : TypedSignature} {ss : List (Scalar ObjId)}
      (begins : m.AtStep g (.typedCall v args names)) (held : m.lookup v = some (.typedFunc id type sig))
      (handle : m.world.handle? id = some h) (values : m.operands? args = some ss)
      (asks : c = ⟨id, type, TypeList.encode ss, names, some sig⟩)

/-- A call that waits for the engine, told from the world in which its store has been flushed: its function
and its arguments are counted, and the arguments once more for the engine. -/
def waitingFrom (m : Machine) (c : CallRequest) (h : Handle) (w : World) : Machine :=
  { m with
    world := (((w.retain c.func).retainAll (Val.refs c.args)).retainAll
      (Slot.refs (c.args.map Slot.ofVal))).pushFrame
    stack := .hostCall ⟨c, c.args.map Slot.ofVal⟩ :: m.stack
    control := .enter h.native (c.args.map Slot.ofVal) ⟨c.type.results.length, false⟩ }

theorem typedCall_begins {v : VarName} {args : List Operand} {id : ObjId} {type : FuncType}
    {sig : TypedSignature} {ss : List (Scalar ObjId)} (held : m.lookup v = some (.typedFunc id type sig))
    (handle : m.world.handle? id = some h) (values : m.operands? args = some ss) (names : List VarName) :
    let c : CallRequest := ⟨id, type, TypeList.encode ss, names, some sig⟩
    m.typedCall v args names =
      match argumentFault? type.params (TypeList.encode ss) with
      | some f => m.panicking c h.store f
      | none => m.waiting c h := by
  unfold Machine.typedCall Machine.withHandle Machine.withOperands
  rw [held]
  dsimp only
  rw [handle]
  dsimp only
  rw [values]
  rfl

namespace CallsWith

theorem step_eq (calls : m.CallsWith c h) : m.step =
    match argumentFault? c.type.params c.args with
    | some f => m.panicking c h.store f
    | none => m.waiting c h := by
  cases calls with
  | func begins held handle values asks =>
      rw [begins.step_eq, asks]
      exact call_eq held handle values _
  | typed begins held handle values asks =>
      rw [begins.step_eq, asks]
      exact typedCall_begins held handle values _

theorem handle (calls : m.CallsWith c h) : m.world.handle? c.func = some h := by
  cases calls with
  | func _ _ handle _ asks => rw [asks]; exact handle
  | typed _ _ handle _ asks => rw [asks]; exact handle

theorem begins (calls : m.CallsWith c h) : ∃ g s, m.AtStep g s := by
  cases calls with
  | func begins => exact ⟨_, _, begins⟩
  | typed begins => exact ⟨_, _, begins⟩

/-- The arguments are alive, and they are references to host values. -/
theorem args (calls : m.CallsWith c h) (coherent : m.Coherent) :
    ∀ r ∈ Val.refs c.args, m.world.strong r ≠ 0 ∧ m.world.shapes.IsReferent r := by
  obtain ⟨g, s, begins⟩ := calls.begins
  have busy := coherent.busy (by rw [begins.control]; rfl)
  have values {os : List Operand} {ss : List (Scalar ObjId)} (values : m.operands? os = some ss) :
      ∀ r ∈ Val.refs (TypeList.encode ss), m.world.strong r ≠ 0 ∧ m.world.shapes.IsReferent r := by
    have usable := busy.operands values
    exact fun r mem => ⟨busy.args_alive usable r mem,
      (busy.refs_usable usable r (by rwa [Scalar.refs_encode] at mem)).2⟩
  cases calls with
  | func _ _ _ found asks => rw [asks]; exact values found
  | typed _ _ _ found asks => rw [asks]; exact values found

end CallsWith

/-! ## Nothing that a step holds is an environment -/

theorem not_isEnv_of_object {Γ : Shapes} {id : ObjId} {o : Object} (known : Γ.object? id = some o)
    (other : o.isEnv = false) (type : FuncType) (s : ObjId) : ¬ Γ.IsEnv id type s := by
  intro isEnv
  cases known.symm.trans isEnv
  cases other

theorem not_isEnv_of_item {Γ : Shapes} {item : Item} (fits : item.Fits Γ) {id : ObjId} (mem : id ∈ item.refs)
    (type : FuncType) (s : ObjId) : ¬ Γ.IsEnv id type s := by
  cases item with
  | engine config => cases mem
  | raw n => cases mem
  | store x =>
      obtain rfl := List.mem_singleton.mp mem
      obtain ⟨n, config, known⟩ := fits
      exact not_isEnv_of_object known rfl type s
  | memory x =>
      obtain rfl := List.mem_singleton.mp mem
      obtain ⟨h, lock, known, -⟩ := fits
      exact not_isEnv_of_object known rfl type s
  | func x t =>
      obtain rfl := List.mem_singleton.mp mem
      obtain ⟨h, env, f, known, -⟩ := fits
      exact not_isEnv_of_object known rfl type s
  | typedFunc x t sig =>
      obtain rfl := List.mem_singleton.mp mem
      obtain ⟨-, h, env, f, known, -⟩ := fits
      exact not_isEnv_of_object known rfl type s
  | view x =>
      obtain rfl := List.mem_singleton.mp mem
      obtain ⟨h, known, -⟩ := fits
      exact not_isEnv_of_object known rfl type s
  | interrupt x =>
      obtain rfl := List.mem_singleton.mp mem
      obtain ⟨h, known, -⟩ := fits
      exact not_isEnv_of_object known rfl type s
  | value v =>
      obtain ⟨label, payload, known⟩ := fits id (Option.mem_toList.mp mem)
      exact not_isEnv_of_object known rfl type s
  | cell c =>
      obtain rfl := List.mem_singleton.mp mem
      exact not_isEnv_of_object fits rfl type s

/-! ## A call flushes first -/

/-- The store of a handle. -/
theorem Coherent.store_of_handle (coherent : m.Coherent) {id : ObjId} (handle : m.world.handle? id = some h) :
    ∃ n, m.world.shapes.IsStore h.store n := by
  obtain ⟨k, entry⟩ := World.isHandle_iff.mp (World.handle?_eq_some.mp handle).1
  have fits : h.Fits m.world.shapes := coherent.world.objects entry
  obtain ⟨n, isStore, -⟩ := fits.state
  exact ⟨n, isStore⟩

namespace CallsWith

variable (calls : m.CallsWith c h) (coherent : m.Coherent)
include calls coherent

/-- A call flushes the store as it finds it, before anything is counted for the call. -/
theorem called_eq : m.world.called c h.store =
    ((m.world.flush h.store).retain c.func).retainAll (Val.refs c.args) := by
  obtain ⟨known, alive⟩ := World.handle?_eq_some.mp calls.handle
  obtain ⟨n, isStore⟩ := coherent.store_of_handle calls.handle
  have args := calls.args coherent
  have shapes : (m.world.retain c.func).shapes = m.world.shapes := World.shapes_retain m.world c.func
  have counted := coherent.world.retain alive
  have first := coherent.world.flush_retain isStore alive (not_isEnv_of_object known rfl)
  have later := counted.flush_retainAll (s := h.store) (n := n) (Val.refs c.args) (by rw [shapes]; exact isStore)
    (fun r mem => World.strong_retain_ne_zero (args r mem).1) (by
      rw [shapes]
      intro r mem
      obtain ⟨label, payload, known⟩ := (args r mem).2
      exact not_isEnv_of_object known rfl)
  unfold World.called
  rw [later, first]

theorem waiting_eq : m.waiting c h = m.waitingFrom c h (m.world.flush h.store) := by
  unfold waiting waitingFrom
  rw [calls.called_eq coherent]

/-- A call that panics over its arguments leaves nothing behind but the flush. -/
theorem panicking_eq (f : Fault) :
    m.panicking c h.store f = (m.withWorld (m.world.flush h.store)).complete (.panicked f) := by
  obtain ⟨known, alive⟩ := World.handle?_eq_some.mp calls.handle
  obtain ⟨n, isStore⟩ := coherent.store_of_handle calls.handle
  have flushed := coherent.world.flushed isStore
  let w := m.world.flush h.store
  have func : w.strong c.func ≠ 0 := by rwa [flushed.strong (not_isEnv_of_object known rfl)]
  have args : ∀ r ∈ Val.refs c.args, (w.retain c.func).strong r ≠ 0 := fun r mem => by
    obtain ⟨alive, label, payload, known⟩ := calls.args coherent r mem
    refine World.strong_retain_ne_zero ?_
    rwa [flushed.strong (not_isEnv_of_object known rfl)]
  have back : (m.world.called c h.store).releaseAll c.refs = w := by
    have parts (u : World) : u.releaseAll c.refs = (u.releaseAll (Val.refs c.args)).release c.func :=
      List.foldl_append
    rw [parts, calls.called_eq coherent, World.releaseAll_retainAll args, World.release_retain func]
  unfold panicking
  rw [back]

end CallsWith

end HostEmbedding.Machine
