import HostEmbedding.Proofs.Public

/-!
# Reading variables

A step that reads a variable goes on with what the variable names, or ends at once because it names
nothing of the kind.
-/

namespace HostEmbedding

def Item.handle? : Item → Option ObjId
  | .memory h | .func h _ | .view h | .interrupt h | .typedFunc h _ _ => some h
  | _ => none

inductive Answer.Stuck : Answer → Prop
  | unusable (name : String) : Stuck (.unusable name)
  | freed (name : String) : Stuck (.freed name)

namespace Machine

variable {m : Machine}

/-! ## What variables name -/

def handleNamed? (m : Machine) (v : VarName) : Option (ObjId × Handle) :=
  ((m.lookup v).bind Item.handle?).bind fun id => (m.world.handle? id).map fun h => (id, h)

def memoryNamed? (m : Machine) (v : VarName) : Option (NativeId × LinearMemory) :=
  match m.lookup v with
  | some (.memory h) => m.world.memoryOf? h
  | _ => none

def objectNamed? (m : Machine) (p : Option VarName) : Option (NativeId × Native) :=
  match p.bind m.lookup with
  | some (.raw n) => (m.world.native? n).map fun o => (n, o)
  | _ => none

theorem withHandle_eq (m : Machine) (v : VarName) (k : ObjId → Handle → Machine) :
    m.withHandle v (fun _ => k) =
      match m.handleNamed? v with
      | some (id, h) => k id h
      | none => m.unusable v := by
  unfold Machine.withHandle handleNamed?
  cases m.lookup v with
  | none => rfl
  | some item => cases item <;> simp [Item.handle?] <;> cases m.world.handle? _ <;> rfl

theorem withMemory_eq (m : Machine) (v : VarName) (k : NativeId → LinearMemory → Machine) :
    m.withMemory v k =
      match m.memoryNamed? v with
      | some (n, mem) => k n mem
      | none => m.unusable v := by
  unfold Machine.withMemory memoryNamed?
  cases m.lookup v with
  | none => rfl
  | some item => cases item <;> rfl

/-- A step on a pointer goes on with the object it names, or is stuck. -/
theorem withObject_stuck (m : Machine) (p : Option VarName) :
    ∃ a : Answer, a.Stuck ∧ ∀ k : NativeId → Native → Machine, m.withObject p k =
      match m.objectNamed? p with
      | some (n, o) => k n o
      | none => m.finish a := by
  unfold Machine.withObject Machine.withPointer objectNamed?
  cases p with
  | none => exact ⟨_, .unusable "null", fun k => rfl⟩
  | some v =>
      simp only [Option.bind_some]
      cases m.lookup v with
      | none => exact ⟨_, .unusable v.base, fun k => rfl⟩
      | some item =>
          cases item with
          | raw n =>
              simp only
              cases m.world.native? n with
              | none => exact ⟨_, .freed v.text, fun k => rfl⟩
              | some o => exact ⟨_, .unusable v.base, fun k => rfl⟩
          | _ => exact ⟨_, .unusable v.base, fun k => rfl⟩

/-- A step on a pointer goes on with the object it names, or ends without an effect. -/
theorem withObject_eq (m : Machine) (p : Option VarName) :
    ∃ a, ∀ k : NativeId → Native → Machine, m.withObject p k =
      match m.objectNamed? p with
      | some (n, o) => k n o
      | none => m.finish a := by
  obtain ⟨a, -, eq⟩ := m.withObject_stuck p
  exact ⟨a, eq⟩

/-- A step on a pointer goes on with the object that it names. -/
theorem withObject_of_named {p : Option VarName} {n : NativeId} {o : Native}
    (named : m.objectNamed? p = some (n, o)) (k : NativeId → Native → Machine) :
    m.withObject p k = k n o := by
  obtain ⟨a, eq⟩ := m.withObject_eq p
  rw [eq, named]

/-- What a variable reaches is what stands at its address. -/
theorem nativeMemory?_of_named {v : VarName} {n : NativeId} {mem : LinearMemory}
    (named : m.memoryNamed? v = some (n, mem)) : m.world.nativeMemory? n = some mem := by
  unfold memoryNamed? World.memoryOf? at named
  split at named
  · split at named
    · obtain ⟨_, found, same⟩ := Option.map_eq_some_iff.mp named
      cases same
      exact found
    · cases named
  · cases named

/-- What a pointer names is what stands at its address. -/
theorem native?_of_named {p : Option VarName} {n : NativeId} {o : Native}
    (named : m.objectNamed? p = some (n, o)) : m.world.native? n = some o := by
  unfold objectNamed? at named
  split at named
  · obtain ⟨_, found, same⟩ := Option.map_eq_some_iff.mp named
    cases same
    exact found
  · cases named

/-! ## Going on -/

section

variable {P : Machine → Prop} {v : VarName}

theorem of_withOperand {o : Operand} {k : Scalar ObjId → Machine} (stuck : ∀ x, P (m.finish (.unusable x)))
    (next : ∀ s, P (k s)) : P (m.withOperand o k) := by
  unfold Machine.withOperand
  split
  · exact next _
  · split
    · exact stuck _
    · exact stuck _

theorem of_withOperands {os : List Operand} {k : List (Scalar ObjId) → Machine}
    (stuck : ∀ x, P (m.finish (.unusable x))) (next : ∀ ss, P (k ss)) : P (m.withOperands os k) := by
  unfold Machine.withOperands
  split
  · exact next _
  · exact stuck _

theorem of_withStore {k : ObjId → Machine} (stuck : ∀ x, P (m.finish (.unusable x)))
    (next : ∀ s, m.lookup v = some (.store s) → P (k s)) : P (m.withStore v k) := by
  unfold Machine.withStore
  split
  · next s held => exact next s held
  · exact stuck _

theorem of_withMemory {k : NativeId → LinearMemory → Machine} (stuck : ∀ x, P (m.finish (.unusable x)))
    (next : ∀ n mem, m.memoryNamed? v = some (n, mem) → P (k n mem)) : P (m.withMemory v k) := by
  rw [withMemory_eq]
  split
  · next n mem named => exact next n mem named
  · exact stuck _

theorem of_withHandle {k : Item → ObjId → Handle → Machine} (stuck : ∀ x, P (m.finish (.unusable x)))
    (next : ∀ i id h, P (k i id h)) : P (m.withHandle v k) := by
  unfold Machine.withHandle
  split
  · dsimp only
    split
    · split
      · exact next _ _ _
      · exact stuck _
    · exact stuck _
  · exact stuck _

theorem of_withCell {k : ObjId → Option Item → Machine} (stuck : ∀ x, P (m.finish (.unusable x)))
    (next : ∀ c i, P (k c i)) : P (m.withCell v k) := by
  unfold Machine.withCell
  split
  · split
    · exact next _ _
    · exact stuck _
  · exact stuck _

theorem of_withPointer {p : Option VarName} {k : Option NativeId → Machine}
    (stuck : ∀ a : Answer, a.Stuck → P (m.finish a)) (next : ∀ n?, P (k n?)) : P (m.withPointer p k) := by
  unfold Machine.withPointer
  split
  · exact next _
  · split
    · split
      · exact next _
      · exact stuck _ (.freed _)
    · exact stuck _ (.unusable _)

theorem of_withPointer_named {p : Option VarName} {k : Option NativeId → Machine}
    (stuck : ∀ a : Answer, a.Stuck → P (m.finish a)) (null : P (k none))
    (next : ∀ n o, m.objectNamed? p = some (n, o) → P (k (some n))) : P (m.withPointer p k) := by
  unfold Machine.withPointer
  split
  · exact null
  · next v =>
      split
      · next n raw =>
          split
          · next live =>
              obtain ⟨o, native⟩ := Option.isSome_iff_exists.mp live
              refine next n o ?_
              unfold objectNamed?
              rw [Option.bind_some, raw]
              exact congrArg (Option.map fun o => (n, o)) native
          · exact stuck _ (.freed _)
      · exact stuck _ (.unusable _)

theorem of_withObject {p : Option VarName} {k : NativeId → Native → Machine}
    (stuck : ∀ a : Answer, a.Stuck → P (m.finish a)) (next : ∀ n o, m.objectNamed? p = some (n, o) → P (k n o)) :
    P (m.withObject p k) := by
  obtain ⟨a, names, eq⟩ := m.withObject_stuck p
  rw [eq]
  split
  · next n o named => exact next n o named
  · exact stuck a names

theorem of_withNativeMemory {p : Option VarName} {k : NativeId → LinearMemory → Machine}
    (stuck : ∀ a : Answer, a.Stuck → P (m.finish a))
    (next : ∀ n mem, m.objectNamed? p = some (n, .memory mem) → P (k n mem)) :
    P (m.withNativeMemory p k) := by
  refine of_withObject stuck fun n o named => ?_
  cases o with
  | memory mem => exact next n mem named
  | _ => exact stuck _ (.unusable "memory")

theorem of_withNativeFunc {p : Option VarName} {k : NativeId → NativeFunc → Machine}
    (stuck : ∀ a : Answer, a.Stuck → P (m.finish a))
    (next : ∀ n f, m.objectNamed? p = some (n, .func f) → P (k n f)) : P (m.withNativeFunc p k) := by
  refine of_withObject stuck fun n o named => ?_
  cases o with
  | func f => exact next n f named
  | _ => exact stuck _ (.unusable "function")

end

end Machine

end HostEmbedding
