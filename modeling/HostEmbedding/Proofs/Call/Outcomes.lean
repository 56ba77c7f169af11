import HostEmbedding.Proofs.Call.Callable

/-!
# How a body ends a call

The end of a body decides the end of its call: values of the declared kinds are returned, a trap is
returned if the code may fail, and everything else is a panic. The engine carries values and traps as
they are; a panic is parked in the slot of the call and a sentinel goes in its place.
-/

namespace HostEmbedding

/-! ## Outcomes -/

namespace CallOutcome

def refs : CallOutcome → List ObjId
  | .returned vals => Val.refs vals
  | _ => []

def slot : CallOutcome → Option Fault
  | .panicked f => some f
  | _ => none

def engine : CallOutcome → EngineResult
  | .returned vals => .ok (vals.map Slot.ofVal)
  | .trapped t => .error t.toNative
  | .panicked _ => .error .sentinel

/-- Values end a call well when they are of the declared kinds. -/
def ofValues (declared : List Kind) (vals : List (Val ObjId)) : CallOutcome :=
  match Activation.resultFault? declared declared.length vals with
  | some f => .panicked f
  | none => .returned vals

theorem ofValues_cases (declared : List Kind) (vals : List (Val ObjId)) :
    (∃ f, Activation.resultFault? declared declared.length vals = some f ∧
      ofValues declared vals = .panicked f) ∨
      vals.map Val.kind = declared ∧ ofValues declared vals = .returned vals := by
  unfold ofValues
  split
  · next f fault => exact .inl ⟨f, fault, rfl⟩
  · next checked => exact .inr ⟨Activation.resultFault?_eq_none.mp checked, rfl⟩

end CallOutcome

/-- How a call ends whose body ended in a given way. -/
def Activation.outcome (a : Activation) : Completion → CallOutcome
  | .done _ => .ofValues a.type.results []
  | .gaveBack ss => .ofValues a.type.results (TypeList.encode ss)
  | .trapped t =>
      if a.code.shape.fallible then .trapped (.ofMessage t.message) else .panicked (.text t.message)
  | .panicked f => .panicked f

theorem Activation.kinds_of_outcome {a : Activation} {c : Completion} {vals : List (Val ObjId)}
    (ends : a.outcome c = .returned vals) : vals.map Val.kind = a.type.results := by
  have values {xs : List (Val ObjId)} (ends : CallOutcome.ofValues a.type.results xs = .returned vals) :
      vals.map Val.kind = a.type.results := by
    rcases CallOutcome.ofValues_cases a.type.results xs with ⟨f, -, fails⟩ | ⟨kinds, returns⟩
    · rw [fails] at ends
      cases ends
    · rw [returns] at ends
      cases ends
      exact kinds
  cases c with
  | done answer => exact values ends
  | gaveBack ss => exact values ends
  | trapped t =>
      unfold outcome at ends
      dsimp only at ends
      split at ends <;> cases ends
  | panicked f => cases ends

/-- A call ends with a trap when its body did: the message goes on, never a code. -/
theorem Activation.trapped_of_outcome {a : Activation} {c : Completion} {t : Trap}
    (ends : a.outcome c = .trapped t) : ∃ s, c = .trapped s ∧ t = .ofMessage s.message := by
  have values {xs : List (Val ObjId)} (ends : CallOutcome.ofValues a.type.results xs = .trapped t) :
      False := by
    rcases CallOutcome.ofValues_cases a.type.results xs with ⟨f, -, fails⟩ | ⟨-, returns⟩
    · rw [fails] at ends
      cases ends
    · rw [returns] at ends
      cases ends
  cases c with
  | done answer => exact (values ends).elim
  | gaveBack ss => exact (values ends).elim
  | trapped s =>
      unfold outcome at ends
      dsimp only at ends
      split at ends <;> cases ends
      exact ⟨s, rfl, rfl⟩
  | panicked f => cases ends

/-- An outcome carries no reference that its completion did not. -/
theorem Activation.refs_outcome {a : Activation} {c : Completion} {r : ObjId}
    (mem : r ∈ (a.outcome c).refs) : r ∈ c.refs := by
  have values {xs : List (Val ObjId)} (mem : r ∈ (CallOutcome.ofValues a.type.results xs).refs) :
      r ∈ Val.refs xs := by
    rcases CallOutcome.ofValues_cases a.type.results xs with ⟨f, -, fails⟩ | ⟨-, returns⟩
    · rw [fails] at mem
      cases mem
    · rw [returns] at mem
      exact mem
  cases c with
  | done answer => exact values mem
  | gaveBack ss =>
      have held := values mem
      rwa [Scalar.refs_encode] at held
  | trapped t =>
      unfold outcome at mem
      dsimp only at mem
      split at mem <;> cases mem
  | panicked f => cases mem

namespace World

variable {w v : World} {held : List ObjId} {slots : List (Option Fault)} {a : Activation}

structure Delivered (w : World) (o : CallOutcome) (held : List ObjId) (slots : List (Option Fault))
    (r : EngineResult) (v : World) : Prop where
  result : r = o.engine
  sound : v.Sound (o.refs ++ held)
  frames : v.thread.frames = o.slot :: slots
  shapes : w.shapes.Grows v.shapes
  depth : v.depthOf = w.depthOf
  ledger : ∀ d, v.fallen.count d + w.drops.count d = w.fallen.count d + v.drops.count d

/-- A delivery after an operation. -/
theorem Delivered.after {u : World} {o : CallOutcome} {r : EngineResult}
    (delivered : Delivered u o held slots r v) (evolves : Evolves w u) :
    Delivered w o held slots r v where
  result := delivered.result
  sound := delivered.sound
  frames := delivered.frames
  shapes := evolves.shapes.trans delivered.shapes
  depth := delivered.depth.trans evolves.depth
  ledger d := by
    have first := evolves.ledger d
    have second := delivered.ledger d
    omega

/-- Values and traps go through the engine as they are, once the parameters are dropped. -/
theorem Sound.passes {o : CallOutcome} (sound : w.Sound (Val.refs a.params ++ (o.refs ++ held)))
    (opened : w.thread.frames = none :: slots) (plain : o.slot = none) :
    Delivered w o held slots o.engine (w.releaseAll (Val.refs a.params)) := by
  have evolves := (drains_releaseAll (Val.refs a.params) w).evolves
  refine ⟨rfl, sound.releaseAll _, ?_, evolves.shapes, evolves.depth, evolves.ledger⟩
  rw [evolves.frames, plain]
  exact opened

/-- A panic is parked in the open slot. -/
theorem Sound.failHost (sound : w.Sound (Val.refs a.params ++ held))
    (opened : w.thread.frames = none :: slots) (f : Fault) :
    Delivered w (.panicked f) held slots (w.failHost a f).1 (w.failHost a f).2 := by
  have evolves := (drains_releaseAll (Val.refs a.params) w).evolves
  have released : (w.releaseAll (Val.refs a.params)).Sound held := sound.releaseAll _
  have frames : (w.releaseAll (Val.refs a.params)).thread.frames = none :: slots :=
    evolves.frames.trans opened
  have parked : (w.releaseAll (Val.refs a.params)).park f = (.sentinel,
      (w.releaseAll (Val.refs a.params)).modifyThread fun t => { t with frames := some f :: slots }) := by
    unfold World.park
    rw [frames]
  have kept : ((w.releaseAll (Val.refs a.params)).modifyThread fun t =>
      { t with frames := some f :: slots }).Sound held := released.modifyThread rfl rfl
  unfold World.failHost
  dsimp only
  rw [parked]
  exact ⟨rfl, kept, rfl, evolves.shapes, evolves.depth, evolves.ledger⟩

/-- The outcome of a body is delivered: the engine gets values, a trap or the sentinel. -/
theorem Sound.deliverHost {c : Completion}
    (sound : w.Sound (c.refs ++ (Val.refs a.params ++ held)))
    (opened : w.thread.frames = none :: slots) (count : a.slots = a.type.results.length) :
    Delivered w (a.outcome c) held slots (w.deliverHost a c).1 (w.deliverHost a c).2 := by
  cases c with
  | done answer =>
      unfold World.deliverHost Activation.outcome
      dsimp only
      rw [count]
      rcases CallOutcome.ofValues_cases a.type.results [] with ⟨f, fault, fails⟩ | ⟨kinds, returns⟩
      · rw [fault, fails]
        exact Sound.failHost (w := w) sound opened f
      · rw [Activation.resultFault?_eq_none.mpr kinds, returns]
        exact Sound.passes (o := .returned []) sound opened rfl
  | gaveBack ss =>
      have refs : Completion.refs (.gaveBack ss) = Val.refs (TypeList.encode ss) :=
        (Scalar.refs_encode ss).symm
      rw [refs] at sound
      unfold World.deliverHost Activation.outcome
      dsimp only
      rw [count]
      rcases CallOutcome.ofValues_cases a.type.results (TypeList.encode ss) with
        ⟨f, fault, fails⟩ | ⟨kinds, returns⟩
      · rw [fault, fails]
        have evolves := (drains_releaseAll (Val.refs (TypeList.encode ss)) w).evolves
        have failed := Sound.failHost (sound.releaseAll _) (evolves.frames.trans opened) f
        exact failed.after evolves
      · rw [Activation.resultFault?_eq_none.mpr kinds, returns]
        refine Sound.passes (o := .returned (TypeList.encode ss)) (sound.regroup fun id => ?_) opened
          rfl
        simp only [CallOutcome.refs, List.count_append]
        omega
  | trapped t =>
      unfold World.deliverHost Activation.outcome
      dsimp only
      split
      · exact Sound.passes (o := .trapped (.ofMessage t.message)) sound opened rfl
      · exact Sound.failHost (w := w) sound opened _
  | panicked f => exact Sound.failHost (w := w) sound opened f

/-- A call leaves its store. -/
theorem depthOf_leave {n : NativeId} {config : Config}
    (known : w.shapes.native? n = some (.store ⟨config, false, 0⟩)) (active : 0 < w.depthOf n)
    (x : NativeId) :
    (w.leave n).depthOf x = if x = n then w.depthOf n - 1 else w.depthOf x := by
  obtain ⟨o, object, same⟩ := nativeObject_of_shape known
  obtain ⟨s, rfl⟩ : ∃ s, o = .store s := by
    cases o <;> simp [Native.shape] at same ⊢
  have depth := depthOf_of_nativeObject? object
  have one : (1 : UInt32) ≤ s.depth := UInt32.le_iff_toNat_le.mpr (by rw [← depth]; exact active)
  unfold World.leave
  rw [depthOf_modifyNativeStore object, UInt32.toNat_sub_of_le _ _ one, depth]
  rfl

/-- Leaving host code gives up all that the body owned, and its place in the engine. -/
theorem Sound.leaveHost {c : Completion} {config : Config}
    (sound : w.Sound (c.refs ++
      ((a.locals.refs ++ (Val.refs a.params ++ [a.closure, a.store])) ++ held)))
    (opened : w.thread.frames = none :: slots) (count : a.slots = a.type.results.length)
    (known : w.shapes.native? a.native = some (.store ⟨config, false, 0⟩))
    (active : 0 < w.depthOf a.native) :
    let left := w.leaveHost a c
    left.1 = (a.outcome c).engine ∧ left.2.Sound ((a.outcome c).refs ++ held) ∧
      left.2.thread.frames = (a.outcome c).slot :: slots ∧ w.shapes.Grows left.2.shapes ∧
      (∀ x, left.2.depthOf x = if x = a.native then w.depthOf a.native - 1 else w.depthOf x) ∧
      ∀ d, left.2.fallen.count d + w.drops.count d = w.fallen.count d + left.2.drops.count d := by
  -- The locals are dropped first, then the outcome is delivered.
  let bare := w.releaseAll a.locals.refs
  have first : Evolves w bare := (drains_releaseAll a.locals.refs w).evolves
  have bareSound : bare.Sound (c.refs ++ (Val.refs a.params ++ ([a.closure, a.store] ++ held))) := by
    refine Sound.releaseAll a.locals.refs (sound.regroup fun id => ?_)
    simp only [List.count_append]
    omega
  let given := bare.deliverHost a c
  have delivered : Delivered bare (a.outcome c) ([a.closure, a.store] ++ held) slots given.1 given.2 :=
    bareSound.deliverHost (first.frames.trans opened) count
  let last := (given.2.release a.closure).release a.store
  have third : Evolves given.2 last :=
    (drains_release given.2 a.closure).evolves.trans (drains_release _ a.store).evolves
  have lastSound : last.Sound ((a.outcome c).refs ++ held) := by
    refine Sound.release (Sound.release (delivered.sound.regroup fun id => ?_))
    simp only [List.count_append, List.count_cons, List.count_nil]
    omega
  have grows : w.shapes.Grows last.shapes :=
    (first.shapes.trans delivered.shapes).trans third.shapes
  have depth : last.depthOf = w.depthOf := third.depth.trans (delivered.depth.trans first.depth)
  let departs (s : NativeStore) : NativeStore := { s with depth := s.depth - 1 }
  have result : w.leaveHost a c = (given.1, last.modifyNativeStore a.native departs) := rfl
  have shapes := shapes_modifyNativeStore (w := last) (f := departs) (fun _ => rfl) a.native
  rw [result]
  refine ⟨delivered.result, lastSound.modifyNativeStore (f := departs) (fun _ => rfl) a.native,
    third.frames.trans delivered.frames, ?_, fun x => ?_, fun d => ?_⟩
  · show w.shapes.Grows (last.modifyNativeStore a.native departs).shapes
    rw [shapes]
    exact grows
  · have left := depthOf_leave (grows.native known) (by rw [depth]; exact active) x
    rw [depth] at left
    exact left
  · have one := first.ledger d
    have two := delivered.ledger d
    have three := third.ledger d
    show last.fallen.count d + w.drops.count d = w.fallen.count d + last.drops.count d
    omega

end World

end HostEmbedding
