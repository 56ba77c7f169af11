import HostEmbedding.Proofs.Slots.Steps

/-!
# Where the slots are seen

A host body that ends in a panic leaves it in the innermost slot if that is empty, and a host call
takes what its own slot holds when the engine returns. Whatever else happens at these ends does not
depend on the slots.
-/

namespace HostEmbedding

/-- The panic that a body ends in once it has ended with a completion: its own, the text of a trap that
it had no way to return, or the refusal of the values it gave back. -/
def Activation.fault? (a : Activation) : Completion → Option Fault
  | .panicked f => some f
  | .trapped t => if a.code.shape.fallible then none else some (.text t.message)
  | .done _ => resultFault? a.type.results a.slots []
  | .gaveBack ss => resultFault? a.type.results a.slots (TypeList.encode ss)

/-- The slots after a panic has reached the engine: it is parked in the innermost one if that is
empty. -/
def parkedIn (f : Fault) : List (Option Fault) → List (Option Fault)
  | none :: rest => some f :: rest
  | slots => slots

/-- What the engine is told of a panic, given the innermost slot if there is one. -/
def answerTo (f : Fault) : Option (Option Fault) → NativeTrap
  | some none => .sentinel
  | _ => .unparked f

theorem length_parkedIn (f : Fault) (slots : List (Option Fault)) :
    (parkedIn f slots).length = slots.length := by
  match slots with
  | [] => rfl
  | none :: rest => rfl
  | some g :: rest => rfl

namespace World

variable {w : World} {a : Activation} {c : Completion} {f : Fault}

def logPanic (w : World) (f : Fault) : Option (Option Fault) → World
  | some none => w
  | some (some _) => w.log (.unparked .occupied f.message)
  | none => w.log (.unparked .noFrame f.message)

theorem park_withSlots (w : World) (f : Fault) (xs : List (Option Fault)) : (w.withSlots xs).park f =
    (answerTo f xs.head?, (w.logPanic f xs.head?).withSlots (parkedIn f xs)) := by
  match xs with
  | [] => exact congrArg (Prod.mk _) (log_withSlots w [] _)
  | none :: rest => rfl
  | some g :: rest => exact congrArg (Prod.mk _) (log_withSlots w (some g :: rest) _)

/-- A body that ends in no panic leaves the slots alone. -/
theorem leaveHost_of_none (none : a.fault? c = none) (xs : List (Option Fault)) :
    (w.withSlots xs).leaveHost a c = ((w.leaveHost a c).1, (w.leaveHost a c).2.withSlots xs) := by
  have delivers (u : World) : (u.withSlots xs).deliverHost a c =
      ((u.deliverHost a c).1, (u.deliverHost a c).2.withSlots xs) := by
    unfold Activation.fault? at none
    unfold deliverHost
    cases c with
    | panicked g => cases none
    | trapped t =>
        dsimp only at none ⊢
        split at none
        · next fallible => simp only [if_pos fallible, releaseAll_withSlots]
        · cases none
    | done answer =>
        dsimp only at none ⊢
        simp only [none, releaseAll_withSlots]
    | gaveBack ss =>
        dsimp only at none ⊢
        simp only [none, releaseAll_withSlots]
  unfold leaveHost
  simp only [releaseAll_withSlots, delivers, release_withSlots, leave_withSlots]

/-- A body that ends in a panic parks it or is told that it cannot. -/
theorem leaveHost_of_some (w : World) (some : a.fault? c = some f) :
    ∃ core : Option (Option Fault) → World, ∀ xs, (w.withSlots xs).leaveHost a c =
      (.error (answerTo f xs.head?), (core xs.head?).withSlots (parkedIn f xs)) := by
  have fails (u : World) (xs : List (Option Fault)) : (u.withSlots xs).failHost a f =
      (.error (answerTo f xs.head?),
        ((u.releaseAll (Val.refs a.params)).logPanic f xs.head?).withSlots (parkedIn f xs)) := by
    unfold failHost
    dsimp only
    rw [releaseAll_withSlots, park_withSlots]
  have delivers : ∃ drop : World → World, ∀ (u : World) (xs : List (Option Fault)),
      (u.withSlots xs).deliverHost a c = (.error (answerTo f xs.head?),
        ((drop u).logPanic f xs.head?).withSlots (parkedIn f xs)) := by
    unfold Activation.fault? at some
    unfold deliverHost
    cases c with
    | panicked g =>
        cases some
        exact ⟨_, fails⟩
    | trapped t =>
        dsimp only at some ⊢
        split at some
        · cases some
        · next strict =>
            cases some
            simp only [if_neg strict]
            exact ⟨_, fails⟩
    | done answer =>
        dsimp only at some ⊢
        simp only [some]
        exact ⟨_, fails⟩
    | gaveBack ss =>
        dsimp only at some ⊢
        simp only [some, releaseAll_withSlots]
        exact ⟨_, fun u => fails (u.releaseAll (Val.refs (TypeList.encode ss)))⟩
  obtain ⟨drop, delivers⟩ := delivers
  refine ⟨fun slot => ((((drop (w.releaseAll a.locals.refs)).logPanic f slot).release a.closure).release
    a.store).leave a.native, fun xs => ?_⟩
  unfold leaveHost
  simp only [releaseAll_withSlots, delivers, release_withSlots, leave_withSlots]

/-- A call that ends closes its slot and takes what is in it. -/
theorem finishCall_withSlots (w : World) (type : FuncType) (raw : List (Slot ObjId)) (r : EngineResult)
    (slot : Option Fault) (xs : List (Option Fault)) :
    (w.withSlots (slot :: xs)).finishCall type raw r =
      (Machine.resumed type.results slot r, (w.releaseAll (Slot.refs raw)).withSlots xs) := by
  have popped : (w.withSlots (slot :: xs)).popFrame = (slot, w.withSlots xs) := rfl
  unfold finishCall
  rw [popped]
  dsimp only
  rw [releaseAll_withSlots]
  cases slot with
  | some f => rfl
  | none => cases r <;> rfl

end World

namespace Machine

variable {m here there : Machine} {s : List Frame} {xs : List (Option Fault)}

/-! ## Ends of calls -/

theorem Blind.returnCall (blind : Blind m s xs here there) (c : CallRequest)
    (vals : List (Val ObjId)) : Finishes m s xs (here.returnCall c vals) (there.returnCall c vals) := by
  have released (ids : List ObjId) :
      there.world.releaseAll ids = (here.world.releaseAll ids).withSlots xs := by
    rw [blind.same, onto_world, World.releaseAll_withSlots]
  unfold Machine.returnCall
  split
  · have shown : there.world.shownVals vals = here.world.shownVals vals := by
      rw [blind.same, onto_world, World.shownVals_withSlots]
    have bound := blind.bindAll c.bind (vals.map .ofVal)
    dsimp only
    rw [shown]
    refine (bound.world ?_).finish _
    rw [bound.same, onto_world, World.releaseAll_withSlots, World.releaseAll_withSlots]
  · next sig _ =>
      dsimp only
      rw [released]
      split
      · next ss _ =>
          have shown : ((here.world.releaseAll (Val.refs c.args)).withSlots xs).shown =
              (here.world.releaseAll (Val.refs c.args)).shown := rfl
          have bound := (blind.world (released (Val.refs c.args))).bindAll c.bind ss
          rw [released] at bound
          rw [shown]
          refine (bound.world ?_).finish _
          rw [bound.same, onto_world, World.releaseAll_withSlots, World.release_withSlots]
      · refine (blind.world ?_).complete _
        rw [World.releaseAll_withSlots, World.release_withSlots]

theorem Blind.resumeCall (blind : Blind m s xs here there) (c : CallRequest) (o : CallOutcome) :
    Finishes m s xs (here.resumeCall c o) (there.resumeCall c o) := by
  have released : there.world.releaseAll c.refs = (here.world.releaseAll c.refs).withSlots xs := by
    rw [blind.same, onto_world, World.releaseAll_withSlots]
  cases o with
  | returned vals => exact blind.returnCall c vals
  | trapped t => exact (blind.world released).complete _
  | panicked f => exact (blind.world released).complete _

theorem Blind.endNativeCall (blind : Blind m s xs here there) (name : Option VarName)
    (r : EngineResult) : Finishes m s xs (here.endNativeCall name r) (there.endNativeCall name r) := by
  cases r with
  | ok slots => exact blind.finish _
  | error t =>
      cases name with
      | none => exact blind.finish _
      | some name =>
          have made : there.world.allocNative (.trap t) = ((here.world.allocNative (.trap t)).1,
              (here.world.allocNative (.trap t)).2.withSlots xs) := by
            rw [blind.same, onto_world, World.allocNative_withSlots]
          unfold Machine.endNativeCall
          dsimp only
          rw [made]
          exact ((blind.world rfl).assign name _).finish _

end Machine

end HostEmbedding
