import HostEmbedding.Proofs.CallReference
import HostEmbedding.Proofs.Machine.Callbacks
import HostEmbedding.Proofs.Public

/-!
# Delivery of results

The values that host code gives back fill the slots that the engine offers, all of them, or they are all
dropped and the engine is told of a trap. Their number is looked at first, then the number of slots, and
then their kinds in order.
-/

namespace HostEmbedding

/-! ## Faults of results -/

/-- Why values do not fill the slots that are offered: the first of three reasons. -/
inductive ResultFault (declared : List Kind) (slots : Nat) (vals : List (Val ObjId)) : Fault → Prop
  | count (differ : vals.length ≠ declared.length) :
      ResultFault declared slots vals (.wrongResultCount declared.length vals.length)
  | slots (count : vals.length = declared.length) (differ : slots ≠ declared.length) :
      ResultFault declared slots vals (.wrongSlotCount slots declared.length)
  | kind (count : vals.length = declared.length) (offered : slots = declared.length) {i : Nat}
      {expected found : Kind} (first : FirstMismatch declared vals i expected found) :
      ResultFault declared slots vals (.wrongResultKind i expected found)

namespace Activation

variable {declared : List Kind} {slots : Nat} {vals : List (Val ObjId)} {f : Fault}

/-- The check finds no fault exactly in values of the declared kinds for as many slots. -/
theorem resultFault?_none_iff : resultFault? declared slots vals = none ↔
    vals.map Val.kind = declared ∧ slots = declared.length := by
  by_cases offered : slots = declared.length
  · subst offered
    rw [resultFault?_eq_none, and_iff_left rfl]
  · refine ⟨fun passes => ?_, fun fits => absurd fits.2 offered⟩
    unfold resultFault? at passes
    rw [if_pos offered] at passes
    split at passes <;> cases passes

/-- The fault that the check finds is the first one. -/
theorem resultFault?_some_iff :
    resultFault? declared slots vals = some f ↔ ResultFault declared slots vals f := by
  unfold resultFault?
  by_cases count : vals.length = declared.length
  · rw [if_neg (not_not.mpr count)]
    by_cases offered : slots = declared.length
    · rw [if_neg (not_not.mpr offered)]
      cases mismatch : firstMismatch declared vals with
      | none =>
          refine ⟨nofun, fun fault => ?_⟩
          have kinds := (firstMismatch_eq_none count).mp mismatch
          cases fault with
          | count differ => exact absurd count differ
          | slots _ differ => exact absurd offered differ
          | kind _ _ first =>
              have agree := first.declares
              rw [← kinds, first.holds] at agree
              exact absurd (Option.some.inj agree) first.differ
      | some p =>
          obtain ⟨i, expected, found⟩ := p
          obtain ⟨declares, holds, differ, before⟩ := firstMismatch_eq_some mismatch
          have first : FirstMismatch declared vals i expected found := ⟨declares, holds, differ, before⟩
          constructor
          · intro same
            cases same
            exact .kind count offered first
          · intro fault
            cases fault with
            | count differ => exact absurd count differ
            | slots _ differ => exact absurd offered differ
            | kind _ _ other =>
                obtain ⟨rfl, rfl, rfl⟩ := first.unique other
                rfl
    · rw [if_pos offered]
      constructor
      · intro same
        cases same
        exact .slots count offered
      · intro fault
        cases fault with
        | count differ => exact absurd count differ
        | slots => rfl
        | kind _ right => exact absurd right offered
  · rw [if_pos count]
    constructor
    · intro same
      cases same
      exact .count count
    · intro fault
      cases fault with
      | count => rfl
      | slots right => exact absurd right count
      | kind right => exact absurd right count

/-- Values fit, or there is one fault to report. -/
theorem fits_or_fault (declared : List Kind) (slots : Nat) (vals : List (Val ObjId)) :
    (vals.map Val.kind = declared ∧ slots = declared.length) ∨ ∃! f, ResultFault declared slots vals f := by
  cases checked : resultFault? declared slots vals with
  | none => exact .inl (resultFault?_none_iff.mp checked)
  | some f =>
      refine .inr ⟨f, resultFault?_some_iff.mp checked, fun g fault => ?_⟩
      exact Option.some.inj ((resultFault?_some_iff.mpr fault).symm.trans checked)

/-! ## Ends of bodies -/

structure Fills (a : Activation) (how : Completion) (vals : List (Val ObjId)) : Prop where
  given : how.given? = some vals
  kinds : vals.map Val.kind = a.type.results
  offered : a.slots = a.type.results.length

/-- What the engine is told when a body has ended, and what becomes of the slots for panics. -/
inductive Delivers (a : Activation) (parked : List (Option Fault)) :
    Completion → EngineResult → List (Option Fault) → Prop
  /-- Every slot is filled with the encoding of its value. -/
  | written {how : Completion} {vals : List (Val ObjId)} (fills : a.Fills how vals) :
      Delivers a parked how (.ok (vals.map Slot.ofVal)) parked
  /-- The values do not fit, which is a panic. -/
  | mismatch {how : Completion} {vals : List (Val ObjId)} {f : Fault} (given : how.given? = some vals)
      (fault : ResultFault a.type.results a.slots vals f) :
      Delivers a parked how (.error (answerTo f parked.head?)) (parkedIn f parked)
  /-- A trap of code that may fail is passed on. -/
  | trap {t : Trap} (fails : a.code.shape.fallible = true) :
      Delivers a parked (.trapped t) (.error t.toNative) parked
  /-- A trap of code whose type has no room for one is a panic. -/
  | raise {t : Trap} (total : a.code.shape.fallible = false) :
      Delivers a parked (.trapped t) (.error (answerTo (.text t.message) parked.head?))
        (parkedIn (.text t.message) parked)
  | panic {f : Fault} :
      Delivers a parked (.panicked f) (.error (answerTo f parked.head?)) (parkedIn f parked)

variable {a : Activation} {parked parked' : List (Option Fault)} {how : Completion} {r : EngineResult}

/-- Slots are filled exactly by values that fit them. -/
theorem Delivers.ok_iff (delivers : a.Delivers parked how r parked') {written : List (Slot ObjId)} :
    r = .ok written ↔ ∃ vals, a.Fills how vals ∧ written = vals.map Slot.ofVal := by
  constructor
  · rintro rfl
    cases delivers with
    | written fills => exact ⟨_, fills, rfl⟩
  · rintro ⟨vals, fills, rfl⟩
    cases delivers with
    | written other =>
        obtain rfl := Option.some.inj (fills.given.symm.trans other.given)
        rfl
    | mismatch given fault =>
        obtain rfl := Option.some.inj (fills.given.symm.trans given)
        have fits := resultFault?_none_iff.mpr ⟨fills.kinds, fills.offered⟩
        cases fits.symm.trans (resultFault?_some_iff.mpr fault)
    | trap | raise | panic => cases fills.given

/-- In every other case a trap is reported. -/
theorem Delivers.error_iff (delivers : a.Delivers parked how r parked') :
    (∃ t, r = .error t) ↔ ∀ vals, ¬ a.Fills how vals := by
  constructor
  · rintro ⟨t, rfl⟩ vals fills
    cases delivers.ok_iff.mpr ⟨vals, fills, rfl⟩
  · intro none
    cases r with
    | error t => exact ⟨t, rfl⟩
    | ok written =>
        obtain ⟨vals, fills, -⟩ := delivers.ok_iff.mp rfl
        exact absurd fills (none vals)

theorem fault?_delivers (some : a.fault? how = some f) :
    a.Delivers parked how (.error (answerTo f parked.head?)) (parkedIn f parked) := by
  unfold fault? at some
  cases how with
  | panicked g =>
      cases some
      exact .panic
  | trapped t =>
      dsimp only at some
      split at some
      · cases some
      · next total =>
          cases some
          exact .raise (Bool.eq_false_of_not_eq_true total)
  | done answer => exact .mismatch rfl (resultFault?_some_iff.mp some)
  | gaveBack ss => exact .mismatch rfl (resultFault?_some_iff.mp some)

end Activation

namespace World

variable {w : World} {held : List ObjId} {a : Activation} {how : Completion}

theorem deliverHost_of_none (none : a.fault? how = none) (w : World) (parked : List (Option Fault)) :
    a.Delivers parked how (w.deliverHost a how).1 parked := by
  unfold Activation.fault? at none
  unfold deliverHost
  cases how with
  | panicked g => cases none
  | trapped t =>
      dsimp only at none ⊢
      split at none
      · next fails =>
          rw [if_pos fails]
          exact .trap fails
      · cases none
  | done answer =>
      dsimp only at none ⊢
      rw [none]
      obtain ⟨kinds, offered⟩ := Activation.resultFault?_none_iff.mp none
      exact .written ⟨rfl, kinds, offered⟩
  | gaveBack ss =>
      dsimp only at none ⊢
      rw [none]
      obtain ⟨kinds, offered⟩ := Activation.resultFault?_none_iff.mp none
      exact .written ⟨rfl, kinds, offered⟩

/-- Whatever a body ends in, this is what the engine is told. -/
theorem leaveHost_delivers (w : World) (a : Activation) (how : Completion) :
    a.Delivers w.thread.frames how (w.leaveHost a how).1 (w.leaveHost a how).2.thread.frames := by
  cases fault : a.fault? how with
  | some f =>
      obtain ⟨core, leaves⟩ := leaveHost_of_some w fault
      have left := leaves w.thread.frames
      rw [withSlots_frames] at left
      rw [left]
      exact Activation.fault?_delivers fault
  | none =>
      have left := congrArg (fun p => p.2.thread.frames) (leaveHost_of_none (w := w) fault w.thread.frames)
      have kept : (w.leaveHost a how).2.thread.frames = w.thread.frames := left
      rw [kept]
      exact deliverHost_of_none fault _ _

/-! ## Counts -/

/-- A panic keeps no reference, whether it is parked or not. -/
theorem Sound.fails (sound : w.Sound (Val.refs a.params ++ held)) (f : Fault) :
    (w.failHost a f).2.Sound held := by
  have released : (w.releaseAll (Val.refs a.params)).Sound held := sound.releaseAll _
  unfold World.failHost World.park
  dsimp only
  split
  · next rest _ =>
      have kept : ((w.releaseAll (Val.refs a.params)).modifyThread fun t =>
        { t with frames := some f :: rest }).Sound held := released.modifyThread rfl rfl
      exact kept
  · exact released.same (same_log _ _)
  · exact released.same (same_log _ _)

/-- Delivering gives up the parameters and the values that were given back, but for what is written. -/
theorem Sound.delivers (sound : w.Sound (how.refs ++ (Val.refs a.params ++ held))) :
    (w.deliverHost a how).2.Sound (Control.refs (.engine (w.deliverHost a how).1) ++ held) := by
  unfold World.deliverHost
  cases how with
  | panicked f => exact Sound.fails (w := w) sound f
  | trapped t =>
      dsimp only
      split
      · exact Sound.releaseAll (w := w) _ sound
      · exact Sound.fails (w := w) sound _
  | done answer =>
      dsimp only
      split
      · exact Sound.fails (w := w) sound _
      · exact Sound.releaseAll (w := w) _ sound
  | gaveBack ss =>
      have refs : Completion.refs (.gaveBack ss) = Val.refs (TypeList.encode ss) :=
        (Scalar.refs_encode ss).symm
      rw [refs] at sound
      dsimp only
      split
      · exact Sound.fails (sound.releaseAll _) _
      · have written : Control.refs (.engine (.ok ((TypeList.encode ss).map Slot.ofVal))) =
            Val.refs (TypeList.encode ss) := Slot.refs_ofVals _
        refine Sound.releaseAll (w := w) _ (sound.regroup fun id => ?_)
        rw [written]
        simp only [List.count_append]
        omega

/-- Leaving host code gives up all that the body owned and was about to give back, but for what is
written. -/
theorem Sound.leaves (sound : w.Sound (how.refs ++ ((Context.body a).refs ++ held))) :
    (w.leaveHost a how).2.Sound (Control.refs (.engine (w.leaveHost a how).1) ++ held) := by
  have owned : (Context.body a).refs = a.locals.refs ++ (Val.refs a.params ++ [a.closure, a.store]) := rfl
  have bare : (w.releaseAll a.locals.refs).Sound
      (how.refs ++ (Val.refs a.params ++ ([a.closure, a.store] ++ held))) := by
    refine Sound.releaseAll a.locals.refs (sound.regroup fun id => ?_)
    rw [owned]
    simp only [List.count_append]
    omega
  let given := (w.releaseAll a.locals.refs).deliverHost a how
  have delivered : given.2.Sound (Control.refs (.engine given.1) ++ ([a.closure, a.store] ++ held)) :=
    bare.delivers
  have last : ((given.2.release a.closure).release a.store).Sound
      (Control.refs (.engine given.1) ++ held) := by
    refine Sound.release (Sound.release (delivered.regroup fun id => ?_))
    simp only [List.count_append, List.count_cons, List.count_nil]
    omega
  exact last.modifyNativeStore (f := fun s => { s with depth := s.depth - 1 }) (fun _ => rfl) a.native

/-- Where nothing is written, no value that was given back is counted any more. -/
theorem Sound.drops (sound : w.Sound (how.refs ++ ((Context.body a).refs ++ held)))
    (none : ∀ vals, ¬ a.Fills how vals) (id : ObjId) : (w.leaveHost a how).2.strong id =
      held.count id + (w.leaveHost a how).2.owned.count id + (w.leaveHost a how).2.lent.count id +
        (w.leaveHost a how).2.thread.retired.count id := by
  have left := sound.leaves
  obtain ⟨t, trapped⟩ := (w.leaveHost_delivers a how).error_iff.mpr none
  rw [trapped] at left
  exact left.counted id

end World

namespace Machine

variable {m : Machine} {a : Activation} {saved : Context} {below : List Frame} {how : Completion}

/-- A body that ends in a coherent state owns its references and the values that it gives back, besides
what is held when it has been left. -/
theorem BodyEnds.sound (ends : m.BodyEnds a saved below how) (coherent : m.Coherent) :
    m.world.Sound (how.refs ++ ((Context.body a).refs ++ m.step.owns)) := by
  have sound := coherent.world
  unfold held owns at sound
  rw [ends.control, ends.context, ends.stack] at sound
  refine sound.regroup fun id => ?_
  have completion : Control.refs (.complete how) = how.refs := rfl
  have frame : (Frame.activation saved).refs = saved.refs := rfl
  have left : m.step.owns = m.globals.refs ++ (saved.refs ++ below.flatMap Frame.refs) := by
    rw [ends.step_eq]
    rfl
  rw [completion, List.flatMap_cons, frame, left]
  simp only [List.count_append]
  omega

/-! ## Every run -/

/-- How the results of host code are delivered, in whatever world and to as many slots as are offered. -/
structure ResultDelivery (run : Nat → Machine) : Prop where
  /-- Values fit the slots, or there is one fault to report, the first one in order. -/
  faults : ∀ declared slots vals, (vals.map Val.kind = declared ∧ slots = declared.length) ∨
    ∃! f, ResultFault declared slots vals f
  /-- The end of a body decides what the engine is told. -/
  delivers : ∀ (w : World) (a : Activation) how,
    a.Delivers w.thread.frames how (w.leaveHost a how).1 (w.leaveHost a how).2.thread.frames
  /-- The slots are filled exactly by values that fit them, each with the encoding of its own. -/
  written : ∀ (w : World) (a : Activation) how slots, (w.leaveHost a how).1 = .ok slots ↔
    ∃ vals, a.Fills how vals ∧ slots = vals.map Slot.ofVal
  /-- In every other case no slot is filled and a trap is reported. -/
  trapped : ∀ (w : World) (a : Activation) how,
    (∃ t, (w.leaveHost a how).1 = .error t) ↔ ∀ vals, ¬ a.Fills how vals
  /-- Of what the body owned and the values it gave back only what is written is held any more. -/
  kept : ∀ (w : World) (a : Activation) how held, w.Sound (how.refs ++ ((Context.body a).refs ++ held)) →
    (w.leaveHost a how).2.Sound (Control.refs (.engine (w.leaveHost a how).1) ++ held)
  /-- So where nothing is written, no value is counted any more. -/
  dropped : ∀ (w : World) (a : Activation) how held,
    w.Sound (how.refs ++ ((Context.body a).refs ++ held)) →
    (∀ vals, ¬ a.Fills how vals) → ∀ id, (w.leaveHost a how).2.strong id =
      held.count id + (w.leaveHost a how).2.owned.count id + (w.leaveHost a how).2.lent.count id +
        (w.leaveHost a how).2.thread.retired.count id
  /-- Every body of the run that ends is left in this way. -/
  ends : ∀ i a saved below how, (run i).BodyEnds a saved below how → run (i + 1) = { run i with
    world := ((run i).world.leaveHost a how).2
    context := saved
    stack := below
    control := .engine ((run i).world.leaveHost a how).1 }

/-- On a run whose bodies own what they give back, nothing is left of values that do not fit. -/
structure ResultsDropped (run : Nat → Machine) : Prop where
  /-- A body that ends owns its references and the values that it gives back. -/
  owns : ∀ i a saved below how, (run i).BodyEnds a saved below how →
    (run i).world.Sound (how.refs ++ ((Context.body a).refs ++ (run (i + 1)).owns))
  /-- If the values do not fit, the references that are counted next are those of the variables, the frames
  and the objects that are left. -/
  counts : ∀ i a saved below how, (run i).BodyEnds a saved below how → (∀ vals, ¬ a.Fills how vals) →
    ∀ id, (run (i + 1)).world.strong id = (run (i + 1)).owns.count id +
      (run (i + 1)).world.owned.count id + (run (i + 1)).world.lent.count id +
        (run (i + 1)).world.thread.retired.count id

/-- Results are delivered so on every run of every script, and on every run of a public script nothing is
left of values that do not fit. -/
theorem resultDelivery_after (level : Option LogLevel) (script : Block) :
    ResultDelivery (after level script) ∧
      (Block.isPublic script = true → ResultsDropped (after level script)) := by
  have steps := after_succ level script
  constructor
  · constructor
    case faults => exact Activation.fits_or_fault
    case delivers => exact World.leaveHost_delivers
    case written =>
        intro w a how slots
        exact (w.leaveHost_delivers a how).ok_iff
    case trapped =>
        intro w a how
        exact (w.leaveHost_delivers a how).error_iff
    case kept =>
        intro w a how held sound
        exact sound.leaves
    case dropped =>
        intro w a how held sound none
        exact sound.drops none
    case ends =>
        intro i a saved below how ends
        rw [steps]
        exact ends.step_eq
  · intro isPublic
    have coherent := coherent_after level isPublic
    constructor
    case owns =>
        intro i a saved below how ends
        rw [steps]
        exact ends.sound (coherent i)
    case counts =>
        intro i a saved below how ends none id
        have counted := (ends.sound (coherent i)).drops none id
        have world : (after level script i).step.world = ((after level script i).world.leaveHost a how).2 := by
          rw [ends.step_eq]
        rw [← world] at counted
        rw [steps]
        exact counted

/-- A function that gives back its argument, a reference, where it declares a number. -/
def mismatched : Block :=
  [(⟨false, false⟩, .plain (.store (.scoped "s") none)),
    (⟨false, false⟩, .plain (.reference (.scoped "r") "r" (.int 7))),
    (⟨false, false⟩, .func (.scoped "f") (.scoped "s") (.generic ⟨[.externref], [.i32]⟩) "f" false []
      [(⟨false, false⟩, .plain (.giveBack [.var (.scoped "a0")]))]),
    (⟨true, false⟩, .call (.scoped "f") [.var (.scoped "r")] [])]

theorem mismatched_ends : ∃ a saved below,
    (after none mismatched 10).BodyEnds a saved below (.gaveBack [.externref (some ⟨1⟩)]) ∧
      a.type.results = [.i32] :=
  ⟨_, _, _, ⟨rfl, rfl, rfl, rfl⟩, rfl⟩

/-- The reference is not counted any more for the value: three are left, of the variable and of the two
lists of arguments of the call. -/
theorem resultDelivery_after_mismatched : Block.isPublic mismatched = true ∧
    (after none mismatched 10).world.strong ⟨1⟩ = 6 ∧
      (after none mismatched 11).world.strong ⟨1⟩ = 3 := by
  have isPublic : Block.isPublic mismatched = true := by decide
  obtain ⟨a, saved, below, ends, results⟩ := mismatched_ends
  have unfit (vals : List (Val ObjId)) : ¬ a.Fills (.gaveBack [.externref (some ⟨1⟩)]) vals := by
    intro fills
    have kinds := fills.kinds
    rw [results, ← Option.some.inj fills.given] at kinds
    exact absurd kinds (by decide)
  have counted := ((resultDelivery_after none mismatched).2 isPublic).counts 10 a saved below _ ends unfit ⟨1⟩
  refine ⟨isPublic, by decide +kernel, counted.trans ?_⟩
  decide +kernel

end Machine

end HostEmbedding
