import HostEmbedding.Proofs.Alike.Actions

/-!
# Calls in two runs

A call begins, passes the gate, starts its body and ends in the same way in both machines. Only a trap
can end differently, when the code may fail in one run alone.
-/

namespace HostEmbedding

variable {δ : Variation}

/-! ## The world of a call -/

namespace World

variable {w v : World} {held held' : List ObjId} {a : Activation}

/-- Whether code may fail is asked only for a trap. -/
theorem leaveHost_code (w : World) (a : Activation) {c : Completion} {code : HostCode}
    (same : ∀ t, c = .trapped t → code.shape.fallible = a.code.shape.fallible) :
    w.leaveHost { a with code := code } c = w.leaveHost a c := by
  unfold leaveHost deliverHost
  cases c with
  | trapped t =>
      dsimp only
      rw [same t rfl]
      rfl
  | _ => rfl

namespace Alike

/-- A panic is parked in the same slot. -/
theorem park (alike : w.Alike δ v) (f : Fault) :
    (v.park f).1 = (w.park f).1 ∧ (w.park f).2.Alike δ (v.park f).2 := by
  unfold World.park
  rw [alike.frames]
  split
  · next rest _ =>
      exact ⟨rfl, alike.modifyThread (f := fun t => { t with frames := some f :: rest }) fun _ _ _ => rfl⟩
  · exact ⟨rfl, alike.log _⟩
  · exact ⟨rfl, alike.log _⟩

theorem failHost (alike : w.Alike δ v) (sound : w.Sound (Val.refs a.params ++ held))
    (sound' : v.Sound (Val.refs a.params ++ held')) (f : Fault) :
    (v.failHost a f).1 = (w.failHost a f).1 ∧ (w.failHost a f).2.Alike δ (v.failHost a f).2 := by
  obtain ⟨same, parked⟩ := (alike.releaseAll (Val.refs a.params) sound sound').park f
  exact ⟨congrArg Except.error same, parked⟩

/-- What a body gives to the engine. -/
theorem deliverHost {c : Completion} (alike : w.Alike δ v)
    (sound : w.Sound (c.refs ++ (Val.refs a.params ++ held)))
    (sound' : v.Sound (c.refs ++ (Val.refs a.params ++ held'))) :
    (v.deliverHost a c).1 = (w.deliverHost a c).1 ∧
      (w.deliverHost a c).2.Alike δ (v.deliverHost a c).2 := by
  cases c with
  | done answer =>
      change w.Sound (Val.refs a.params ++ held) at sound
      change v.Sound (Val.refs a.params ++ held') at sound'
      unfold World.deliverHost
      dsimp only
      split
      · exact alike.failHost sound sound' _
      · exact ⟨rfl, alike.releaseAll (Val.refs a.params) sound sound'⟩
  | gaveBack ss =>
      have refs : Completion.refs (.gaveBack ss) = Val.refs (TypeList.encode ss) :=
        (Scalar.refs_encode ss).symm
      rw [refs] at sound sound'
      unfold World.deliverHost
      dsimp only
      split
      · exact (alike.releaseAll _ sound sound').failHost (sound.releaseAll _) (sound'.releaseAll _) _
      · have first {u : World} {rest : List ObjId}
            (sound : u.Sound (Val.refs (TypeList.encode ss) ++ (Val.refs a.params ++ rest))) :
            u.Sound (Val.refs a.params ++ (Val.refs (TypeList.encode ss) ++ rest)) :=
          sound.regroup fun id => by
            simp only [List.count_append]
            omega
        exact ⟨rfl, alike.releaseAll (Val.refs a.params) (first sound) (first sound')⟩
  | trapped t =>
      change w.Sound (Val.refs a.params ++ held) at sound
      change v.Sound (Val.refs a.params ++ held') at sound'
      unfold World.deliverHost
      dsimp only
      split
      · exact ⟨rfl, alike.releaseAll (Val.refs a.params) sound sound'⟩
      · exact alike.failHost sound sound' _
  | panicked f =>
      change w.Sound (Val.refs a.params ++ held) at sound
      change v.Sound (Val.refs a.params ++ held') at sound'
      exact alike.failHost sound sound' f

/-- Leaving host code gives up the same. -/
theorem leaveHost {c : Completion} {slots slots' : List (Option Fault)} (alike : w.Alike δ v)
    (sound : w.Sound (c.refs ++
      ((a.locals.refs ++ (Val.refs a.params ++ [a.closure, a.store])) ++ held)))
    (sound' : v.Sound (c.refs ++
      ((a.locals.refs ++ (Val.refs a.params ++ [a.closure, a.store])) ++ held')))
    (opened : w.thread.frames = none :: slots) (opened' : v.thread.frames = none :: slots')
    (count : a.slots = a.type.results.length) :
    (v.leaveHost a c).1 = (w.leaveHost a c).1 ∧
      (w.leaveHost a c).2.Alike δ (v.leaveHost a c).2 := by
  have drops {w : World} {held : List ObjId} (sound : w.Sound (c.refs ++
      ((a.locals.refs ++ (Val.refs a.params ++ [a.closure, a.store])) ++ held))) :
      w.Sound (a.locals.refs ++ (c.refs ++ (Val.refs a.params ++ ([a.closure, a.store] ++ held)))) := by
    refine sound.regroup fun id => ?_
    simp only [List.count_append]
    omega
  have gives {w : World} {held : List ObjId} {slots : List (Option Fault)} (sound : w.Sound (c.refs ++
      ((a.locals.refs ++ (Val.refs a.params ++ [a.closure, a.store])) ++ held)))
      (opened : w.thread.frames = none :: slots) :
      ((w.releaseAll a.locals.refs).deliverHost a c).2.Sound
        (a.closure :: (a.store :: ((a.outcome c).refs ++ held))) := by
    have frames := (drains_releaseAll a.locals.refs w).evolves.frames
    refine (((drops sound).releaseAll _).deliverHost (frames.trans opened) count).sound.regroup fun id => ?_
    simp only [List.count_append, List.count_cons, List.count_nil]
    omega
  obtain ⟨same, given⟩ := (alike.releaseAll a.locals.refs (drops sound) (drops sound')).deliverHost
    ((drops sound).releaseAll _) ((drops sound').releaseAll _)
  have left := given.release (gives sound opened) (gives sound' opened')
  have last := left.release (gives sound opened).release (gives sound' opened').release
  exact ⟨same, last.modifyNativeStore a.native _⟩

/-- A body starts on the same arguments. -/
theorem started (alike : w.Alike δ v) (store closure : ObjId) {code code' : HostCode}
    {args : List (Val ObjId)}
    (refs : Scalar.refs (code'.shape.scalars args) = Scalar.refs (code.shape.scalars args)) :
    (w.started store closure code args).Alike δ (v.started store closure code' args) := by
  have counted := World.Alike.retainAll (Scalar.refs (code.shape.scalars args))
    (World.Alike.retainAll (Val.refs args) ((alike.retain store).retain closure))
  unfold World.started
  dsimp only
  rw [refs]
  exact counted.unseen (δ.hides_entered _ _) (δ.hides_entered _ _) code.quiet code'.quiet

end Alike

end World

/-- Variations of code take the same references as parameters. -/
theorem HostCode.Like.refs_scalars {code code' : HostCode} (like : code.Like δ code')
    {args : List (Val ObjId)} (kinds : args.map Val.kind = code.shape.funcType.params) :
    Scalar.refs (code'.shape.scalars args) = Scalar.refs (code.shape.scalars args) := by
  rw [Shape.refs_scalars kinds, Shape.refs_scalars (by rw [like.funcType]; exact kinds)]

namespace Machine

variable {m n m₀ n₀ : Machine} {extra : List ObjId} {s : Step}

/-! ## A call begins -/

/-- What a call or a step that ends leads to in both machines. -/
inductive CallsAlike (δ : Variation) (m n : Machine) : Prop
  | finished (finished : Finished δ m n)
  | enters (near : Near δ m n) (id : NativeId) (args : List (Slot ObjId)) (slots : SlotArray)
      (control : m.control = .enter id args slots) (control' : n.control = .enter id args slots)

namespace Abreast

/-- A call whose function and arguments are counted for it. -/
theorem startCall {c : CallRequest} {h : Handle} (abreast : Abreast δ m₀ n₀ c.refs m n)
    (found : m.world.handle? c.func = some h) (found' : n.world.handle? c.func = some h) :
    CallsAlike δ (m.startCall h.native h.store c) (n.startCall h.native h.store c) := by
  have isStore {w : World} {held : List ObjId} (sound : w.Sound held)
      (found : w.handle? c.func = some h) : ∃ k, w.shapes.IsStore h.store k := by
    obtain ⟨k, entry⟩ := World.isHandle_iff.mp (World.handle?_eq_some.mp found).1
    have handle : h.Fits w.shapes := sound.objects entry
    obtain ⟨s, isStore, -⟩ := handle.state
    exact ⟨s, isStore⟩
  obtain ⟨k, known⟩ := isStore abreast.left.world found
  obtain ⟨k', known'⟩ := isStore abreast.right.world found'
  have sound := abreast.left.world.flush known
  have sound' := abreast.right.world.flush known'
  have flushed := abreast.near.world.flush known abreast.left.world abreast.right.world
  unfold Machine.startCall
  dsimp only
  split
  · next fault _ =>
      exact .finished ((abreast.near.withWorld (flushed.releaseAll c.refs sound sound')).complete _)
  · refine .enters ?_ h.native (c.args.map Slot.ofVal) ⟨c.type.results.length, false⟩ rfl rfl
    have counted := World.Alike.retainAll (Slot.refs (c.args.map Slot.ofVal)) flushed
    have opened := counted.modifyThread (f := fun t => { t with frames := none :: t.frames })
      fun t t' same => congrArg (none :: ·) same
    exact ⟨opened, abreast.near.globals, abreast.near.context,
      .cons (.hostCall _) abreast.near.stack, abreast.near.answers⟩

/-- A call counts its function and its arguments before it begins. -/
theorem request (abreast : Abreast δ m₀ n₀ [] m n) {id : ObjId} {h : Handle} {type : FuncType}
    (found : m.world.handle? id = some h) (found' : n.world.handle? id = some h)
    {ss : List (Scalar ObjId)} (usable : ∀ s ∈ ss, m.Usable (.value s))
    (usable' : ∀ s ∈ ss, n.Usable (.value s)) (names : List VarName) (sig : Option TypedSignature) :
    CallsAlike δ
      ((m.withWorld ((m.world.retain id).retainAll (Val.refs (TypeList.encode ss)))).startCall
        h.native h.store ⟨id, type, TypeList.encode ss, names, sig⟩)
      ((n.withWorld ((n.world.retain id).retainAll (Val.refs (TypeList.encode ss)))).startCall
        h.native h.store ⟨id, type, TypeList.encode ss, names, sig⟩) := by
  have self {m : Machine} (found : m.world.handle? id = some h) : ∀ x ∈ [id], m.world.strong x ≠ 0 :=
    fun x mem => by
      cases List.mem_singleton.mp mem
      exact (World.handle?_eq_some.mp found).2
  have args {m₀ m : Machine} (busy : Busy m₀ [] m) (usable : ∀ s ∈ ss, m.Usable (.value s)) :
      ∀ r ∈ Val.refs (TypeList.encode ss), (m.world.retain id).strong r ≠ 0 := fun r mem =>
    World.strong_retain_ne_zero (busy.args_alive usable r mem)
  have kept {m : Machine} (found : m.world.handle? id = some h) :
      ((m.world.retain id).retainAll (Val.refs (TypeList.encode ss))).handle? id = some h :=
    Busy.handle?_retainAll _ (Busy.handle?_retainAll [id] found)
  have once : Abreast δ m₀ n₀ [id] (m.withWorld (m.world.retain id)) (n.withWorld (n.world.retain id)) :=
    abreast.retainAll (self found) (self found')
  have counted := once.retainAll (args abreast.left usable) (args abreast.right usable')
  exact startCall (c := ⟨id, type, TypeList.encode ss, names, sig⟩) counted
    (kept found) (kept found')

theorem call (abreast : Abreast δ m₀ n₀ [] m n) (v : VarName) (args : List Operand)
    (names : List VarName) : CallsAlike δ (m.call v args names) (n.call v args names) := by
  refine abreast.withHandle (fun _ _ => .finished) fun item id h _ _ mem found found' => ?_
  cases item with
  | func f type =>
      cases List.mem_singleton.mp mem
      exact abreast.withOperands (fun _ _ => .finished) fun ss usable usable' =>
        abreast.request found found' usable usable' names none
  | _ => exact .finished (abreast.unusable v)

theorem typedCall (abreast : Abreast δ m₀ n₀ [] m n) (v : VarName) (args : List Operand)
    (names : List VarName) : CallsAlike δ (m.typedCall v args names) (n.typedCall v args names) := by
  refine abreast.withHandle (fun _ _ => .finished) fun item id h _ _ mem found found' => ?_
  cases item with
  | typedFunc f type sig =>
      cases List.mem_singleton.mp mem
      exact abreast.withOperands (fun _ _ => .finished) fun ss usable usable' =>
        abreast.request found found' usable usable' names (some sig)
  | _ => exact .finished (abreast.unusable v)

/-! ## A call ends -/

theorem releaseAll (ids : List ObjId) (abreast : Abreast δ m₀ n₀ (ids ++ extra) m n) :
    Abreast δ m₀ n₀ extra (m.withWorld (m.world.releaseAll ids)) (n.withWorld (n.world.releaseAll ids)) := by
  refine ⟨abreast.left.releaseAll ids, abreast.right.releaseAll ids, abreast.near.withWorld ?_⟩
  have sound := abreast.left.world
  have sound' := abreast.right.world
  rw [List.append_assoc] at sound sound'
  exact abreast.near.world.releaseAll ids sound sound'

/-- Keeping copies of results under names. -/
theorem bindAll {names : List VarName} {ss : List (Scalar ObjId)} {m n : Machine}
    (abreast : Abreast δ m₀ n₀ extra m n) (fits : ∀ r ∈ Scalar.refs ss, m₀.world.shapes.IsReferent r)
    (fits' : ∀ r ∈ Scalar.refs ss, n₀.world.shapes.IsReferent r)
    (held : ∀ r ∈ Scalar.refs ss, r ∈ extra) :
    Abreast δ m₀ n₀ extra (m.bindAll names ss) (n.bindAll names ss) := by
  refine bindAll_preserves (fun m n abreast s mem name => ?_) abreast
  have carried {r : ObjId} (carried : s.ref? = some r) : r ∈ Scalar.refs ss :=
    refs_value_subset mem r (by simpa [Item.refs] using carried)
  have known : Item.Fits m.world.shapes (.value s) := fun r ref =>
    (fits r (carried ref)).mono abreast.left.evolves.shapes
  have known' : Item.Fits n.world.shapes (.value s) := fun r ref =>
    (fits' r (carried ref)).mono abreast.right.evolves.shapes
  have alive {m₀ m : Machine} (busy : Busy m₀ extra m) : ∀ r ∈ (Item.value s).refs, m.world.strong r ≠ 0 :=
    fun r ref => busy.world.alive (List.mem_append_left _ (held r (refs_value_subset mem r ref)))
  exact abreast.assignCopy known known' (alive abreast.left) (alive abreast.right) name

/-- A call that returned keeps its results and drops what it owned. -/
theorem returnCall {c : CallRequest} {vals : List (Val ObjId)}
    (abreast : Abreast δ m₀ n₀ (Val.refs vals ++ c.refs) m n)
    (fits : ∀ r ∈ Val.refs vals, m₀.world.shapes.IsReferent r)
    (fits' : ∀ r ∈ Val.refs vals, n₀.world.shapes.IsReferent r)
    (kinds : vals.map Val.kind = c.type.results) (sigs : ∀ sig, c.sig = some sig → sig.funcType = c.type) :
    Finished δ (m.returnCall c vals) (n.returnCall c vals) := by
  unfold Machine.returnCall
  rw [abreast.near.world.shownVals]
  cases typed : c.sig with
  | none =>
      have same : Scalar.refs (vals.map .ofVal) = Val.refs vals := Scalar.refs_ofVals vals
      have bound : Abreast δ m₀ n₀ (Val.refs vals ++ c.refs) (m.bindAll c.bind (vals.map .ofVal))
          (n.bindAll c.bind (vals.map .ofVal)) :=
        abreast.bindAll (fun r mem => fits r (by rwa [same] at mem))
          (fun r mem => fits' r (by rwa [same] at mem)) fun r mem =>
            List.mem_append_left _ (by rwa [same] at mem)
      have dropped := bound.releaseAll (Val.refs vals)
      rw [← List.append_nil c.refs] at dropped
      exact (dropped.releaseAll c.refs).finish _
  | some sig =>
      have results : vals.map Val.kind = sig.results.kinds := by
        rw [kinds, ← sigs sig typed]
        rfl
      obtain ⟨ss, decoded, encoded⟩ := sig.results.decode_ok results
      have same : Scalar.refs ss = Val.refs vals := by rw [← Scalar.refs_encode, encoded]
      have regroups (id : ObjId) : (Val.refs c.args ++ (Val.refs vals ++ [c.func])).count id =
          (Val.refs vals ++ c.refs).count id := by
        simp only [CallRequest.refs, List.count_append]
        omega
      have grouped : Abreast δ m₀ n₀ (Val.refs c.args ++ (Val.refs vals ++ [c.func])) m n :=
        ⟨abreast.left.regroup regroups, abreast.right.regroup regroups, abreast.near⟩
      have bare := grouped.releaseAll (Val.refs c.args)
      have shown := funext bare.near.world.shown
      have bound : Abreast δ m₀ n₀ (Val.refs vals ++ [c.func])
          ((m.withWorld (m.world.releaseAll (Val.refs c.args))).bindAll c.bind ss)
          ((n.withWorld (n.world.releaseAll (Val.refs c.args))).bindAll c.bind ss) := bare.bindAll
        (fun r mem => fits r (by rwa [same] at mem)) (fun r mem => fits' r (by rwa [same] at mem))
        fun r mem => List.mem_append_left _ (by rwa [same] at mem)
      have dropped := bound.releaseAll (Val.refs vals)
      rw [← List.append_nil [c.func]] at dropped
      have done := dropped.releaseAll [c.func]
      dsimp only
      rw [decoded]
      dsimp only
      rw [show (n.world.releaseAll (Val.refs c.args)).shown =
        (m.world.releaseAll (Val.refs c.args)).shown from shown]
      exact done.finish _

/-- Whatever the outcome of a call, the step that called ends in the same way. -/
theorem resumeCall {c : CallRequest} {o : CallOutcome} (abreast : Abreast δ m₀ n₀ (o.refs ++ c.refs) m n)
    (fits : ∀ r ∈ o.refs, m₀.world.shapes.IsReferent r)
    (fits' : ∀ r ∈ o.refs, n₀.world.shapes.IsReferent r)
    (kinds : ∀ vals, o = .returned vals → vals.map Val.kind = c.type.results)
    (sigs : ∀ sig, c.sig = some sig → sig.funcType = c.type) :
    Finished δ (m.resumeCall c o) (n.resumeCall c o) := by
  have dropped (plain : o.refs = []) : Abreast δ m₀ n₀ [] (m.withWorld (m.world.releaseAll c.refs))
      (n.withWorld (n.world.releaseAll c.refs)) := by
    rw [plain, List.nil_append, ← List.append_nil c.refs] at abreast
    exact abreast.releaseAll c.refs
  cases o with
  | returned vals => exact abreast.returnCall fits fits' (kinds vals rfl) sigs
  | trapped t => exact (dropped rfl).near.complete _
  | panicked f => exact (dropped rfl).near.complete _

end Abreast

end Machine

end HostEmbedding
