import HostEmbedding.Proofs.Views.Delivering

/-!
# The begin and the end of the calls

When the arguments are counted the call through the view keeps the view and the other call keeps the owner.
Once both have dropped what they were asked for, the machines are the same again.
-/

namespace HostEmbedding

/-- Counting the view in the one world and its owner in the other one is all that tells the calls apart. -/
theorem World.Beside.begin {p : View} {w : World} (of : p.Of w.shapes) (view : w.strong p.handle ≠ 0)
    (owner : w.strong p.owner ≠ 0) : (w.retain p.handle).Beside p false (w.retain p.owner) := by
  have here := strong_retain view
  have there := strong_retain owner
  constructor
  case rest =>
      exact rfl
  case size =>
      simp [World.retain, World.modifyEntry]
  case object =>
      intro x
      unfold World.retain
      rw [entry?_modifyEntry, entry?_modifyEntry]
      split <;> split <;> simp [Option.map_map, Function.comp_def]
  case count =>
      intro x
      show _ + [p.handle].count x = _ + [p.owner].count x
      rw [here, there]
      omega
  case kept =>
      rw [here]
      omega
  case view =>
      rw [there]
      simp [view]
  case alive =>
      intro x apart
      have none : [p.handle].count x = 0 := List.count_eq_zero.mpr (by simpa using apart)
      rw [here, there, none]
      by_cases same : x = p.owner
      · subst same
        simp [owner]
      · have none' : [p.owner].count x = 0 := List.count_eq_zero.mpr (by simpa using same)
        rw [none']
  case shape =>
      rw [shapes_retain]
      exact of

namespace Machine

variable {p : View} {m n m₀ n₀ : Machine} {extra ids : List ObjId} {c : CallRequest}

/-- Steps that keep the view in the one machine and its owner in the other one, with some references that
both keep, above the same frames. -/
structure Meeting (p : View) (m₀ n₀ : Machine) (extra : List ObjId) (m n : Machine) : Prop where
  left : Busy m₀ (extra ++ [p.handle]) m
  right : Busy n₀ (extra ++ [p.owner]) n
  together : Together ⟨p, [], []⟩ m n

namespace Meeting

theorem keeps : Detour.Keeps ⟨p, [], []⟩ (extra ++ [p.handle]) (extra ++ [p.owner]) := by
  constructor <;> simp

theorem stack (meeting : Meeting p m₀ n₀ extra m n) : n.stack = m.stack := by
  obtain ⟨above, here, there⟩ := meeting.together.stack
  exact there.trans here.symm

theorem regroup {extra' : List ObjId} (meeting : Meeting p m₀ n₀ extra m n)
    (same : ∀ id, extra'.count id = extra.count id) : Meeting p m₀ n₀ extra' m n :=
  ⟨meeting.left.regroup fun id => by rw [List.count_append, List.count_append, same],
    meeting.right.regroup fun id => by rw [List.count_append, List.count_append, same], meeting.together⟩

theorem releaseAll (meeting : Meeting p m₀ n₀ (ids ++ extra) m n) :
    Meeting p m₀ n₀ extra (m.withWorld (m.world.releaseAll ids)) (n.withWorld (n.world.releaseAll ids)) := by
  obtain ⟨left, right, together⟩ := meeting
  rw [List.append_assoc] at left right
  have sound := left.world
  have sound' := right.world
  rw [List.append_assoc] at sound sound'
  exact ⟨left.releaseAll ids, right.releaseAll ids, together.releaseAll keeps ids sound sound'⟩

/-- Keeping copies of results under names. -/
theorem bindAll {names : List VarName} {ss : List (Scalar ObjId)} (meeting : Meeting p m₀ n₀ extra m n)
    (fits : ∀ r ∈ Scalar.refs ss, m₀.world.shapes.IsReferent r) (held : ∀ r ∈ Scalar.refs ss, r ∈ extra) :
    Meeting p m₀ n₀ extra (m.bindAll names ss) (n.bindAll names ss) := by
  refine bindAll_preserves (fun m n meeting s mem name => ?_) meeting
  obtain ⟨left, right, together⟩ := meeting
  obtain ⟨gone, beside⟩ := together.world
  have known : Item.Fits m.world.shapes (.value s) := fun r carried =>
    (fits r (refs_value_subset mem r (by simpa [Item.refs] using carried))).mono left.evolves.shapes
  have kept {x : ObjId} : ∀ r ∈ (Item.value s).refs, r ∈ extra ++ [x] := fun r carried =>
    List.mem_append_left _ (held r (refs_value_subset mem r carried))
  have alive : ∀ r ∈ (Item.value s).refs, m.world.strong r ≠ 0 := fun r carried =>
    left.world.alive (List.mem_append_left _ (kept r carried))
  have alive' : ∀ r ∈ (Item.value s).refs, n.world.strong r ≠ 0 := fun r carried =>
    right.world.alive (List.mem_append_left _ (kept r carried))
  exact ⟨left.assignCopy known alive name, right.assignCopy (by rw [beside.shapes]; exact known) alive' name,
    together.assignCopy keeps left right known alive alive' name⟩

/-- When both have dropped what they were asked for, nothing is left of the difference. -/
theorem done (meeting : Meeting p m₀ n₀ [] m n) :
    n.withWorld (n.world.release p.owner) = m.withWorld (m.world.release p.handle) := by
  obtain ⟨gone, beside⟩ := meeting.together.world
  have met := beside.meet meeting.left.world.toBalanced meeting.right.world.toBalanced
  have same : n = { m with world := n.world } := by
    have rest := meeting.together.rest
    rwa [meeting.stack] at rest
  rw [met, same]
  rfl

/-- Dropping the rest of a request through each of the handles. -/
theorem drop (meeting : Meeting p m₀ n₀ (Val.refs c.args) m n) :
    n.withWorld (n.world.releaseAll (c.through p.owner).refs) =
      m.withWorld (m.world.releaseAll (c.through p.handle).refs) := by
  rw [← List.append_nil (Val.refs c.args)] at meeting
  have dropped := meeting.releaseAll.done
  have split (m : Machine) (x : ObjId) : m.withWorld (m.world.releaseAll (c.through x).refs) =
      (m.withWorld (m.world.releaseAll (Val.refs c.args))).withWorld
        ((m.world.releaseAll (Val.refs c.args)).release x) :=
    congrArg m.withWorld List.foldl_append
  rw [split, split]
  exact dropped

/-- A call that returned ends in the same machine through both handles. -/
theorem returnCall {vals : List (Val ObjId)} (meeting : Meeting p m₀ n₀ (Val.refs vals ++ Val.refs c.args) m n)
    (fits : ∀ r ∈ Val.refs vals, m₀.world.shapes.IsReferent r)
    (kinds : vals.map Val.kind = c.type.results) (sigs : ∀ sig, c.sig = some sig → sig.funcType = c.type) :
    n.returnCall (c.through p.owner) vals = m.returnCall (c.through p.handle) vals := by
  obtain ⟨gone, beside⟩ := meeting.together.world
  unfold Machine.returnCall
  dsimp only [CallRequest.through]
  rw [beside.shownVals_eq]
  cases typed : c.sig with
  | none =>
      have same : Scalar.refs (vals.map .ofVal) = Val.refs vals := Scalar.refs_ofVals vals
      have bound : Meeting p m₀ n₀ (Val.refs vals ++ Val.refs c.args) (m.bindAll c.bind (vals.map .ofVal))
          (n.bindAll c.bind (vals.map .ofVal)) :=
        meeting.bindAll (fun r mem => fits r (by rwa [same] at mem)) fun r mem =>
          List.mem_append_left _ (by rwa [same] at mem)
      exact congrArg (fun k => k.finish (.results (m.world.shownVals vals))) bound.releaseAll.drop
  | some sig =>
      have results : vals.map Val.kind = sig.results.kinds := by
        rw [kinds, ← sigs sig typed]
        rfl
      obtain ⟨ss, decoded, encoded⟩ := sig.results.decode_ok results
      have same : Scalar.refs ss = Val.refs vals := by rw [← Scalar.refs_encode, encoded]
      have first : Meeting p m₀ n₀ (Val.refs c.args ++ Val.refs vals) m n := meeting.regroup fun id => by
        simp only [List.count_append]
        omega
      have bare := first.releaseAll
      obtain ⟨gone', released⟩ := bare.together.world
      have shown : (n.world.releaseAll (Val.refs c.args)).shown =
        (m.world.releaseAll (Val.refs c.args)).shown := released.shown_eq
      have bound : Meeting p m₀ n₀ (Val.refs vals)
          ((m.withWorld (m.world.releaseAll (Val.refs c.args))).bindAll c.bind ss)
          ((n.withWorld (n.world.releaseAll (Val.refs c.args))).bindAll c.bind ss) :=
        bare.bindAll (fun r mem => fits r (by rwa [same] at mem)) fun r mem => by rwa [same] at mem
      rw [← List.append_nil (Val.refs vals)] at bound
      dsimp only
      rw [decoded]
      dsimp only
      rw [shown]
      exact congrArg (fun k => k.finish (.results (ss.map (m.world.releaseAll (Val.refs c.args)).shown)))
        bound.releaseAll.done

/-- Whatever the outcome of a call, the machines are the same when it has ended. -/
theorem resumeCall {o : CallOutcome} (meeting : Meeting p m₀ n₀ (o.refs ++ Val.refs c.args) m n)
    (fits : ∀ r ∈ o.refs, m₀.world.shapes.IsReferent r)
    (kinds : ∀ vals, o = .returned vals → vals.map Val.kind = c.type.results)
    (sigs : ∀ sig, c.sig = some sig → sig.funcType = c.type) :
    n.resumeCall (c.through p.owner) o = m.resumeCall (c.through p.handle) o := by
  cases o with
  | returned vals => exact meeting.returnCall fits (kinds vals rfl) sigs
  | trapped t => exact congrArg (fun k => k.complete (.trapped t)) meeting.drop
  | panicked f => exact congrArg (fun k => k.complete (.panicked f)) meeting.drop

end Meeting

/-- When the engine has returned to the call, one transition of each machine leads to the same machine. -/
theorem Together.rejoin {base : List Frame} (together : Together (p.calling c base) m n) (left : m.Coherent)
    (right : n.Coherent) (back : n.Back base) : n.step = m.step := by
  obtain ⟨gone, beside⟩ := together.world
  obtain ⟨⟨r, control'⟩, c', stack'⟩ := back
  have control := together.control.symm.trans control'
  obtain ⟨x, below, slots, slot, returning⟩ := left.returning control
  obtain ⟨y, below', slots', slot', returning'⟩ := right.returning control'
  obtain ⟨above, here, there⟩ := together.stack
  have size := congrArg List.length (stack'.symm.trans there)
  simp only [View.calling, List.length_append, List.length_cons] at size
  obtain rfl : above = [] := List.eq_nil_of_length_eq_zero (by omega)
  cases returning.stack.symm.trans here
  cases returning'.stack.symm.trans there
  have opened := (congrArg ThreadState.frames beside.thread_eq).symm.trans returning'.frames
  rw [returning.frames] at opened
  obtain ⟨rfl, rfl⟩ := List.cons.inj opened
  have kept (m : Machine) (x : ObjId) :
      x ∈ m.control.refs ++ (c.through x).waiting.request.refs ++ (m.closed (c.through x).waiting base slots).owns := by
    simp [CallRequest.waiting, CallRequest.refs, CallRequest.through]
  obtain ⟨gone', world⟩ := (beside.modifyThread fun t => { t with frames := slots }).releaseAll _
    (returning.sound left) (returning'.sound right) (kept m p.handle) (kept n p.owner)
  have closed : Together ⟨p, [], []⟩ (m.closed (c.through p.handle).waiting base slots)
      (n.closed (c.through p.owner).waiting base slots) :=
    ⟨⟨gone', world⟩, by unfold Machine.closed; rw [together.rest], base, (List.append_nil base).symm,
      (List.append_nil base).symm⟩
  have busy := returning'.busy right
  rw [show n.control.refs = m.control.refs by rw [together.control]] at busy
  have held (x : ObjId) : m.control.refs ++ (c.through x).waiting.request.refs =
      (m.control.refs ++ Val.refs c.args) ++ [x] := (List.append_assoc ..).symm
  have meeting : Meeting p (m.closed (c.through p.handle).waiting base slots)
      (n.closed (c.through p.owner).waiting base slots) (m.control.refs ++ Val.refs c.args) _ _ :=
    ⟨by rw [← held]; exact returning.busy left, by rw [← held]; exact busy, closed⟩
  have grows := returning.evolves.shapes
  have sigs := returning.fits.sig
  rw [control] at meeting
  rw [returning.step_eq left, returning'.step_eq right]
  show (n.closed _ base slots).resumeCall (c.through p.owner) (resumed c.type.results slot r) =
    (m.closed _ base slots).resumeCall (c.through p.handle) (resumed c.type.results slot r)
  cases returning.returned with
  | values vals kinds refs =>
      have carried : Control.refs (.engine (.ok (vals.map Slot.ofVal))) = Val.refs vals :=
        Slot.refs_ofVals vals
      rw [carried] at meeting
      rw [show resumed c.type.results none _ = .returned vals from resumed_values kinds]
      exact meeting.resumeCall (o := .returned vals) (fun x mem => (refs x mem).mono grows)
        (fun xs same => by cases same; exact kinds) sigs
  | trap t =>
      exact meeting.resumeCall (o := .trapped (.ofNative t)) (fun x mem => absurd mem List.not_mem_nil)
        (fun xs same => by cases same) sigs
  | panic f =>
      exact meeting.resumeCall (o := .panicked f) (fun x mem => absurd mem List.not_mem_nil)
        (fun xs same => by cases same) sigs

/-! ## The calls begin -/

namespace Meeting

/-- What both drop of a store. -/
theorem flush {s : ObjId} {k : NativeId} (meeting : Meeting p m₀ n₀ extra m n) (isStore : m.world.shapes.IsStore s k) :
    Meeting p m₀ n₀ extra (m.withWorld (m.world.flush s)) (n.withWorld (n.world.flush s)) := by
  obtain ⟨left, right, together⟩ := meeting
  obtain ⟨gone, beside⟩ := together.world
  have isStore' : n.world.shapes.IsStore s k := by rwa [beside.shapes]
  obtain ⟨gone', flushed⟩ := beside.flush isStore left.world right.world (by simp) (by simp)
  exact ⟨left.withWorld (left.world.flush isStore) (World.drains_flush _ s).evolves,
    right.withWorld (right.world.flush isStore') (World.drains_flush _ s).evolves, together.withWorld flushed⟩

variable {native : NativeId} {s : ObjId} {k : NativeId}

/-- A call whose arguments do not suit its type ends at once, in the same machine through both handles. -/
theorem fails (meeting : Meeting p m₀ n₀ (Val.refs c.args) m n) (isStore : m.world.shapes.IsStore s k) {f : Fault}
    (fault : argumentFault? c.type.params c.args = some f) :
    n.startCall native s (c.through p.owner) = m.startCall native s (c.through p.handle) := by
  unfold Machine.startCall
  dsimp only [CallRequest.through]
  rw [fault]
  exact congrArg (fun k => k.complete (.panicked f)) (meeting.flush isStore).drop

/-- A call whose arguments suit its type waits for the engine with one or the other handle. -/
theorem startCall (meeting : Meeting p m₀ n₀ (Val.refs c.args) m n) (isStore : m.world.shapes.IsStore s k)
    (suits : argumentFault? c.type.params c.args = none) :
    Together (p.calling c m.stack) (m.startCall native s (c.through p.handle))
      (n.startCall native s (c.through p.owner)) := by
  obtain ⟨left, right, together⟩ := meeting.flush isStore
  obtain ⟨gone, beside⟩ := together.world
  have alive : ∀ r ∈ Slot.refs (c.args.map Slot.ofVal), (n.world.flush s).strong r ≠ 0 := fun r mem => by
    rw [Slot.refs_ofVals] at mem
    exact right.world.alive (by simp [mem])
  have opened := (World.Beside.retainAll _ beside alive).modifyThread fun t => { t with frames := none :: t.frames }
  unfold Machine.startCall
  dsimp only [CallRequest.through]
  rw [suits]
  refine ⟨⟨gone, opened⟩, ?_, [], rfl, congrArg _ meeting.stack⟩
  rw [meeting.together.rest]
  rfl

end Meeting

end Machine

end HostEmbedding
