import HostEmbedding.Proofs.ClosureLifetime
import HostEmbedding.Proofs.WrappedFunctions

/-!
# Values that come back

A value that is encoded into a raw slot and read back is the same value, bit for bit and reference for
reference. Who owns the slot decides about the counts: an owned slot hands its reference on, a borrowed
one keeps it and the value read from it is counted beside, and releasing the slot undoes the encoding. So
a function that gives its arguments back returns them to every call that is admitted.
-/

namespace HostEmbedding

/-! ## Slots -/

namespace World

variable {w : World} {vals : List (Val ObjId)}

/-- How values pass through raw slots of their kinds. -/
structure RoundTrips (w : World) (vals : List (Val ObjId)) : Prop where
  /-- An owner reads the values themselves, and no count changes. -/
  owned : ∀ type : FuncType, type.results = vals.map Val.kind → ∀ lower, w.thread.frames = none :: lower →
    (w.finishCall type [] (.ok (vals.map Slot.ofVal))).1 = .returned vals ∧
      ∀ id, (w.finishCall type [] (.ok (vals.map Slot.ofVal))).2.strong id = w.strong id
  /-- A borrower reads the values too, and each of their references is counted once more. -/
  borrowed : (w.decodeBorrowed (vals.map Val.kind) (vals.map Slot.ofVal)).1 = vals ∧
    ∀ id, (w.decodeBorrowed (vals.map Val.kind) (vals.map Slot.ofVal)).2.strong id =
      w.strong id + (Val.refs vals).count id
  /-- The slots that were borrowed from still own their references: once they are released, what is left is
  what the borrower counted. -/
  valid : (((w.encodeArgs vals).2.decodeBorrowed (vals.map Val.kind) (w.encodeArgs vals).1).2.releaseAll
    (Slot.refs (w.encodeArgs vals).1)) = (w.decodeBorrowed (vals.map Val.kind) (w.encodeArgs vals).1).2
  /-- Releasing the slots undoes the encoding. -/
  released : (w.encodeArgs vals).2.releaseAll (Slot.refs (w.encodeArgs vals).1) = w

theorem decodeBorrowed_ofVals (w : World) (vals : List (Val ObjId)) :
    w.decodeBorrowed (vals.map Val.kind) (vals.map Slot.ofVal) = (vals, w.retainAll (Val.refs vals)) := by
  unfold World.decodeBorrowed
  rw [Slot.read_ofVals rfl]

/-- Values whose references are alive pass through slots unchanged. -/
theorem roundTrips (alive : ∀ r ∈ Val.refs vals, w.strong r ≠ 0) : w.RoundTrips vals where
  owned type results lower frames := by
    unfold World.finishCall World.popFrame
    rw [frames, results]
    dsimp only
    rw [Slot.read_ofVals rfl]
    exact ⟨rfl, fun _ => rfl⟩
  borrowed := by
    rw [decodeBorrowed_ofVals]
    exact ⟨rfl, strong_retainAll alive⟩
  valid := by
    unfold World.encodeArgs
    dsimp only
    rw [decodeBorrowed_ofVals, decodeBorrowed_ofVals, Slot.refs_ofVals]
    exact releaseAll_retainAll fun r mem => strong_retainAll_ne_zero _ (alive r mem)
  released := by
    unfold World.encodeArgs
    dsimp only
    rw [Slot.refs_ofVals]
    exact releaseAll_retainAll alive

end World

/-! ## Functions that give back their arguments -/

/-- The operands that name the first parameters of a body. -/
def Operand.params (n : Nat) : List Operand := (List.range n).map fun i => .var (.param i)

/-- Code whose results repeat its parameters, and whose body gives back its parameters. -/
structure HostCode.Echoes (code : HostCode) : Prop where
  type : code.shape.funcType.results = code.shape.funcType.params
  body : ∃ g, code.body =
    [(g, .plain (.giveBack (Operand.params code.shape.funcType.params.length)))]

namespace Machine

variable {m start : Machine} {a : Activation} {c : CallRequest} {h : Handle} {callee : Callee}

/-- The first locals of a body, read in order, are its parameters. -/
theorem operands_params {ss : List (Scalar ObjId)} (context : m.context = .body a)
    (locals : a.locals = Activation.initialLocals ss) : m.operands? (Operand.params ss.length) = some ss := by
  have reads (before rest : List (Scalar ObjId)) (locals : a.locals = Activation.initialLocals (before ++ rest)) :
      ((List.range' before.length rest.length).map fun i => Operand.var (.param i)).mapM m.operand? =
        some rest := by
    induction rest generalizing before with
    | nil => rfl
    | cons s rest ih =>
        have here : m.operand? (.var (.param before.length)) = some s := by
          unfold Machine.operand?
          dsimp only
          rw [lookup_param context locals]
        have later := ih (before ++ [s]) (by rw [locals, List.append_assoc]; rfl)
        rw [List.length_append] at later
        rw [List.length_cons, List.range'_succ, List.map_cons, List.mapM_cons, here]
        simp only [Option.bind_eq_bind, Option.bind_some]
        exact congrArg (fun r => r.bind fun rest => some (s :: rest)) later
  have all := reads [] ss locals
  rwa [List.length_nil, ← List.range_eq_range'] at all

/-- A body whose step has given values back is left with them. -/
theorem Coherent.gaveBack (coherent : m.Coherent) {ss : List (Scalar ObjId)}
    (control : m.control = .complete (.gaveBack ss)) (context : m.context = .body a) {i : Nat} {g : Guard}
    {s : Step} {rest : Block} {below : List Frame} (stack : m.stack = .block true i ((g, s) :: rest) :: below) :
    m.step.stack = below ∧ m.step.control = .complete (.gaveBack ss) := by
  have settles : m.step = m.settle (.gaveBack ss) true i g s rest below := by
    rw [coherent.step_eq, control]
    dsimp only
    unfold Machine.deliver
    rw [stack]
  have leaves : m.context.goesOn g (.gaveBack ss) = false := by
    rw [context]
    simp [Context.goesOn, Completion.isDone, Completion.isRaised]
  have settled := (m.settle_spec (.gaveBack ss) true i g s rest below).2
  rw [leaves, if_neg Bool.false_ne_true] at settled
  rw [settles]
  exact settled

/-- A body that gives back its parameters has ended after two transitions. -/
theorem Coherent.echoed (coherent : start.Coherent) (control : start.control = .run)
    (context : start.context = .body a) {ss : List (Scalar ObjId)}
    (locals : a.locals = Activation.initialLocals ss) {g : Guard} {below : List Frame}
    (stack : start.stack = .block true 0 [(g, .plain (.giveBack (Operand.params ss.length)))] :: below) :
    start.step.stack = start.stack ∧ start.step.step.stack = below ∧
      start.step.step.control = .complete (.gaveBack ss) := by
  have gives : start.step =
      (start.withWorld (start.world.retainAll (Scalar.refs ss))).complete (.gaveBack ss) := by
    have begins : start.step = start.withOperands (Operand.params ss.length) fun ss =>
        (start.withWorld (start.world.retainAll (Scalar.refs ss))).complete (.gaveBack ss) := by
      rw [coherent.step_eq, control, stack]
      rfl
    rw [begins]
    unfold Machine.withOperands
    rw [operands_params context locals]
  have later := coherent.step
  rw [gives] at later ⊢
  exact ⟨rfl, later.gaveBack rfl context stack⟩

/-- A call whose body has ended by giving back its arguments returns them. -/
theorem EndsAfter.returns {n : Nat} (ended : EndsAfter m c a start n) {how : Completion}
    (control : (Machine.step^[n + 1] start).control = .complete how) (given : how.given? = some c.args)
    (kinds : c.args.map Val.kind = a.type.results) :
    Resumes ((Machine.step^[n + 2] start).closed ⟨c, c.args.map Slot.ofVal⟩ m.stack
      (Frame.slots m.stack)) c (.returned c.args) (Machine.step^[n + 3] start) := by
  obtain ⟨how', o, control', closes, resumes⟩ := ended.ends
  obtain rfl : how' = how := Control.complete.inj (control'.symm.trans control)
  obtain rfl := closes_values given kinds closes
  exact resumes

/-- A body that is left after two transitions, and not after one, is left then. -/
theorem EndsAfter.second (ends : (∀ n, (Machine.step^[n] start).Within (m.callFrames c) (.body a)) ∨
      ∃ n, EndsAfter m c a start n)
    (first : start.step.stack ≠ m.callFrames c) (second : start.step.step.stack = m.callFrames c) :
    EndsAfter m c a start 1 := by
  have left : ¬ (Machine.step^[2] start).Within (m.callFrames c) (.body a) := by
    rintro ⟨top, some, above⟩
    exact some (List.self_eq_append_left.mp (second.symm.trans above.stack))
  rcases ends with forever | ⟨n, ended⟩
  · exact absurd (forever 2) left
  · match n, ended with
    | 0, ended => exact absurd ended.stack first
    | 1, ended => exact ended
    | n + 2, ended => exact absurd (ended.within 2 (by omega)) left

/-! ## Every run -/

/-- The closure of an admitted call is started on its arguments and ends once, and its call returns exactly
the arguments. -/
structure ReturnsArguments (m : Machine) (c : CallRequest) (h : Handle) (callee : Callee) (called : Machine)
    (n : Nat) : Prop where
  runs : ∃ a, Starts m c h callee a called.step ∧ EndsAfter m c a called.step n
  returns : Resumes ((Machine.step^[n + 2] called.step).closed ⟨c, c.args.map Slot.ofVal⟩ m.stack
    (Frame.slots m.stack)) c (.returned c.args) (Machine.step^[n + 3] called.step)

/-- An admitted call of code that echoes returns its arguments. -/
theorem CallsCode.echoes {s : NativeStore} {code : HostCode} (calls : CallsCode m c h callee s code)
    (echoes : code.Echoes) (kinds : c.args.map Val.kind = c.type.params) (calm : s.interrupt = false)
    (room : m.entered.count callee.native < s.config.maxCallDepth.toNat) :
    ReturnsArguments m c h callee (m.waiting c h) 1 := by
  obtain ⟨a, starts, ends⟩ := calls.admission.runs calm room
  have type : code.shape.funcType = c.type := by
    rw [← calls.coded, calls.entering.callable.shape, calls.entering.type]
  obtain ⟨ss, locals, encoded⟩ := starts.locals
  have count : code.shape.funcType.params.length = ss.length := by
    have lengths := congrArg List.length kinds
    rw [List.length_map, ← encoded, TypeList.encode, List.length_map] at lengths
    rw [type, ← lengths]
  obtain ⟨g, body⟩ := echoes.body
  have stack := starts.stack
  rw [calls.coded, body, count] at stack
  obtain ⟨first, second, control⟩ :=
    (calls.entering.step calls.waiting).echoed starts.control starts.context locals stack
  have differ : (m.waiting c h).step.step.stack ≠ m.callFrames c := by
    rw [first, stack]
    exact List.cons_ne_self _ _
  have ended := EndsAfter.second ends differ second
  have results : c.args.map Val.kind = a.type.results := by
    rw [kinds, starts.type, calls.entering.type, ← type, echoes.type]
  exact ⟨⟨a, starts, ended⟩, ended.returns control (congrArg some encoded) results⟩

/-- What comes back of the values that a script passes. -/
structure ValueRoundTrips (level : Option LogLevel) (script : Block) : Prop where
  /-- Values whose references are alive pass through raw slots unchanged. -/
  slots : ∀ (w : World) (vals : List (Val ObjId)), (∀ r ∈ Val.refs vals, w.strong r ≠ 0) → w.RoundTrips vals
  /-- The references of arguments are alive. -/
  alive : ∀ {k args ss}, (after level script k).control = .run →
    (after level script k).operands? args = some ss →
    ∀ r ∈ Val.refs (TypeList.encode ss), (after level script k).world.strong r ≠ 0
  /-- A call is refused or admitted by its store, and if its closure gives back the arguments of the call,
  whatever else it does, the call returns exactly the arguments. -/
  returns : ∀ {k v id type args ss}, (after level script k).control = .run →
    Frame.Waits (after level script k).stack →
    (after level script k).lookup v = some (.func id type) →
    (after level script k).operands? args = some ss → (TypeList.encode ss).map Val.kind = type.params →
    type.results = type.params → ∀ names,
    let c : CallRequest := ⟨id, type, TypeList.encode ss, names, none⟩
    let called := (after level script k).call v args names
    ∃ h callee s, Admission (after level script k) c h callee s called ∧
      ∀ a n how, Starts (after level script k) c h callee a called.step →
        EndsAfter (after level script k) c a called.step n →
        (Machine.step^[n + 1] called.step).control = .complete how → how.given? = some c.args →
          ReturnsArguments (after level script k) c h callee called n
  /-- Code that only gives back its parameters does so at every call that is admitted. -/
  echoes : ∀ {k v id type args ss code captures}, (after level script k).control = .run →
    Frame.Waits (after level script k).stack →
    (after level script k).lookup v = some (.func id type) →
    (after level script k).operands? args = some ss → (TypeList.encode ss).map Val.kind = type.params →
    (after level script k).Implements id code captures → code.Echoes → ∀ names,
    let c : CallRequest := ⟨id, type, TypeList.encode ss, names, none⟩
    let called := (after level script k).call v args names
    ∃ h callee s, (after level script k).world.handle? id = some h ∧ callee.code = code ∧
      Admission (after level script k) c h callee s called ∧ (s.interrupt = false →
        (after level script k).entered.count callee.native < s.config.maxCallDepth.toNat →
          ReturnsArguments (after level script k) c h callee called 1)

/-- In every public run values come back unchanged. -/
theorem valueRoundTrips_after (level : Option LogLevel) {script : Block}
    (isPublic : Block.isPublic script = true) : ValueRoundTrips level script where
  slots w vals alive := World.roundTrips alive
  alive {k args ss} running values r mem := by
    have busy := (coherent_after level isPublic k).busy (by rw [running]; rfl)
    rw [Scalar.refs_encode] at mem
    obtain ⟨s, named, carried⟩ := List.mem_filterMap.mp mem
    exact busy.alive (busy.operands values s named) r (by simp [Item.refs, carried])
  returns {k v id type args ss} running waits func values kinds repeats names := by
    have coherent := coherent_after level isPublic k
    obtain ⟨h, -, reference⟩ := coherent.callReference running waits func values names
    obtain ⟨-, callee, s, admission⟩ := reference.enters kinds
    refine ⟨h, callee, s, admission, fun a n how starts ended control given => ⟨⟨a, starts, ended⟩, ?_⟩⟩
    refine ended.returns control given ?_
    rw [starts.type, admission.type, repeats]
    exact kinds
  echoes {k v id type args ss code captures} running waits func values kinds implements echoes names := by
    have coherent := coherent_after level isPublic k
    obtain ⟨h, callee, s, called, calls⟩ :=
      coherent.callsCode running waits func values kinds names implements
    dsimp only
    rw [called]
    exact ⟨h, callee, s, calls.handle, calls.coded, calls.admission,
      fun calm room => calls.echoes echoes kinds calm room⟩

/-- Code that gives back a number, a float and two references. -/
def echo : HostCode :=
  ⟨"echo", false, .generic ⟨[.i32, .f64, .externref, .externref], [.i32, .f64, .externref, .externref]⟩,
    [(⟨false, false⟩, .plain (.giveBack (Operand.params 4)))]⟩

/-- It is registered and called on the bits of a signalling NaN, a reference and null. -/
def echoing : Block :=
  [(⟨false, false⟩, .plain (.store (.scoped "s") none)),
    (⟨false, false⟩, .plain (.reference (.scoped "r") "r" .unit)),
    (⟨false, false⟩, .func (.scoped "f") (.scoped "s") echo.shape "echo" false [] echo.body),
    (⟨false, false⟩, .call (.scoped "f")
      [.literal (.i32 (-1)), .literal (.f64 0x7FF0000000000001), .var (.scoped "r"),
        .literal (.externref none)] [.scoped "a", .scoped "b", .scoped "c", .scoped "d"])]

/-- The fourth step of the script is such a call. It is admitted, and it returns the same bits and
references. -/
theorem valueRoundTrips_after_echoing : Block.isPublic echoing = true ∧
    ∃ h callee, ReturnsArguments (after none echoing 6)
      ⟨⟨4⟩, echo.shape.funcType,
        [.i32 (-1), .f64 0x7FF0000000000001, .externref (some ⟨1⟩), .externref none],
        [.scoped "a", .scoped "b", .scoped "c", .scoped "d"], none⟩ h callee (after none echoing 7) 1 := by
  have isPublic : Block.isPublic echoing = true := by decide
  have trips := valueRoundTrips_after none isPublic
  have func : (after none echoing 6).lookup (.scoped "f") = some (.func ⟨4⟩ echo.shape.funcType) := rfl
  have values : (after none echoing 6).operands? [.literal (.i32 (-1)), .literal (.f64 0x7FF0000000000001),
      .var (.scoped "r"), .literal (.externref none)] =
        some [.i32 (-1), .f64 0x7FF0000000000001, .externref (some ⟨1⟩), .externref none] := rfl
  have implements : (after none echoing 6).Implements ⟨4⟩ echo [] := ⟨⟨2⟩, ⟨_, _, _, rfl, rfl⟩, rfl⟩
  have echoes : echo.Echoes := ⟨rfl, _, rfl⟩
  have called := trips.echoes (k := 6) rfl trivial func values rfl implements echoes
    [.scoped "a", .scoped "b", .scoped "c", .scoped "d"]
  dsimp only at called
  obtain ⟨h, callee, s, handle, -, admission, returns⟩ := called
  have known : (after none echoing 6).world.handle? ⟨4⟩ = some ⟨⟨1⟩, ⟨0⟩, none, .func (some ⟨3⟩)⟩ := rfl
  obtain rfl := Option.some.inj (known.symm.trans handle)
  have steps : after none echoing 7 = (after none echoing 6).call (.scoped "f")
      [.literal (.i32 (-1)), .literal (.f64 0x7FF0000000000001), .var (.scoped "r"),
        .literal (.externref none)] [.scoped "a", .scoped "b", .scoped "c", .scoped "d"] := by
    rw [after_succ]
    exact (coherent_after none isPublic 6).step_call rfl rfl
  rw [← steps] at admission returns
  have native : callee.native = ⟨0⟩ := by
    have reached := admission.callable.func
    have there : (after none echoing 7).world.nativeFunc? ⟨1⟩ =
        some ⟨⟨0⟩, echo.shape.funcType.toNative, .host ⟨3⟩⟩ := rfl
    exact (congrArg NativeFunc.store (Option.some.inj (there.symm.trans reached))).symm
  have store := admission.store
  rw [native] at store returns
  have calm : (after none echoing 6).world.nativeStore? ⟨0⟩ = some ⟨Config.standard, false, 0⟩ := rfl
  obtain rfl := Option.some.inj (calm.symm.trans store)
  have room : (after none echoing 6).entered.count ⟨0⟩ < Config.standard.maxCallDepth.toNat := by decide
  exact ⟨isPublic, _, callee, returns rfl room⟩

end Machine

end HostEmbedding
