import HostEmbedding.Proofs.Alike.Machine
import HostEmbedding.Proofs.TypedCalls

/-!
# Generic code that reads its parameters

Generic code gets its integers as signed ones. The steps by which it reads them leave it where typed
code starts: its parameters are the decoded scalars, and nothing else has changed but what it records of
its own steps.
-/

namespace HostEmbedding

/-! ## Unsigned integers -/

theorem unsigned32 (x : Int32) : UInt32.ofInt x.toInt = x.toUInt32 := by
  rw [← UInt32.toBitVec_inj]
  refine (BitVec.eq_of_toNat_eq ?_).trans (BitVec.ofInt_toInt (x := x.toBitVec))
  show (BitVec.ofNat 32 (x.toBitVec.toInt % 2 ^ 32).toNat).toNat = _
  rw [BitVec.toNat_ofNat, BitVec.toNat_ofInt]
  omega

theorem unsigned64 (x : Int64) : UInt64.ofInt x.toInt = x.toUInt64 := by
  rw [← UInt64.toBitVec_inj]
  refine (BitVec.eq_of_toNat_eq ?_).trans (BitVec.ofInt_toInt (x := x.toBitVec))
  show (BitVec.ofNat 64 (x.toBitVec.toInt % 2 ^ 64).toNat).toNat = _
  rw [BitVec.toNat_ofNat, BitVec.toNat_ofInt]
  omega

/-- Added to zero, a signed integer becomes the unsigned one of the same bits. -/
theorem Scalar.combine?_zero {t : ScalarType} {zero : Scalar Empty} (unsigned : t.unsignedZero? = some zero)
    {v : Val ObjId} {s : Scalar ObjId} (decoded : Scalar.decode? t v = some s) :
    Scalar.combine? (· + ·) (zero.map Empty.elim) (.ofVal v) = some s := by
  cases t <;> cases unsigned <;> cases v <;> cases decoded
  · next x =>
      show some (Scalar.u32 (UInt32.ofInt (0 + x.toInt))) = _
      rw [Int.zero_add, unsigned32]
  · next x =>
      show some (Scalar.u64 (UInt64.ofInt (0 + x.toInt))) = _
      rw [Int.zero_add, unsigned64]

/-- What is not unsigned is read as it comes. -/
theorem Scalar.decode?_signed {t : ScalarType} (signed : t.unsignedZero? = none) {v : Val ObjId}
    {s : Scalar ObjId} (decoded : Scalar.decode? t v = some s) : s = .ofVal v := by
  cases t <;> cases signed <;> cases v <;> cases decoded <;> rfl

/-! ## Parameters in a scope -/

namespace Scope

variable {before : Scope} {name : String}

theorem find?_middle (fresh : name ∉ before.map Prod.fst) (item : Item) (after : Scope) :
    Scope.find? (before ++ (name, item) :: after) name = some item := by
  induction before with
  | nil => simp [Scope.find?]
  | cons p before ih =>
      rw [List.map_cons, List.mem_cons, not_or] at fresh
      rw [List.cons_append, find?_cons, if_neg (Ne.symm fresh.1)]
      exact ih fresh.2

theorem insert_middle (fresh : name ∉ before.map Prod.fst) (old item : Item) (after : Scope) :
    Scope.insert name item (before ++ (name, old) :: after) = before ++ (name, item) :: after := by
  induction before with
  | nil => simp [Scope.insert]
  | cons p before ih =>
      rw [List.map_cons, List.mem_cons, not_or] at fresh
      rw [List.cons_append, Scope.insert, if_neg (Ne.symm fresh.1), ih fresh.2, List.cons_append]

end Scope

namespace Activation

/-- A parameter among the others, under a name of its own. -/
theorem initialLocals_middle (before : List (Scalar ObjId)) : ∃ first : List (Scalar ObjId) → Scope,
    ∀ (s : Scalar ObjId) (after : List (Scalar ObjId)),
      initialLocals (before ++ s :: after) =
        initialLocals before ++ ("a" ++ toString before.length, .value s) :: first after := by
  refine ⟨fun after => after.mapIdx fun i s => ("a" ++ toString (i + (before.length + 1)), .value s),
    fun s after => ?_⟩
  unfold initialLocals
  rw [List.mapIdx_append, List.mapIdx_cons]
  simp [Nat.add_assoc, Nat.add_comm 1]

/-- The name of a parameter is not that of an earlier one. -/
theorem fresh_param (before : List (Scalar ObjId)) :
    "a" ++ toString before.length ∉ (initialLocals before).map Prod.fst := by
  intro mem
  obtain ⟨p, held, same⟩ := List.mem_map.mp mem
  obtain ⟨i, bound, rfl⟩ := List.mem_mapIdx.mp held
  exact absurd (Nat.repr_injective ((String.append_right_inj _).mp same)) (Nat.ne_of_lt bound)

end Activation

namespace Machine

variable {n : Machine} {b : Activation} {i : Nat} {below : List Frame} {body rest : Block}
variable {before after : List (Scalar ObjId)} {v : Val ObjId} {s : Scalar ObjId}

/-! ## Reading steps -/

/-- A parameter of the running body under its name. -/
theorem lookup_param (context : n.context = .body b)
    (locals : b.locals = Activation.initialLocals (before ++ s :: after)) :
    n.lookup (.param before.length) = some (.value s) := by
  obtain ⟨first, middle⟩ := Activation.initialLocals_middle before
  unfold Machine.lookup VarName.param Machine.locals
  dsimp only
  rw [context]
  dsimp only
  rw [locals, middle, Scope.find?_middle (Activation.fresh_param before), Option.some_or]

/-- A parameter without a reference is set in its place. -/
theorem assign_param (context : n.context = .body b) {old : Scalar ObjId}
    (locals : b.locals = Activation.initialLocals (before ++ old :: after)) (plain : old.ref? = none)
    (s : Scalar ObjId) :
    n.assign (.param before.length) (.value s) =
      { n with context := .body { b with locals := Activation.initialLocals (before ++ s :: after) } } := by
  obtain ⟨first, middle⟩ := Activation.initialLocals_middle before
  have scope : n.scope (.param before.length) = b.locals := by
    unfold Machine.scope VarName.param
    dsimp only
    rw [context]
  have held : (n.scope (.param before.length)).find? (VarName.param before.length).base =
      some (.value old) := by
    rw [scope, locals, middle]
    exact Scope.find?_middle (Activation.fresh_param before) _ _
  have set : (n.scope (.param before.length)).insert (VarName.param before.length).base (.value s) =
      Activation.initialLocals (before ++ s :: after) := by
    rw [scope, locals, middle, middle]
    exact Scope.insert_middle (Activation.fresh_param before) _ _ _
  have none : (Item.value old).refs = [] := by simp [Item.refs, plain]
  unfold Machine.assign
  dsimp only
  rw [held, set]
  dsimp only
  rw [none]
  unfold Machine.setScope VarName.param
  dsimp only
  rw [context]
  rfl

/-- One reading step takes two transitions. -/
theorem Coherent.reads (coherent : n.Coherent) (control : n.control = .run) (context : n.context = .body b)
    (locals : b.locals = Activation.initialLocals (before ++ .ofVal v :: after)) {t : ScalarType}
    {zero : Scalar Empty} (unsigned : t.unsignedZero? = some zero) (decoded : Scalar.decode? t v = some s)
    {g : Guard} (stack : n.stack = .block true i ((g, .plain (.add (.param before.length) (.literal zero)
      (.var (.param before.length)))) :: rest) :: below) :
    n.step.step = { n with
      world := if b.code.quiet then n.world
        else n.world.emit (.stepDone b.code.label i (.value (n.world.shown s)))
      context := .body { b with locals := Activation.initialLocals (before ++ s :: after) }
      stack := .block true (i + 1) rest :: below } := by
  have plain : (Scalar.ofVal v).ref? = none := by
    cases t <;> cases unsigned <;> cases v <;> cases decoded <;> rfl
  have named := lookup_param context locals
  have begins : n.step = { n with
      context := .body { b with locals := Activation.initialLocals (before ++ s :: after) }
      control := .complete (.done (.value (n.world.shown s))) } := by
    have first : n.step = n.arithmetic (.param before.length) (· + ·) (.literal zero)
        (.var (.param before.length)) := by
      rw [coherent.step_eq, control, stack]
      rfl
    rw [first]
    unfold Machine.arithmetic Machine.withOperand Machine.operand?
    dsimp only
    rw [named]
    dsimp only
    rw [Scalar.combine?_zero unsigned decoded]
    dsimp only
    rw [assign_param context locals plain s]
    rfl
  have next := coherent.step.step_eq
  rw [begins] at next ⊢
  rw [next]
  dsimp only
  unfold Machine.deliver
  dsimp only
  rw [stack]
  unfold Machine.settle
  dsimp only
  cases b.code.quiet with
  | true => rw [control]; rfl
  | false => rw [control]; rfl

/-- Once its parameters are read, generic code stands where typed code starts. -/
theorem Coherent.reading (δ : Variation) {ts : List ScalarType} {vals : List (Val ObjId)} {ss : List (Scalar ObjId)}
    (coherent : n.Coherent) (control : n.control = .run) (context : n.context = .body b)
    (locals : b.locals = Activation.initialLocals (before ++ vals.map .ofVal))
    (count : vals.length = ts.length) (decoded : TypeList.decodeTuple ts vals = .ok ss)
    (stack : n.stack = .block true i (Block.reading before.length ts ++ body) :: below) :
    ∃ k j events, Machine.step^[k] n = { n with
        world := { n.world with events := events }
        context := .body { b with locals := Activation.initialLocals (before ++ ss) }
        stack := .block true j body :: below } ∧
      events.filter δ.shows = n.world.events.filter δ.shows := by
  fun_induction TypeList.decodeTuple ts vals generalizing n b i before ss with
  | case1 vals =>
      obtain rfl := List.eq_nil_of_length_eq_zero count
      cases decoded
      refine ⟨0, i, n.world.events, ?_, rfl⟩
      have same : Context.body { b with locals := Activation.initialLocals (before ++ []) } = n.context := by
        rw [context, ← show b.locals = Activation.initialLocals (before ++ []) from locals]
      have block : (.block true i body :: below : List Frame) = n.stack := stack.symm
      rw [same, block]
      rfl
  | case2 => cases decoded
  | case3 => cases decoded
  | case4 => cases decoded
  | case5 t ts v vals s one rest more ih =>
      cases decoded
      have regroup (x : Scalar ObjId) (xs : List (Scalar ObjId)) :
          before ++ x :: xs = (before ++ [x]) ++ xs := by simp
      have position : before.length + 1 = (before ++ [s]).length := by simp
      rw [regroup s rest]
      cases unsigned : t.unsignedZero? with
      | none =>
          obtain rfl := Scalar.decode?_signed unsigned one
          have front : n.stack = .block true i (Block.reading (before.length + 1) ts ++ body) :: below := by
            unfold Block.reading at stack
            rw [unsigned] at stack
            exact stack
          rw [position] at front
          exact ih coherent control context (locals.trans (congrArg _ (regroup _ _))) (Nat.succ.inj count)
            more front
      | some zero =>
          have front : n.stack = .block true i ((⟨false, false⟩, .plain (.add (.param before.length)
              (.literal zero) (.var (.param before.length)))) ::
                (Block.reading (before.length + 1) ts ++ body)) :: below := by
            unfold Block.reading at stack
            rw [unsigned] at stack
            exact stack
          have two := coherent.reads control context locals unsigned one front
          have later := coherent.step.step
          rw [two, position] at later
          obtain ⟨k, j, events, reached, shown⟩ := ih later control rfl
            (congrArg Activation.initialLocals (regroup s _)) (Nat.succ.inj count) more rfl
          rw [← position] at reached
          refine ⟨k + 2, j, events, ?_, shown.trans ?_⟩
          · show Machine.step^[k] n.step.step = _
            rw [two, reached]
            dsimp only
            split <;> rfl
          · dsimp only
            split
            · rfl
            · exact List.filter_cons_of_neg (by simp [δ.hides_stepDone])

end Machine

end HostEmbedding
