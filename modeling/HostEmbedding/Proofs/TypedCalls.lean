import HostEmbedding.Proofs.Call.Exchange
import HostEmbedding.Proofs.CallReference

/-!
# Typed views of functions

A typed view is granted exactly for the kinds of its function. From then on a typed call is the call of
the function on the encoded arguments, transition by transition, and it decodes what that call returns:
neither the check of the arguments nor the decoding of the results can fail.
-/

namespace HostEmbedding

/-! ## Scalars of the same bits -/

namespace Scalar

variable {ρ : Type}

/-- Two scalars hold the same bits: they are the same, or integers of one width, one signed and one
unsigned, that are congruent. -/
inductive Reinterprets : Scalar ρ → Scalar ρ → Prop
  | same (s : Scalar ρ) : Reinterprets s s
  | unsigned32 {a : Int32} {b : UInt32} (congruent : a.toInt ≡ b.toNat [ZMOD (2 ^ 32 : Nat)]) :
      Reinterprets (.i32 a) (.u32 b)
  | signed32 {a : Int32} {b : UInt32} (congruent : a.toInt ≡ b.toNat [ZMOD (2 ^ 32 : Nat)]) :
      Reinterprets (.u32 b) (.i32 a)
  | unsigned64 {a : Int64} {b : UInt64} (congruent : a.toInt ≡ b.toNat [ZMOD (2 ^ 64 : Nat)]) :
      Reinterprets (.i64 a) (.u64 b)
  | signed64 {a : Int64} {b : UInt64} (congruent : a.toInt ≡ b.toNat [ZMOD (2 ^ 64 : Nat)]) :
      Reinterprets (.u64 b) (.i64 a)

theorem modEq_iff_bmod (x y : Int) (n : Nat) : x ≡ y [ZMOD n] ↔ x.bmod n = y.bmod n := by
  unfold Int.ModEq
  constructor
  · intro same
    rw [← Int.emod_bmod, same, Int.emod_bmod]
  · intro same
    rw [← Int.bmod_emod, same, Int.bmod_emod]

theorem congruent32_iff (a : Int32) (b : UInt32) :
    a.toInt ≡ b.toNat [ZMOD (2 ^ 32 : Nat)] ↔ a = b.toInt32 := by
  have bits : b.toInt32.toInt = (b.toNat : Int).bmod (2 ^ 32) := BitVec.toInt_eq_toNat_bmod b.toBitVec
  have own : a.toInt.bmod (2 ^ 32) = a.toInt := a.toInt_bmod
  rw [modEq_iff_bmod, own, ← bits, Int32.toInt_inj]

theorem congruent64_iff (a : Int64) (b : UInt64) :
    a.toInt ≡ b.toNat [ZMOD (2 ^ 64 : Nat)] ↔ a = b.toInt64 := by
  have bits : b.toInt64.toInt = (b.toNat : Int).bmod (2 ^ 64) := BitVec.toInt_eq_toNat_bmod b.toBitVec
  have own : a.toInt.bmod (2 ^ 64) = a.toInt := a.toInt_bmod
  rw [modEq_iff_bmod, own, ← bits, Int64.toInt_inj]

/-- Scalars hold the same bits exactly when they are passed as the same value. -/
theorem reinterprets_iff {s t : Scalar ρ} : s.Reinterprets t ↔ s.toVal = t.toVal := by
  constructor
  · rintro (_ | congruent | congruent | congruent | congruent)
    · rfl
    · exact congrArg Val.i32 ((congruent32_iff _ _).mp congruent)
    · exact congrArg Val.i32 ((congruent32_iff _ _).mp congruent).symm
    · exact congrArg Val.i64 ((congruent64_iff _ _).mp congruent)
    · exact congrArg Val.i64 ((congruent64_iff _ _).mp congruent).symm
  · intro same
    cases s <;> cases t <;> simp only [toVal] at same <;> cases same
    all_goals first
      | exact .same _
      | exact .unsigned32 ((congruent32_iff _ _).mpr rfl)
      | exact .signed32 ((congruent32_iff _ _).mpr rfl)
      | exact .unsigned64 ((congruent64_iff _ _).mpr rfl)
      | exact .signed64 ((congruent64_iff _ _).mpr rfl)

/-- Lists of scalars hold the same bits position by position exactly when they are encoded alike. -/
theorem forall₂_reinterprets_iff {ss ts : List (Scalar ρ)} :
    List.Forall₂ Reinterprets ss ts ↔ TypeList.encode ss = TypeList.encode ts := by
  unfold TypeList.encode
  induction ss generalizing ts with
  | nil => cases ts <;> simp
  | cons s ss ih =>
      cases ts with
      | nil => simp
      | cons t ts => simp [ih, reinterprets_iff]

end Scalar

/-! ## Typed lists -/

namespace TypeList

variable {ρ : Type}

/-- What is decoded is of the types that it is decoded under. -/
theorem types_of_decodeTuple {ts : List ScalarType} {vals : List (Val ρ)} {ss : List (Scalar ρ)}
    (decoded : decodeTuple ts vals = .ok ss) : ss.map Scalar.type = ts := by
  fun_induction decodeTuple ts vals generalizing ss with
  | case1 => cases decoded; rfl
  | case2 => cases decoded
  | case3 => cases decoded
  | case4 => cases decoded
  | case5 t ts v vs s one rest more ih =>
      cases decoded
      have type : s.type = t := by
        cases t <;> cases v <;> simp [Scalar.decode?] at one <;> subst one <;> rfl
      simp [type, ih more]

/-- Decoding values of the declared kinds gives scalars of the declared types that hold their bits. -/
theorem decodes (l : TypeList) {vals : List (Val ObjId)} (kinds : vals.map Val.kind = l.kinds) :
    ∃ ss, l.decode vals = .ok ss ∧ encode ss = vals ∧ ss.map Scalar.type = l.types := by
  obtain ⟨ss, decoded, bits⟩ := l.decode_ok kinds
  rw [decode_eq] at decoded
  exact ⟨ss, by rw [decode_eq]; exact decoded, bits, types_of_decodeTuple decoded⟩

/-- Scalars of the declared types are passed as values of the declared kinds. -/
theorem kinds_encode (l : TypeList) {ss : List (Scalar ρ)} (types : ss.map Scalar.type = l.types) :
    (encode ss).map Val.kind = l.kinds := by
  rw [kinds_eq, ← types, encode, List.map_map, List.map_map]
  exact List.map_congr_left fun s _ => s.kind_toVal

end TypeList

/-! ## The same call under a typed signature -/

def CallRequest.typed (c : CallRequest) (sig : TypedSignature) : CallRequest := { c with sig := some sig }

/-- A request that waits for the engine, with its arguments as the engine borrows them. -/
def CallRequest.waiting (c : CallRequest) : HostCall := ⟨c, c.args.map Slot.ofVal⟩

def Object.label : Object → String
  | .referent l _ => l
  | _ => ""

theorem World.label_eq (w : World) (id : ObjId) :
    w.label id = ((w.shapes.object? id).map Object.label).getD "" := by
  unfold World.label World.shapes
  dsimp only
  rcases World.entry? w id with _ | ⟨k, o⟩
  · rfl
  · cases o <;> rfl

/-- What shows a reference is part of its shape. -/
theorem World.label_of_shapes {w v : World} (same : v.shapes = w.shapes) : v.label = w.label := by
  funext id
  rw [World.label_eq, World.label_eq, same]

namespace Machine

variable {m : Machine}

/-- A typed call ends as the call of its function does: `ended` is the machine once that call is over.
Values are decoded and kept under the names they are bound to, and a trap or a panic is passed on. -/
inductive Decodes (ended : Machine) (c : CallRequest) (sig : TypedSignature) (next : Machine) :
    CallOutcome → Prop
  | returned {vals : List (Val ObjId)} {rs : List (Scalar ObjId)} {kept : Machine}
      (decoded : sig.results.decode vals = .ok rs) (bits : TypeList.encode rs = vals)
      (types : rs.map Scalar.type = sig.results.types)
      (binds : kept = (ended.withWorld (ended.world.releaseAll (Val.refs c.args))).bindAll c.bind rs)
      (tells : next = (kept.withWorld ((kept.world.releaseAll (Val.refs vals)).release c.func)).finish
        (.results (rs.map ended.world.shown)))
      (stack : next.stack = ended.stack) : Decodes ended c sig next (.returned vals)
  | trapped {t : Trap} (same : next = ended.resumeCall c (.trapped t)) :
      Decodes ended c sig next (.trapped t)
  | panicked {f : Fault} (same : next = ended.resumeCall c (.panicked f)) :
      Decodes ended c sig next (.panicked f)

/-- A call and the typed call of the same function run alike and end after as many transitions, with
one outcome. -/
structure EndAlike (m : Machine) (c : CallRequest) (sig : TypedSignature) (plain typed : Machine) (k : Nat)
    (ended : Machine) (o : CallOutcome) : Prop where
  within : ∀ j ≤ k, Exchanged c.waiting (c.typed sig).waiting m.stack (Machine.step^[j] plain)
    (Machine.step^[j] typed)
  stack : ended.stack = m.stack
  ends : Machine.step^[k + 1] plain = ended.resumeCall c o
  resumes : Resumes ended c o (Machine.step^[k + 1] plain)
  decodes : Decodes ended c sig (Machine.step^[k + 1] typed) o

/-- The call of a function with arguments of its kinds, and its typed calls under every signature that
describes its type: the call behaves as the reference, and each typed call runs as the call does until
both have ended. -/
structure TypedCalls (m : Machine) (c : CallRequest) (h : Handle) : Prop where
  plain : c.sig = none
  kinds : c.args.map Val.kind = c.type.params
  reference : CallReference m c h (m.waiting c h)
  runs : (∀ sig, sig.funcType = c.type → ∀ j, Exchanged c.waiting (c.typed sig).waiting m.stack
      (Machine.step^[j] (m.waiting c h)) (Machine.step^[j] (m.waiting (c.typed sig) h))) ∨
    ∃ k ended o, ∀ sig, sig.funcType = c.type →
      EndAlike m c sig (m.waiting c h) (m.waiting (c.typed sig) h) k ended o

/-! ## Runs of typed calls -/

/-- A call that still stands after a transition was not one that the engine has returned to. -/
theorem Coherent.running (coherent : m.Coherent) {x : HostCall} {base above : List Frame}
    (stands : m.step.stack = above ++ .hostCall x :: base) (r : EngineResult)
    (control : m.control = .engine r) : m.stack ≠ .hostCall x :: base := by
  intro stack
  obtain ⟨c, below, slots, slot, returning⟩ := coherent.returning control
  obtain ⟨-, rfl⟩ := List.cons.inj (stack.symm.trans returning.stack)
  have shorter := congrArg List.length (stands.symm.trans (returning.restored coherent).1)
  simp only [List.length_append, List.length_cons] at shorter
  omega

/-- Once the engine has left a call, the typed call ends as the call does. -/
theorem Returning.decodes {c : CallRequest} {sig : TypedSignature} {slots : List (Option Fault)}
    {slot : Option Fault} {r : EngineResult} {below : List Frame}
    (returning : m.Returning c.waiting below slots slot r) (signature : sig.funcType = c.type)
    (ended : Machine) :
    Decodes ended c sig (ended.resumeCall (c.typed sig) (resumed c.type.results slot r))
      (resumed c.type.results slot r) := by
  have returned := returning.returned
  generalize slot = slot at returned ⊢
  generalize r = r at returned ⊢
  cases returned with
  | values vals kinds refs =>
      have declared : vals.map Val.kind = c.type.results := kinds
      rw [resumed_values declared]
      obtain ⟨rs, decoded, bits, types⟩ := sig.results.decodes
        (kinds.trans (congrArg FuncType.results signature).symm)
      have shown : rs.map (ended.world.releaseAll (Val.refs c.args)).shown = rs.map ended.world.shown := by
        unfold World.shown
        rw [World.label_of_shapes (World.drains_releaseAll _ _).shapes]
      have next : ended.resumeCall (c.typed sig) (.returned vals) =
          (let kept := (ended.withWorld (ended.world.releaseAll (Val.refs c.args))).bindAll c.bind rs
           (kept.withWorld ((kept.world.releaseAll (Val.refs vals)).release c.func)).finish
            (.results (rs.map ended.world.shown))) := by
        unfold Machine.resumeCall Machine.returnCall CallRequest.typed
        dsimp only
        rw [decoded, ← shown]
      rw [next]
      exact .returned decoded bits types rfl rfl (bindAll_stack _ _ _)
  | trap t => exact .trapped rfl
  | panic f => exact .panicked rfl

/-- Typed calls run as the call of their function does. -/
theorem typedCalls_run {c : CallRequest} {h : Handle} (plain : c.sig = none)
    (waits : (m.waiting c h).Coherent)
    (typed : ∀ sig, sig.funcType = c.type → (m.waiting (c.typed sig) h).Coherent) :
    (∀ sig, sig.funcType = c.type → ∀ j, Exchanged c.waiting (c.typed sig).waiting m.stack
      (Machine.step^[j] (m.waiting c h)) (Machine.step^[j] (m.waiting (c.typed sig) h))) ∨
    ∃ k ended o, ∀ sig, sig.funcType = c.type →
      EndAlike m c sig (m.waiting c h) (m.waiting (c.typed sig) h) k ended o := by
  have start (sig : TypedSignature) : Exchanged c.waiting (c.typed sig).waiting m.stack (m.waiting c h)
      (m.waiting (c.typed sig) h) := ⟨[], rfl, rfl⟩
  have running {j : Nat} (stands : ∃ above, (Machine.step^[j + 1] (m.waiting c h)).stack =
      above ++ .hostCall c.waiting :: m.stack) (r : EngineResult)
      (control : (Machine.step^[j] (m.waiting c h)).control = .engine r) :
      (Machine.step^[j] (m.waiting c h)).stack ≠ .hostCall c.waiting :: m.stack := by
    obtain ⟨above, stands⟩ := stands
    rw [Function.iterate_succ_apply'] at stands
    exact (waits.iterate j).running stands r control
  rcases waits.returns rfl rfl with always | ⟨k, r, before, control, stack, -⟩
  · exact .inl fun sig _ j => (start sig).iterate waits fun i _ => running (always (i + 1))
  obtain ⟨call, below, slots, slot, returning⟩ := (waits.iterate k).returning control
  obtain ⟨rfl, rfl⟩ : call = c.waiting ∧ below = m.stack := by
    have same := returning.stack.symm.trans stack
    exact ⟨Frame.hostCall.inj (List.cons.inj same).1, (List.cons.inj same).2⟩
  let ended := (Machine.step^[k] (m.waiting c h)).closed c.waiting m.stack slots
  let o := resumed c.type.results slot r
  have ends : Machine.step^[k + 1] (m.waiting c h) = ended.resumeCall c o := by
    rw [Function.iterate_succ_apply', returning.step_eq (waits.iterate k)]
    rfl
  refine .inr ⟨k, ended, o, fun sig signature => ?_⟩
  have within (j : Nat) (le : j ≤ k) := (start sig).iterate waits (k := j) fun i less =>
    running (before (i + 1) (by omega))
  obtain ⟨above, stands, there⟩ := within k le_rfl
  obtain rfl : above = [] := List.append_left_eq_self.mp (stands.symm.trans stack)
  have coherent := (typed sig signature).iterate k
  -- The typed call is returned to in the same transition, with the same slots.
  have returning' : (Machine.step^[k] (m.waiting (c.typed sig) h)).Returning (c.typed sig).waiting
      m.stack slots slot r := by
    obtain ⟨call, below, slots', slot', returning'⟩ := coherent.returning (r := r) (by rw [there]; exact control)
    have stack' := returning'.stack
    have frames := returning'.frames
    rw [there] at stack' frames
    obtain ⟨call', rfl⟩ := List.cons.inj stack'
    obtain ⟨rfl, rfl⟩ := List.cons.inj (returning.frames.symm.trans frames)
    cases call'
    exact returning'
  refine ⟨within, rfl, ends, ?_, ?_⟩
  · rw [ends]
    exact resumes_resumeCall _ plain _
  · rw [Function.iterate_succ_apply', returning'.step_eq coherent, there]
    exact returning.decodes signature _

/-! ## Views -/

structure Live (m : Machine) (id : ObjId) (type : FuncType) (h : Handle) : Prop where
  handle : m.world.handle? id = some h
  native : ∃ f, m.world.shapes.native? h.native = some (.func f) ∧ f.type = type.toNative

/-- A function that a variable holds is live. -/
theorem Busy.live_func {m₀ : Machine} {extra : List ObjId} (busy : Busy m₀ extra m) {v : VarName}
    {id : ObjId} {type : FuncType} (func : m.lookup v = some (.func id type)) :
    ∃ h, m.Live id type h := by
  have usable := busy.lookup func
  obtain ⟨h, env, f, known, -, native, typed⟩ := usable.fits
  exact ⟨h, World.handle?_eq_some.mpr ⟨known, busy.alive usable id List.mem_cons_self⟩, f, native, typed⟩

/-- The function of a typed view is live, and the view describes its type. -/
theorem Busy.live_typedFunc {m₀ : Machine} {extra : List ObjId} (busy : Busy m₀ extra m) {v : VarName}
    {id : ObjId} {type : FuncType} {sig : TypedSignature}
    (view : m.lookup v = some (.typedFunc id type sig)) :
    sig.funcType = type ∧ ∃ h, m.Live id type h := by
  have usable := busy.lookup view
  obtain ⟨signature, h, env, f, known, -, native, typed⟩ := usable.fits
  exact ⟨signature, h, World.handle?_eq_some.mpr ⟨known, busy.alive usable id List.mem_cons_self⟩, f,
    native, typed⟩

section

variable {id : ObjId} {type : FuncType} {h : Handle} {args : List Operand} {ss : List (Scalar ObjId)}

/-- A call of a live function on arguments of its kinds waits for the engine. -/
theorem Coherent.waiting (coherent : m.Coherent) (running : m.control = .run)
    (waits : Frame.Waits m.stack) (live : m.Live id type h) (values : m.operands? args = some ss)
    (names : List VarName) {sig : Option TypedSignature} (sigs : ∀ s, sig = some s → s.funcType = type)
    (kinds : (TypeList.encode ss).map Val.kind = type.params) :
    (m.waiting ⟨id, type, TypeList.encode ss, names, sig⟩ h).Coherent := by
  obtain ⟨f, native, typed⟩ := live.native
  have poised := coherent.poised running waits
  have busy := coherent.busy (by rw [running]; rfl)
  have begun := poised.begun
    (poised.request busy live.handle native typed (busy.operands values) names sig sigs)
  unfold Machine.startCall at begun
  dsimp only at begun
  rw [argumentFault?_eq_none.mpr kinds] at begun
  exact begun

/-- The typed calls of a live function on arguments of its kinds. -/
theorem Coherent.typedCalls (coherent : m.Coherent) (running : m.control = .run)
    (waits : Frame.Waits m.stack) (live : m.Live id type h) (values : m.operands? args = some ss)
    (names : List VarName) (kinds : (TypeList.encode ss).map Val.kind = type.params) :
    TypedCalls m ⟨id, type, TypeList.encode ss, names, none⟩ h := by
  have plain : (m.waiting ⟨id, type, TypeList.encode ss, names, none⟩ h).Coherent :=
    coherent.waiting running waits live values names (fun _ none => nomatch none) kinds
  refine ⟨rfl, kinds, ⟨?_, fun differ => absurd (by rw [← kinds, List.length_map]) differ,
    fun _ differ => absurd kinds differ, fun _ => ⟨rfl, ?_⟩⟩, ?_⟩
  · obtain ⟨known, -⟩ := World.handle?_eq_some.mp live.handle
    obtain ⟨k, entry⟩ := World.isHandle_iff.mp known
    have fits : h.Fits m.world.shapes := coherent.world.objects entry
    obtain ⟨store, isStore, -⟩ := fits.state
    refine World.pending_flush (n := store) ?_
    rw [World.shapes_retainAll, World.shapes_retain]
    exact isStore
  · exact coherent.admission plain live.handle rfl
  · refine typedCalls_run rfl plain fun sig signature => ?_
    have sigs : ∀ s, some sig = some s → s.funcType = type := fun s same => by
      cases same
      exact signature
    exact coherent.waiting running waits live values names sigs kinds

/-- A typed call with arguments of the declared types waits for the engine under its signature. -/
theorem typedCall_eq {v : VarName} {sig : TypedSignature}
    (view : m.lookup v = some (.typedFunc id type sig)) (handle : m.world.handle? id = some h)
    (values : m.operands? args = some ss) (names : List VarName)
    (kinds : (TypeList.encode ss).map Val.kind = type.params) :
    m.typedCall v args names =
      m.waiting (CallRequest.typed ⟨id, type, TypeList.encode ss, names, none⟩ sig) h := by
  unfold Machine.typedCall Machine.withHandle Machine.withOperands
  rw [view]
  dsimp only
  rw [handle]
  dsimp only
  rw [values]
  dsimp only
  unfold Machine.startCall
  dsimp only
  rw [argumentFault?_eq_none.mpr kinds]
  rfl

end

/-! ## What a view gives -/

theorem find?_insert (s : Scope) (name : String) (item : Item) :
    (s.insert name item).find? name = some item := by
  unfold Scope.find?
  fun_induction Scope.insert name item s with
  | case1 => simp
  | case2 => simp
  | case3 n i rest differ ih =>
      rw [List.lookup_cons, beq_false_of_ne (Ne.symm differ)]
      exact ih

/-- A variable that is set holds what it is set to. -/
theorem lookup_assign (m : Machine) (v : VarName) (item : Item) :
    (m.assign v item).lookup v = some item := by
  have set (w : World) :
      ((m.setScope v ((m.scope v).insert v.base item)).withWorld w).lookup v = some item := by
    rcases v with name | name
    · unfold Machine.setScope Machine.scope Machine.withWorld Machine.lookup Machine.locals
        Machine.captures
      cases m.context <;> simp only [VarName.base, find?_insert, Option.some_or]
      all_goals rfl
    · exact find?_insert m.globals name item
  unfold Machine.assign
  dsimp only
  split
  · exact set _
  · exact set (m.setScope v ((m.scope v).insert v.base item)).world

/-- What asking for a typed view of a live function does: it is granted exactly for the kinds of the
function, and then the name holds it; a refusal tells the requested type and that of the function. -/
structure Granted (m : Machine) (g : Guard) (name : VarName) (id : ObjId) (type : FuncType)
    (sig : TypedSignature) (viewed : Machine) : Prop where
  live : ∃ h, m.Live id type h
  success : viewed.control = .complete (.done .ok) ↔
    sig.params.kinds = type.params ∧ sig.results.kinds = type.results
  held : viewed.control = .complete (.done .ok) → viewed.lookup name = some (.typedFunc id type sig)
  mismatch : sig.funcType ≠ type → viewed = m.refuse g (.signatureMismatch sig.funcType type)

/-- What a typed call of a view does: the view describes the function, the arguments have its kinds,
and the call waits for the engine as a plain call on the encoded arguments does. -/
structure TypedAnswer (m : Machine) (v : VarName) (args : List Operand) (c : CallRequest)
    (sig : TypedSignature) (h : Handle) : Prop where
  signature : sig.funcType = c.type
  live : m.Live c.func c.type h
  typed : m.typedCall v args c.bind = m.waiting (c.typed sig) h
  plain : ∀ {w : VarName} {args' : List Operand} {ss : List (Scalar ObjId)},
    m.lookup w = some (.func c.func c.type) → m.operands? args' = some ss →
      TypeList.encode ss = c.args → m.call w args' c.bind = m.waiting c h
  calls : TypedCalls m c h

/-- Typed calls of one function under two signatures end alike, with results of the same bits. -/
def Agree (m : Machine) (c : CallRequest) (h : Handle) (sig sig' : TypedSignature) : Prop :=
  (∀ j, Exchanged c.waiting (c.typed sig).waiting m.stack
      (Machine.step^[j] (m.waiting c h)) (Machine.step^[j] (m.waiting (c.typed sig) h)) ∧
    Exchanged c.waiting (c.typed sig').waiting m.stack
      (Machine.step^[j] (m.waiting c h)) (Machine.step^[j] (m.waiting (c.typed sig') h))) ∨
  ∃ k ended o, EndAlike m c sig (m.waiting c h) (m.waiting (c.typed sig) h) k ended o ∧
    EndAlike m c sig' (m.waiting c h) (m.waiting (c.typed sig') h) k ended o ∧
    ∀ vals, o = .returned vals → ∃ rs rs', sig.results.decode vals = .ok rs ∧
      sig'.results.decode vals = .ok rs' ∧ List.Forall₂ Scalar.Reinterprets rs rs'

/-- Typed views of functions: when they are granted, what their calls do, how two views of one function
on arguments of the same bits compare, and that the steps of a script are these. -/
structure TypedViews (m : Machine) : Prop where
  granted : ∀ {v : VarName} {id : ObjId} {type : FuncType}, m.lookup v = some (.func id type) →
    ∀ g name sig, Granted m g name id type sig (m.newTyped g name v sig)
  answers : ∀ {v : VarName} {id : ObjId} {type : FuncType} {sig : TypedSignature} {args : List Operand}
    {ss : List (Scalar ObjId)}, m.lookup v = some (.typedFunc id type sig) →
    m.operands? args = some ss → ss.map Scalar.type = sig.params.types → ∀ names,
    ∃ h, TypedAnswer m v args ⟨id, type, TypeList.encode ss, names, none⟩ sig h
  agree : ∀ {v v' : VarName} {id : ObjId} {type : FuncType} {sig sig' : TypedSignature}
    {args args' : List Operand} {ss ss' : List (Scalar ObjId)},
    m.lookup v = some (.typedFunc id type sig) → m.lookup v' = some (.typedFunc id type sig') →
    m.operands? args = some ss → m.operands? args' = some ss' →
    ss.map Scalar.type = sig.params.types → ss'.map Scalar.type = sig'.params.types →
    List.Forall₂ Scalar.Reinterprets ss ss' → ∀ names, ∃ c h, c.bind = names ∧
      m.typedCall v args names = m.waiting (c.typed sig) h ∧
      m.typedCall v' args' names = m.waiting (c.typed sig') h ∧ Agree m c h sig sig'
  steps : ∀ {outer index g s rest below}, m.stack = .block outer index ((g, s) :: rest) :: below →
    (∀ v args names, s = .typedCall v args names → m.step = m.typedCall v args names) ∧
    ∀ name v sig, s = .plain (.typed name v sig) → m.step = m.newTyped g name v sig

theorem TypedCalls.agree {c : CallRequest} {h : Handle} (calls : TypedCalls m c h)
    {sig sig' : TypedSignature} (signature : sig.funcType = c.type) (signature' : sig'.funcType = c.type) :
    Agree m c h sig sig' := by
  rcases calls.runs with always | ⟨k, ended, o, ends⟩
  · exact .inl fun j => ⟨always sig signature j, always sig' signature' j⟩
  refine .inr ⟨k, ended, o, ends sig signature, ends sig' signature', fun vals returned => ?_⟩
  subst returned
  have decodes := (ends sig signature).decodes
  have decodes' := (ends sig' signature').decodes
  cases decodes with
  | returned decoded bits =>
      cases decodes' with
      | returned decoded' bits' =>
          exact ⟨_, _, decoded, decoded', Scalar.forall₂_reinterprets_iff.mpr (bits.trans bits'.symm)⟩

theorem refuse_ne_ok (m : Machine) (g : Guard) (e : ApiError) :
    (m.refuse g e).control ≠ .complete (.done .ok) := by
  unfold Machine.refuse
  split
  · exact fun same => nomatch same
  · exact fun same => nomatch same

theorem Busy.granted {m₀ : Machine} {extra : List ObjId} (busy : Busy m₀ extra m) {v : VarName}
    {id : ObjId} {type : FuncType} (func : m.lookup v = some (.func id type)) (g : Guard) (name : VarName)
    (sig : TypedSignature) : Granted m g name id type sig (m.newTyped g name v sig) := by
  have kinds : sig.params.kinds = type.params ∧ sig.results.kinds = type.results ↔ sig.funcType = type := by
    cases type
    simp [TypedSignature.funcType]
  have result : m.newTyped g name v sig =
      if sig.funcType = type then (m.assignCopy name (.typedFunc id type sig)).finish .ok
      else m.refuse g (.signatureMismatch sig.funcType type) := by
    unfold Machine.newTyped
    rw [func]
  rw [result]
  by_cases same : sig.funcType = type
  · rw [if_pos same]
    exact ⟨busy.live_func func, iff_of_true rfl (kinds.mpr same), fun _ => lookup_assign _ name _,
      fun differ => absurd same differ⟩
  · rw [if_neg same]
    exact ⟨busy.live_func func, iff_of_false (refuse_ne_ok m g _) fun equal => same (kinds.mp equal),
      fun ok => absurd ok (refuse_ne_ok m g _), fun _ => rfl⟩

theorem Coherent.typedAnswer (coherent : m.Coherent) (running : m.control = .run)
    (waits : Frame.Waits m.stack) {v : VarName} {id : ObjId} {type : FuncType} {sig : TypedSignature}
    (view : m.lookup v = some (.typedFunc id type sig)) {args : List Operand} {ss : List (Scalar ObjId)}
    (values : m.operands? args = some ss) (types : ss.map Scalar.type = sig.params.types)
    (names : List VarName) :
    ∃ h, TypedAnswer m v args ⟨id, type, TypeList.encode ss, names, none⟩ sig h := by
  have busy := coherent.busy (by rw [running]; rfl)
  obtain ⟨signature, h, live⟩ := busy.live_typedFunc view
  have kinds : (TypeList.encode ss).map Val.kind = type.params := by
    rw [sig.params.kinds_encode types, ← signature]
    rfl
  refine ⟨h, signature, live, typedCall_eq view live.handle values names kinds, ?_,
    coherent.typedCalls running waits live values names kinds⟩
  intro w args' ss' func values' bits
  have call := call_eq func live.handle values' names
  have bits : TypeList.encode ss' = TypeList.encode ss := bits
  rw [bits, argumentFault?_eq_none.mpr kinds] at call
  exact call

/-- Typed views in a coherent machine. -/
theorem Coherent.typedViews (coherent : m.Coherent) (running : m.control = .run)
    (waits : Frame.Waits m.stack) : TypedViews m where
  granted func g name sig := (coherent.busy (by rw [running]; rfl)).granted func g name sig
  answers view values types names := coherent.typedAnswer running waits view values types names
  agree {v v' id type sig sig' args args' ss ss'} view view' values values' types types' alike names := by
    obtain ⟨h, answers⟩ := coherent.typedAnswer running waits view values types names
    obtain ⟨h', answers'⟩ := coherent.typedAnswer running waits view' values' types' names
    have bits := Scalar.forall₂_reinterprets_iff.mp alike
    obtain rfl : h = h' := Option.some.inj (answers.live.handle.symm.trans answers'.live.handle)
    refine ⟨_, h, rfl, answers.typed, ?_, answers.calls.agree answers.signature answers'.signature⟩
    rw [bits]
    exact answers'.typed
  steps {outer index g s rest below} stack := by
    have step : m.step = m.begin g s := by
      rw [coherent.step_eq, running, stack]
    refine ⟨fun v args names same => ?_, fun name v sig same => ?_⟩
    · rw [step, same]
      rfl
    · rw [step, same]
      rfl

/-- In every state that a public script leads to, typed views of functions are granted exactly for the
kinds of the function, and every typed call is the call of the function on the encoded arguments, with
its results decoded. -/
theorem typedViews_after (level : Option LogLevel) {script : Block}
    (isPublic : Block.isPublic script = true) (n : Nat)
    (running : (after level script n).control = .run)
    (waits : Frame.Waits (after level script n).stack) : TypedViews (after level script n) :=
  (coherent_after level isPublic n).typedViews running waits

/-- A function that adds one, viewed under a signed and under an unsigned signature. -/
def viewing : Block :=
  [(⟨false, false⟩, .plain (.store (.scoped "s") none)),
    (⟨false, false⟩, .func (.scoped "f") (.scoped "s") (.generic ⟨[.i32], [.i32]⟩) "next" false []
      [(⟨false, false⟩, .plain (.add (.scoped "r") (.var (.scoped "a0")) (.literal (.i32 1)))),
        (⟨false, false⟩, .plain (.giveBack [.var (.scoped "r")]))]),
    (⟨false, false⟩, .plain (.typed (.scoped "i") (.scoped "f") ⟨.single .i32, .single .i32⟩)),
    (⟨false, false⟩, .plain (.typed (.scoped "u") (.scoped "f") ⟨.single .u32, .single .u32⟩)),
    (⟨false, false⟩, .typedCall (.scoped "u") [.literal (.u32 4294967294)] [.scoped "x"])]

/-- The fifth step of the script calls the function on `-2` and decodes what it returns as unsigned, and
the same call under the signed view ends with results of the same bits. -/
theorem typedViews_after_viewing : Block.isPublic viewing = true ∧
    (∃ h, TypedAnswer (after none viewing 8) (.scoped "u") [.literal (.u32 4294967294)]
      ⟨⟨3⟩, ⟨[.i32], [.i32]⟩, [.i32 (-2)], [.scoped "x"], none⟩ ⟨.single .u32, .single .u32⟩ h) ∧
    ∃ c h, c.bind = [.scoped "x"] ∧
      after none viewing 9 = (after none viewing 8).waiting (c.typed ⟨.single .u32, .single .u32⟩) h ∧
      Agree (after none viewing 8) c h ⟨.single .i32, .single .i32⟩ ⟨.single .u32, .single .u32⟩ := by
  have isPublic : Block.isPublic viewing = true := by decide
  have views := typedViews_after none isPublic 8 rfl trivial
  have signed : (after none viewing 8).lookup (.scoped "i") =
      some (.typedFunc ⟨3⟩ ⟨[.i32], [.i32]⟩ ⟨.single .i32, .single .i32⟩) := rfl
  have unsigned : (after none viewing 8).lookup (.scoped "u") =
      some (.typedFunc ⟨3⟩ ⟨[.i32], [.i32]⟩ ⟨.single .u32, .single .u32⟩) := rfl
  have alike : List.Forall₂ (@Scalar.Reinterprets ObjId) [.i32 (-2)] [.u32 4294967294] :=
    .cons (.unsigned32 (by decide)) .nil
  have values : (after none viewing 8).operands? [.literal (.i32 (-2))] = some [.i32 (-2)] := rfl
  have values' : (after none viewing 8).operands? [.literal (.u32 4294967294)] =
      some [.u32 4294967294] := rfl
  refine ⟨isPublic, views.answers unsigned values' rfl _, ?_⟩
  obtain ⟨c, h, names, -, typed, agree⟩ :=
    views.agree signed unsigned values values' rfl rfl alike [.scoped "x"]
  refine ⟨c, h, names, ?_, agree⟩
  rw [after_succ, ← typed]
  exact (views.steps rfl).1 _ _ _ rfl

end Machine

end HostEmbedding
