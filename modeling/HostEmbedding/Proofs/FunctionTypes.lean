import HostEmbedding.Proofs.Native.TrapText
import HostEmbedding.Proofs.ViewChains

/-!
# Function types

A native function type is made of bytes that stand for kinds, and gives back the bytes it was made of.
Reading it as a type skips bytes that stand for no kind, but none is ever let in. So the type a function
was created with is what every view of it reads, and its arities are those of the native side.
-/

namespace HostEmbedding

/-! ## Native types -/

namespace NativeFuncType

variable {params results : List UInt8} {t : NativeFuncType}

/-- The bytes that are let in are the codes of the five kinds. -/
theorem isKind_iff {c : UInt8} : isKind c = true ↔ c ∈ Kind.all.map Kind.code := by
  constructor
  · intro known
    obtain ⟨k, read⟩ := Option.isSome_iff_exists.mp known
    rw [← Kind.code_of_ofCode? read]
    cases k <;> decide
  · intro mem
    obtain ⟨k, -, rfl⟩ := List.mem_map.mp mem
    exact Option.isSome_iff_exists.mpr ⟨k, k.ofCode?_code⟩

/-- A type is made exactly of codes of kinds, and is made of those codes. -/
theorem create?_eq_some : create? params results = some t ↔
    (∀ c ∈ params ++ results, c ∈ Kind.all.map Kind.code) ∧ t = ⟨params, results⟩ := by
  unfold create?
  rw [← forall₂_congr fun c _ => isKind_iff, ← List.all_eq_true]
  split
  · next known => rw [Option.some.injEq, and_iff_right known, eq_comm]
  · next unknown => exact ⟨nofun, fun made => absurd made.1 unknown⟩

theorem create?_eq_none : create? params results = none ↔
    ¬ ∀ c ∈ params ++ results, c ∈ Kind.all.map Kind.code := by
  rw [← Option.not_isSome_iff_eq_none, Option.isSome_iff_exists]
  exact not_congr ⟨fun ⟨_, made⟩ => (create?_eq_some.mp made).1,
    fun known => ⟨_, create?_eq_some.mpr ⟨known, rfl⟩⟩⟩

end NativeFuncType

namespace FuncType

/-- Codes of kinds are read without skipping any. -/
theorem codes_read {codes : List UInt8} (known : ∀ c ∈ codes, c ∈ Kind.all.map Kind.code) :
    (codes.filterMap Kind.ofCode?).map Kind.code = codes := by
  induction codes with
  | nil => rfl
  | cons c codes ih =>
      obtain ⟨k, -, rfl⟩ := List.mem_map.mp (known c List.mem_cons_self)
      rw [List.filterMap_cons_some k.ofCode?_code, List.map_cons,
        ih fun d mem => known d (List.mem_cons_of_mem _ mem)]

/-- The native form of a type is always let in. -/
theorem create?_toNative (t : FuncType) :
    NativeFuncType.create? t.toNative.params t.toNative.results = some t.toNative := by
  refine NativeFuncType.create?_eq_some.mpr ⟨fun c mem => ?_, rfl⟩
  unfold toNative at mem
  rw [← List.map_append] at mem
  obtain ⟨k, -, rfl⟩ := List.mem_map.mp mem
  cases k <;> decide

/-- Reading a native type loses nothing of what was let in. -/
theorem toNative_ofNative {params results : List UInt8} {t : NativeFuncType}
    (made : NativeFuncType.create? params results = some t) : (ofNative t).toNative = t := by
  obtain ⟨known, rfl⟩ := NativeFuncType.create?_eq_some.mp made
  unfold ofNative toNative
  rw [codes_read fun c mem => known c (List.mem_append_left _ mem),
    codes_read fun c mem => known c (List.mem_append_right _ mem)]

end FuncType

namespace Machine

variable {m : Machine} {n : NativeId} {g : Guard}

/-! ## Native types and functions on a run -/

/-- From some state on the engine has a function type, and as long as it is not deleted, its kinds are read
through every pointer. -/
structure KeepsType (run : Nat → Machine) (j : Nat) (n : NativeId) (t : NativeFuncType) : Prop where
  object : ∀ k ≥ j, (run k).world.nativeObject? n = some (.funcType t)
  params : ∀ k ≥ j, ∀ g name p o, (run k).objectNamed? p = some (n, o) →
    (run k).AtStep g (.native name (.funcTypeParams p)) →
    (run (k + 1)).control = .complete (.done (.codes t.params))
  results : ∀ k ≥ j, ∀ g name p o, (run k).objectNamed? p = some (n, o) →
    (run k).AtStep g (.native name (.funcTypeResults p)) →
    (run (k + 1)).control = .complete (.done (.codes t.results))

/-- From some state on the engine has a function, whose type never changes: its arities are read from it, and
so is every copy of the type. -/
structure KeepsFunc (run : Nat → Machine) (j : Nat) (n : NativeId) (f : NativeFunc) : Prop where
  object : ∀ k ≥ j, (run k).world.nativeObject? n = some (.func f)
  params : ∀ k ≥ j, ∀ g name p o, (run k).objectNamed? p = some (n, o) →
    (run k).AtStep g (.native name (.funcParamArity p)) →
    (run (k + 1)).control = .complete (.done (.nat f.type.params.length))
  results : ∀ k ≥ j, ∀ g name p o, (run k).objectNamed? p = some (n, o) →
    (run k).AtStep g (.native name (.funcResultArity p)) →
    (run (k + 1)).control = .complete (.done (.nat f.type.results.length))
  type : ∀ k ≥ j, ∀ g name p o, (run k).objectNamed? p = some (n, o) →
    (run k).AtStep g (.native (some name) (.funcType p)) →
    ∃ x, (run (k + 1)).lookup name = some (.raw x) ∧ KeepsType run (k + 1) x f.type

section

variable {run : Nat → Machine} (steps : ∀ k, run (k + 1) = (run k).step)

include steps

theorem keepsType {j : Nat} {t : NativeFuncType} (made : (run j).world.nativeObject? n = some (.funcType t)) :
    KeepsType run j n t := by
  have object (k : Nat) (le : j ≤ k) := settled_persists (o := .funcType t) steps trivial le made
  have named {k : Nat} (le : j ≤ k) {p : Option VarName} {o : Native}
      (pointed : (run k).objectNamed? p = some (n, o)) : o = .funcType t :=
    Option.some.inj ((nativeObject?_of_named pointed).symm.trans (object k le))
  refine ⟨object, fun k le g name p o pointed begins => ?_, fun k le g name p o pointed begins => ?_⟩
  · obtain rfl := named le pointed
    rw [steps, begins.step_eq]
    show ((run k).withObject p _).control = _
    rw [withObject_of_named pointed]
    rfl
  · obtain rfl := named le pointed
    rw [steps, begins.step_eq]
    show ((run k).withObject p _).control = _
    rw [withObject_of_named pointed]
    rfl

theorem keepsFunc {j : Nat} {f : NativeFunc} (made : (run j).world.nativeObject? n = some (.func f)) :
    KeepsFunc run j n f := by
  have object (k : Nat) (le : j ≤ k) := settled_persists (o := .func f) steps trivial le made
  have named {k : Nat} (le : j ≤ k) {p : Option VarName} {o : Native}
      (pointed : (run k).objectNamed? p = some (n, o)) : o = .func f :=
    Option.some.inj ((nativeObject?_of_named pointed).symm.trans (object k le))
  refine ⟨object, fun k le g name p o pointed begins => ?_, fun k le g name p o pointed begins => ?_,
    fun k le g name p o pointed begins => ?_⟩
  · obtain rfl := named le pointed
    rw [steps, begins.step_eq]
    show ((run k).withNativeFunc p _).control = _
    unfold withNativeFunc
    rw [withObject_of_named pointed]
    rfl
  · obtain rfl := named le pointed
    rw [steps, begins.step_eq]
    show ((run k).withNativeFunc p _).control = _
    unfold withNativeFunc
    rw [withObject_of_named pointed]
    rfl
  · obtain rfl := named le pointed
    have step : run (k + 1) = (run k).giveNew (some name) (.funcType f.type) := by
      rw [steps, begins.step_eq]
      show (run k).withNativeFunc p _ = _
      unfold withNativeFunc
      rw [withObject_of_named pointed]
    obtain ⟨-, there, bound⟩ := (run k).allocNative_kept (.funcType f.type) name
    refine ⟨((run k).world.allocNative (.funcType f.type)).1, ?_, keepsType steps ?_⟩
    · rw [step]
      exact bound
    · rw [step]
      exact there

end

/-- A step that makes a function type. -/
theorem AtStep.funcTypeNew {name : Option VarName} {params results : RawArray UInt8}
    (begins : m.AtStep g (.native name (.funcTypeNew params results))) : m.step =
      match NativeFuncType.create? params.toList results.toList with
      | some t => m.giveNew name (.funcType t)
      | none => m.finish .null := by
  rw [begins.step_eq]
  rfl

/-! ## Functions and their views -/

def Creates (m : Machine) (type : FuncType) (x : ObjId) : Prop :=
  ∃ g name store shape label quiet captures body,
    m.AtStep g (.func name store shape label quiet captures body) ∧ type = shape.funcType ∧
      m.step.control = .complete (.done (.text type.text)) ∧ m.step.named? name = some x

/-- A step that creates a function puts it under the name, unless its store or its captures are not there. -/
theorem newFunc_cases (m : Machine) (name v : VarName) (code : HostCode) (captures : List VarName) :
    (∃ w, m.newFunc name v code captures = (m.withWorld w).unusable v) ∨
      ∃ h w, m.newFunc name v code captures =
        ((m.withWorld w).assign name (.func h code.shape.funcType)).finish
          (.text code.shape.funcType.text) := by
  unfold newFunc withStore
  split
  · next s _ =>
      dsimp only
      split
      · exact .inl ⟨m.world, rfl⟩
      · next items _ =>
          split
          · next h w _ => exact .inr ⟨h, w, rfl⟩
          · next w _ => exact .inl ⟨w, rfl⟩
  · exact .inl ⟨m.world, rfl⟩

/-- A function that has been created is held with its type. -/
theorem Creates.holds {type : FuncType} {x : ObjId} (creates : m.Creates type x) :
    m.step.control.refs = [] ∧ ∃ name, m.step.lookup name = some (.func x type) := by
  obtain ⟨g, name, store, shape, label, quiet, captures, body, begins, rfl, told, named⟩ := creates
  have step : m.step = m.newFunc name store ⟨label, quiet, shape, body⟩ captures := begins.step_eq
  refine ⟨by rw [told]; rfl, name, ?_⟩
  rw [step] at told named ⊢
  rcases m.newFunc_cases name store ⟨label, quiet, shape, body⟩ captures with ⟨w, same⟩ | ⟨h, w, same⟩
  · rw [same] at told
    cases told
  · have bound : (((m.withWorld w).assign name (.func h shape.funcType)).finish
        (.text shape.funcType.text)).lookup name = some (.func h shape.funcType) := lookup_assign _ _ _
    rw [same] at named ⊢
    unfold named? at named
    rw [bound] at named
    obtain rfl : h = x := Option.some.inj named
    exact bound

variable {type : FuncType} {x y : ObjId} {h l : Handle}

/-- The native function of a live function. -/
theorem Live.object (live : m.Live x type h) :
    ∃ f, m.world.nativeObject? h.native = some (.func f) ∧ f.type = type.toNative := by
  obtain ⟨f, known, typed⟩ := live.native
  obtain ⟨o, found, shape⟩ := World.nativeObject_of_shape known
  cases o with
  | func f' =>
      obtain rfl : f' = f := Native.func.inj shape
      exact ⟨f', found, typed⟩
  | _ => cases shape

/-- A handle tells a type: its native function is of it, and so is everything that is held of it, read
through it or answered about it. -/
structure Tells (m : Machine) (y : ObjId) (l : Handle) (type : FuncType) : Prop where
  /-- The native side has the type, and reads as it. -/
  native : ∃ f, m.world.nativeFunc? l.native = some f ∧ f.type = type.toNative ∧
    FuncType.ofNative f.type = type
  /-- A function that is held of it, or a copy of one, has the type. -/
  held : ∀ v type', m.lookup v = some (.func y type') → type' = type
  /-- So has a typed view, and its signature describes the type. -/
  typed : ∀ v type' sig, m.lookup v = some (.typedFunc y type' sig) → type' = type ∧ sig.funcType = type
  /-- Taking it back as a function succeeds, and yields a function of the type. -/
  taken : ∀ g v name, m.named? v = some y →
    (m.perform g (.intoFunc name v)).control = .complete (.done (.bool true)) ∧
      ∃ z, (m.perform g (.intoFunc name v)).lookup name = some (.func z type)
  /-- Asking for the type and the arities tells the type and its lengths. -/
  told : ∀ g v type', m.lookup v = some (.func y type') → m.perform g (.funcType v) =
    m.finish (.funcType type (type.params.length, type.results.length))

/-- A live handle whose native function is of a type tells that type. -/
theorem Coherent.tells (coherent : m.Coherent) (running : m.control = .run)
    (found : m.world.handle? y = some l) {f : NativeFunc}
    (object : m.world.nativeObject? l.native = some (.func f)) (typed : f.type = type.toNative) :
    m.Tells y l type := by
  have busy := coherent.busy (by rw [running]; rfl)
  have shape : m.world.shapes.native? l.native = some (.func f) := by
    simp [World.shapes, object, Native.shape]
  have known : m.world.shapes.kind? l.native = some .func :=
    Option.bind_eq_some_iff.mpr ⟨_, shape, rfl⟩
  have native : m.world.nativeFunc? l.native = some f := by
    obtain ⟨f', native, -⟩ := coherent.world.toBalanced.live_func found known
    have same := World.shapes_of_native? (World.nativeFunc?_eq_some.mp native)
    obtain rfl : f' = f := Native.func.inj (Option.some.inj (same.symm.trans shape))
    exact native
  have reads : FuncType.ofNative f.type = type := by rw [typed, FuncType.ofNative_toNative]
  have agrees {type' : FuncType} {h : Handle} (live : m.Live y type' h) : type' = type := by
    obtain rfl : h = l := Option.some.inj (live.handle.symm.trans found)
    obtain ⟨f', shape', typed'⟩ := live.native
    obtain rfl : f' = f := Native.func.inj (Option.some.inj (shape'.symm.trans shape))
    rw [← FuncType.ofNative_toNative type', ← typed', reads]
  constructor
  case native => exact ⟨f, native, typed, reads⟩
  case held =>
      intro v type' holds
      obtain ⟨h, live⟩ := busy.live_func holds
      exact agrees live
  case typed =>
      intro v type' sig holds
      obtain ⟨signature, h, live⟩ := busy.live_typedFunc holds
      obtain rfl := agrees live
      exact ⟨rfl, signature⟩
  case taken =>
      intro g v name named
      have step := externToFunc_eq (handleNamed?_eq_some named found) name
      rw [native] at step
      dsimp only at step
      rw [reads] at step
      rw [show m.perform g (.intoFunc name v) = _ from step]
      exact ⟨rfl, _, lookup_viewed ..⟩
  case told =>
      intro g v type' holds
      obtain ⟨h, live⟩ := busy.live_func holds
      obtain rfl := agrees live
      exact (coherent.tells_type running holds found).2 g

theorem Chain.le {run : Nat → Machine} {j k : Nat} (chain : Chain run j x k y) : j ≤ k := by
  induction chain with
  | original => exact Nat.le_refl j
  | keeps _ ih | converts _ _ ih => exact Nat.le_succ_of_le ih

/-! ## Every run -/

/-- Native types and functions, in every state of a run. -/
structure FunctionTypes (run : Nat → Machine) : Prop where
  /-- A native type is made exactly of codes of kinds, and has those codes. -/
  accepts : ∀ params results t, NativeFuncType.create? params results = some t ↔
    (∀ c ∈ params ++ results, c ∈ Kind.all.map Kind.code) ∧ t = ⟨params, results⟩
  /-- The native form of a type is let in, and read back as the type. -/
  returns : ∀ t : FuncType, NativeFuncType.create? t.toNative.params t.toNative.results = some t.toNative ∧
    FuncType.ofNative t.toNative = t
  /-- No byte is skipped in reading what was let in. -/
  lossless : ∀ params results t, NativeFuncType.create? params results = some t →
    (FuncType.ofNative t).toNative = t
  /-- A step that makes a type of codes of kinds returns a pointer to it, and its lists are given back from
  then on. -/
  made : ∀ k g name params results, (run k).AtStep g (.native (some name) (.funcTypeNew params results)) →
    (∀ c ∈ params.toList ++ results.toList, c ∈ Kind.all.map Kind.code) →
    (run (k + 1)).control = .complete (.done .pointer) ∧ ∃ n, (run k).world.nativeObject? n = none ∧
      (run (k + 1)).lookup name = some (.raw n) ∧ KeepsType run (k + 1) n ⟨params.toList, results.toList⟩
  /-- Of anything else it makes none. -/
  refused : ∀ k g name params results, (run k).AtStep g (.native name (.funcTypeNew params results)) →
    (¬ ∀ c ∈ params.toList ++ results.toList, c ∈ Kind.all.map Kind.code) →
    run (k + 1) = (run k).finish .null
  /-- The type of a function never changes. -/
  funcs : ∀ j n f, (run j).world.nativeObject? n = some (.func f) → KeepsFunc run j n f

/-- Functions and their views, in every state of a run. -/
structure FunctionViews (level : Option LogLevel) (script : Block) : Prop where
  /-- A function is held with the type it is created with, and the native side has that type. -/
  created : ∀ j type x, (after level script j).Creates type x →
    (∃ name, (after level script (j + 1)).lookup name = some (.func x type)) ∧
      ∃ h f, (after level script (j + 1)).world.handle? x = some h ∧ f.type = type.toNative ∧
        KeepsFunc (after level script) (j + 1) h.native f
  /-- Whatever a chain of views leads to from it, at any later time, tells that type. -/
  views : ∀ j type x h k y l, (after level script j).Creates type x →
    ViewAt level script (j + 1) x h k y l → (after level script k).control = .run →
    (after level script k).Tells y l type

/-- Types keep their kinds on every run of every script, and on every run of a public script every view of a
function tells the type the function was created with. -/
theorem functionTypes_after (level : Option LogLevel) (script : Block) :
    FunctionTypes (after level script) ∧
      (Block.isPublic script = true → FunctionViews level script) := by
  have steps := after_succ level script
  constructor
  · constructor
    case accepts =>
        intro params results t
        exact NativeFuncType.create?_eq_some
    case returns =>
        intro t
        exact ⟨t.create?_toNative, FuncType.ofNative_toNative t⟩
    case lossless =>
        intro params results t made
        exact FuncType.toNative_ofNative made
    case made =>
        intro k g name params results begins known
        have step := begins.funcTypeNew
        rw [NativeFuncType.create?_eq_some.mpr ⟨known, rfl⟩, ← steps] at step
        obtain ⟨absent, there, bound⟩ := (after level script k).allocNative_kept
          (.funcType ⟨params.toList, results.toList⟩) name
        rw [step]
        exact ⟨rfl, _, absent, bound, keepsType steps (step ▸ there)⟩
    case refused =>
        intro k g name params results begins unknown
        have step := begins.funcTypeNew
        rwa [NativeFuncType.create?_eq_none.mpr unknown, ← steps] at step
    case funcs =>
        intro j n f made
        exact keepsFunc steps made
  · intro isPublic
    have coherent := coherent_after level isPublic
    have created {j : Nat} {type : FuncType} {x : ObjId} (creates : (after level script j).Creates type x) :
        ∃ h f, (after level script (j + 1)).world.handle? x = some h ∧ f.type = type.toNative ∧
          KeepsFunc (after level script) (j + 1) h.native f := by
      obtain ⟨idle, name, holds⟩ := creates.holds
      rw [← steps] at idle holds
      obtain ⟨h, live⟩ := ((coherent (j + 1)).busy idle).live_func holds
      obtain ⟨f, object, typed⟩ := live.object
      exact ⟨h, f, live.handle, typed, keepsFunc steps object⟩
    constructor
    case created =>
        intro j type x creates
        obtain ⟨-, name, holds⟩ := creates.holds
        rw [← steps] at holds
        exact ⟨⟨name, holds⟩, created creates⟩
    case views =>
        intro j type x h k y l creates view running
        obtain ⟨h', f, found, typed, kept⟩ := created creates
        obtain rfl : h' = h := Option.some.inj (found.symm.trans view.original)
        have object := kept.object k view.chain.le
        rw [← (view.native isPublic).2] at object
        exact (coherent k).tells running view.live object typed

/-- A function that is viewed and taken back, and then dropped. -/
def retakenFunc : Block :=
  [(⟨false, false⟩, .plain (.store (.scoped "s") none)),
    (⟨false, false⟩, .func (.scoped "f") (.scoped "s") (.generic ⟨[.externref, .i32], [.f64]⟩) "f" false [] []),
    (⟨false, false⟩, .plain (.asExtern (.scoped "e") (.scoped "f"))),
    (⟨false, false⟩, .plain (.intoFunc (.scoped "g") (.scoped "e"))),
    (⟨false, false⟩, .plain (.drop (.scoped "f"))),
    (⟨false, false⟩, .plain (.funcType (.scoped "g")))]

/-- What was taken back tells the type of the function. -/
theorem functionTypes_after_retakenFunc : Block.isPublic retakenFunc = true ∧
    (after none retakenFunc 2).Creates ⟨[.externref, .i32], [.f64]⟩ ⟨3⟩ ∧
    (after none retakenFunc 10).Tells ⟨5⟩ ⟨⟨1⟩, ⟨0⟩, some ⟨3⟩, .func none⟩ ⟨[.externref, .i32], [.f64]⟩ := by
  have isPublic : Block.isPublic retakenFunc = true := by decide
  have creates : (after none retakenFunc 2).Creates ⟨[.externref, .i32], [.f64]⟩ ⟨3⟩ :=
    ⟨_, _, _, _, _, _, _, _, ⟨rfl, rfl, _, _, _, _, rfl⟩, rfl, rfl, rfl⟩
  have viewed : (after none retakenFunc 4).Converts ⟨3⟩ ⟨4⟩ :=
    ⟨_, _, _, _, _, ⟨rfl, rfl, _, _, _, _, rfl⟩, .view _ _, rfl, rfl, rfl⟩
  have taken : (after none retakenFunc 6).Converts ⟨4⟩ ⟨5⟩ :=
    ⟨_, _, _, _, _, ⟨rfl, rfl, _, _, _, _, rfl⟩, .func _ _, rfl, rfl, rfl⟩
  have view : ViewAt none retakenFunc 3 ⟨3⟩ ⟨⟨1⟩, ⟨0⟩, none, .func (some ⟨2⟩)⟩ 10 ⟨5⟩
      ⟨⟨1⟩, ⟨0⟩, some ⟨3⟩, .func none⟩ :=
    ⟨rfl, ((Chain.original.keeps.converts viewed).keeps.converts taken).later 3, rfl⟩
  exact ⟨isPublic, creates, ((functionTypes_after none retakenFunc).2 isPublic).views 2 _ _ _ 10 _ _
    creates view rfl⟩

end Machine

end HostEmbedding
