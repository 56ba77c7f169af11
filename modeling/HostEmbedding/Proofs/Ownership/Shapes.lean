import HostEmbedding.Proofs.Ownership.Holdings
import HostEmbedding.Proofs.Public

/-!
# Shapes

The shape of an object is what never changes about it: all but the queues of a store, the closure of
an environment and the content of a cell. The shape of a native object leaves out what a store
counts and what a memory holds. Whether an item, a handle or an object fits depends on the shapes
alone, so it outlasts every operation that only adds shapes.
-/

namespace HostEmbedding

/-- The environment of a closure, which is made right after it. -/
def ObjId.env (c : ObjId) : ObjId := ⟨c.index + 1⟩

/-- What never changes about an object. -/
def Object.shape : Object → Object
  | .store native config _ => .store native config {}
  | .env _ type s => .env none type s
  | .cell _ => .cell none
  | o => o

/-- What never changes about a native object. -/
def Native.shape : Native → Native
  | .store s => .store ⟨s.config, false, 0⟩
  | .memory m => .memory ⟨m.limits, m.cap, []⟩
  | o => o

@[simp]
theorem Object.claim?_shape (o : Object) : o.shape.claim? = o.claim? := by
  cases o <;> rfl

@[simp]
theorem Object.drop?_shape (o : Object) : o.shape.drop? = o.drop? := by
  cases o <;> rfl

@[simp]
theorem Native.env?_shape (o : Native) : o.shape.env? = o.env? := by
  cases o <;> rfl

/-- Only functions call back. -/
theorem Native.env?_eq_none {o : Native} (plain : ∀ f, o ≠ .func f) : o.env? = none := by
  cases o with
  | func f => exact absurd rfl (plain f)
  | _ => rfl

theorem Object.shape_eq_handle {o : Object} {h : Handle} :
    o.shape = .handle h ↔ o = .handle h := by
  cases o <;> simp [Object.shape]

theorem Object.shape_eq_closure {o : Object} {code : HostCode} {captures : Scope} :
    o.shape = .closure code captures ↔ o = .closure code captures := by
  cases o <;> simp [Object.shape]

theorem Object.shape_eq_store {o : Object} {n : NativeId} {c : Config} {p : Pending} :
    o.shape = .store n c p ↔ p = {} ∧ ∃ q, o = .store n c q := by
  cases o <;> simp [Object.shape, and_comm, and_left_comm, and_assoc, eq_comm]

theorem Object.shape_eq_env {o : Object} {c : Option ObjId} {t : FuncType} {s : ObjId} :
    o.shape = .env c t s ↔ c = none ∧ ∃ c', o = .env c' t s := by
  cases o <;> simp [Object.shape, and_comm, and_assoc, eq_comm]

/-- What is known of the objects and natives of a world, dead or alive. -/
structure Shapes where
  object? : ObjId → Option Object
  native? : NativeId → Option Native

def World.shapes (w : World) : Shapes where
  object? id := Option.map (fun e => e.object.shape) <| w.entry? id
  native? n := (w.nativeObject? n).map Native.shape

namespace Shapes

def IsStore (Γ : Shapes) (s : ObjId) (native : NativeId) : Prop :=
  ∃ config, Γ.object? s = some (.store native config {})

def IsHandle (Γ : Shapes) (id : ObjId) (h : Handle) : Prop := Γ.object? id = some (.handle h)

def IsEnv (Γ : Shapes) (env : ObjId) (type : FuncType) (store : ObjId) : Prop :=
  Γ.object? env = some (.env none type store)

def IsClosure (Γ : Shapes) (c : ObjId) (code : HostCode) (captures : Scope) : Prop :=
  Γ.object? c = some (.closure code captures)

def IsReferent (Γ : Shapes) (r : ObjId) : Prop :=
  ∃ label payload, Γ.object? r = some (.referent label payload)

def IsCell (Γ : Shapes) (c : ObjId) : Prop := Γ.object? c = some (.cell none)

/-- Later shapes: everything that was known is still known. -/
structure Grows (Γ Δ : Shapes) : Prop where
  object : ∀ {id o}, Γ.object? id = some o → Δ.object? id = some o
  native : ∀ {n o}, Γ.native? n = some o → Δ.native? n = some o

theorem Grows.refl (Γ : Shapes) : Γ.Grows Γ := ⟨id, id⟩

theorem Grows.trans {Γ Δ Θ : Shapes} (first : Γ.Grows Δ) (second : Δ.Grows Θ) : Γ.Grows Θ :=
  ⟨fun known => second.object (first.object known),
    fun known => second.native (first.native known)⟩

end Shapes

/-! ## What fits -/

def HandleState.erase : HandleState → HandleState
  | .memory _ => .memory 0
  | .func _ => .func none
  | .view => .view
  | .interrupt => .interrupt

def Pending.ofKind (p : Pending) : HandleState → List NativeId
  | .memory _ => p.memories
  | .func _ => p.funcs
  | .view => p.externs
  | .interrupt => p.interrupts

/-- What the state of a handle says about its native object, in a store with native store `s`. -/
def HandleState.Fits (Γ : Shapes) (h : Handle) (s : NativeId) : HandleState → Prop
  | .memory _ => ∃ limits cap, Γ.native? h.native = some (.memory ⟨limits, cap, []⟩)
  | .func env =>
      ∃ e type, Γ.native? h.native = some (.func ⟨s, type.toNative, .host e⟩) ∧
        Γ.IsEnv e type h.store ∧ env = if h.isOwning then some e else none
  | .view => h.isOwning = false
  | .interrupt => Γ.native? h.native = some (.interrupt s)

/-- A handle fits: its state agrees with its native object, and the owner of a view is an owning
handle of the same native object in the same store. -/
structure Handle.Fits (Γ : Shapes) (h : Handle) : Prop where
  state : ∃ s, Γ.IsStore h.store s ∧ h.state.Fits Γ h s
  owner : ∀ o, h.owner = some o →
    ∃ k, Γ.IsHandle o k ∧ k.owner = none ∧ k.native = h.native ∧ k.store = h.store

/-- An item fits: what it names is of its kind, and a function has the type it is held under. -/
def Item.Fits (Γ : Shapes) : Item → Prop
  | .engine _ => True
  | .store s => ∃ n, Γ.IsStore s n
  | .memory id => ∃ h lock, Γ.IsHandle id h ∧ h.state = .memory lock
  | .func id type => ∃ h env f, Γ.IsHandle id h ∧ h.state = .func env ∧
      Γ.native? h.native = some (.func f) ∧ f.type = type.toNative
  | .typedFunc id type sig => sig.funcType = type ∧ ∃ h env f, Γ.IsHandle id h ∧
      h.state = .func env ∧ Γ.native? h.native = some (.func f) ∧ f.type = type.toNative
  | .view id => ∃ h, Γ.IsHandle id h ∧ h.state = .view
  | .interrupt id => ∃ h, Γ.IsHandle id h ∧ h.state = .interrupt
  | .value s => ∀ r, s.ref? = some r → Γ.IsReferent r
  | .cell c => Γ.IsCell c
  | .raw _ => False

def Scope.Fits (Γ : Shapes) (s : Scope) : Prop := ∀ p ∈ s, p.2.Fits Γ

/-- Whatever is queued in the store `id` is owned by a dead or live handle of that store and kind. -/
def Pending.Fits (Γ : Shapes) (id : ObjId) (p : Pending) : Prop :=
  ∀ kind n, n ∈ p.ofKind kind →
    ∃ i h, Γ.IsHandle i h ∧ h.owner = none ∧ h.native = n ∧ h.store = id ∧
      h.state.erase = kind.erase

def Object.Fits (Γ : Shapes) (id : ObjId) : Object → Prop
  | .store native config p =>
      Γ.native? native = some (.store ⟨config, false, 0⟩) ∧ p.Fits Γ id
  | .handle h => h.Fits Γ
  | .env attached type s =>
      (∃ n, Γ.IsStore s n) ∧ ∃ c code captures, id = c.env ∧ Γ.IsClosure c code captures ∧
        code.shape.funcType = type ∧ ∀ d, attached = some d → d = c
  | .closure code captures => Block.isPublic code.body = true ∧ captures.Fits Γ
  | .referent _ payload => ∀ i, payload = .item i → i.Fits Γ
  | .cell content => ∀ i, content = some i → i.Fits Γ

section Growth

variable {Γ Δ : Shapes} (grows : Γ.Grows Δ)
include grows

theorem Shapes.IsStore.mono {s : ObjId} {n : NativeId} : Γ.IsStore s n → Δ.IsStore s n :=
  fun ⟨config, known⟩ => ⟨config, grows.object known⟩

theorem Shapes.IsReferent.mono {r : ObjId} : Γ.IsReferent r → Δ.IsReferent r :=
  fun ⟨label, payload, known⟩ => ⟨label, payload, grows.object known⟩

theorem HandleState.Fits.mono {h : Handle} {s : NativeId} :
    {state : HandleState} → state.Fits Γ h s → state.Fits Δ h s
  | .memory _, ⟨limits, cap, known⟩ => ⟨limits, cap, grows.native known⟩
  | .func _, ⟨e, type, known, env, same⟩ =>
      ⟨e, type, grows.native known, grows.object env, same⟩
  | .view, viewed => viewed
  | .interrupt, known => grows.native known

theorem Handle.Fits.mono {h : Handle} (fits : h.Fits Γ) : h.Fits Δ where
  state := by
    obtain ⟨s, store, state⟩ := fits.state
    exact ⟨s, store.mono grows, state.mono grows⟩
  owner o owned := by
    obtain ⟨k, known, rest⟩ := fits.owner o owned
    exact ⟨k, grows.object known, rest⟩

theorem Item.Fits.mono : {i : Item} → i.Fits Γ → i.Fits Δ
  | .engine _, _ => trivial
  | .store _, ⟨n, known⟩ => ⟨n, known.mono grows⟩
  | .memory _, ⟨h, lock, known, state⟩ => ⟨h, lock, grows.object known, state⟩
  | .func _ _, ⟨h, env, f, known, state, native, type⟩ =>
      ⟨h, env, f, grows.object known, state, grows.native native, type⟩
  | .typedFunc _ _ _, ⟨sig, h, env, f, known, state, native, type⟩ =>
      ⟨sig, h, env, f, grows.object known, state, grows.native native, type⟩
  | .view _, ⟨h, known, state⟩ => ⟨h, grows.object known, state⟩
  | .interrupt _, ⟨h, known, state⟩ => ⟨h, grows.object known, state⟩
  | .value _, refs => fun r held => (refs r held).mono grows
  | .cell _, known => grows.object known
  | .raw _, impossible => impossible

theorem Scope.Fits.mono {s : Scope} (fits : s.Fits Γ) : s.Fits Δ :=
  fun p held => (fits p held).mono grows

theorem Pending.Fits.mono {id : ObjId} {p : Pending} (fits : p.Fits Γ id) : p.Fits Δ id := by
  intro kind n queued
  obtain ⟨i, h, known, rest⟩ := fits kind n queued
  exact ⟨i, h, grows.object known, rest⟩

theorem Object.Fits.mono {id : ObjId} : {o : Object} → o.Fits Γ id → o.Fits Δ id
  | .store .., ⟨native, queues⟩ => ⟨grows.native native, queues.mono grows⟩
  | .handle _, fits => Handle.Fits.mono grows fits
  | .env .., ⟨⟨n, known⟩, c, code, captures, own, isClosure, rest⟩ =>
      ⟨⟨n, known.mono grows⟩, c, code, captures, own, grows.object isClosure, rest⟩
  | .closure .., ⟨body, captures⟩ => ⟨body, captures.mono grows⟩
  | .referent .., fits => fun i held => (fits i held).mono grows
  | .cell _, fits => fun i held => (fits i held).mono grows

end Growth

namespace World

variable {w : World}

theorem shapes_object? {id : ObjId} {o : Object} :
    w.shapes.object? id = some o ↔ ∃ e, w.entry? id = some e ∧ e.object.shape = o := by
  simp [shapes]

theorem shapes_of_entry {id : ObjId} {e : Entry} (found : w.entry? id = some e) :
    w.shapes.object? id = some e.object.shape := by
  simp [shapes, found]

theorem isHandle_iff {id : ObjId} {h : Handle} :
    w.shapes.IsHandle id h ↔ ∃ k, w.entry? id = some ⟨k, .handle h⟩ := by
  simp only [Shapes.IsHandle, shapes_object?, Object.shape_eq_handle]
  constructor
  · rintro ⟨⟨k, o⟩, found, rfl⟩; exact ⟨k, found⟩
  · rintro ⟨k, found⟩; exact ⟨_, found, rfl⟩

theorem isClosure_iff {id : ObjId} {code : HostCode} {captures : Scope} :
    w.shapes.IsClosure id code captures ↔ ∃ k, w.entry? id = some ⟨k, .closure code captures⟩ := by
  simp only [Shapes.IsClosure, shapes_object?, Object.shape_eq_closure]
  constructor
  · rintro ⟨⟨k, o⟩, found, rfl⟩; exact ⟨k, found⟩
  · rintro ⟨k, found⟩; exact ⟨_, found, rfl⟩

theorem isStore_iff {id : ObjId} {n : NativeId} :
    w.shapes.IsStore id n ↔ ∃ k config p, w.entry? id = some ⟨k, .store n config p⟩ := by
  simp only [Shapes.IsStore, shapes_object?, Object.shape_eq_store, true_and]
  constructor
  · rintro ⟨config, ⟨k, o⟩, found, p, rfl⟩; exact ⟨k, config, p, found⟩
  · rintro ⟨k, config, p, found⟩; exact ⟨config, _, found, p, rfl⟩

theorem isEnv_iff {id : ObjId} {type : FuncType} {store : ObjId} :
    w.shapes.IsEnv id type store ↔ ∃ k closure, w.entry? id = some ⟨k, .env closure type store⟩ := by
  simp only [Shapes.IsEnv, shapes_object?, Object.shape_eq_env, true_and]
  constructor
  · rintro ⟨⟨k, o⟩, found, c, rfl⟩; exact ⟨k, c, found⟩
  · rintro ⟨k, c, found⟩; exact ⟨_, found, c, rfl⟩

/-- The native store of a store. -/
theorem storeNative?_eq_some {s : ObjId} {n : NativeId} :
    w.storeNative? s = some n ↔ w.shapes.IsStore s n := by
  rw [isStore_iff]
  unfold storeNative?
  constructor
  · intro found
    split at found
    · next k m config p entry =>
        cases found
        exact ⟨k, config, p, entry⟩
    · cases found
  · rintro ⟨k, config, p, entry⟩
    simp [entry]

theorem storeNative?_of_shapes {v : World} (shapes : v.shapes = w.shapes) (s : ObjId) :
    v.storeNative? s = w.storeNative? s :=
  Option.ext fun n => by rw [storeNative?_eq_some, storeNative?_eq_some, shapes]

/-! ## Changes that keep the shapes -/

/-- Changing an entry within its shape keeps the shapes. -/
theorem shapes_modifyEntry {id : ObjId} {g : Entry → Entry}
    (keeps : ∀ e, w.entry? id = some e → (g e).object.shape = e.object.shape) :
    (w.modifyEntry id g).shapes = w.shapes := by
  have objects : (w.modifyEntry id g).shapes.object? = w.shapes.object? := by
    funext x
    simp only [shapes, entry?_modifyEntry]
    split
    · next same =>
        subst same
        cases found : w.entry? x with
        | none => rfl
        | some e => simp [keeps e found]
    · rfl
  exact congrArg (Shapes.mk · w.shapes.native?) objects

/-- Changing a native object within its shape keeps the shapes. -/
theorem shapes_modifyNative {n : NativeId} {f : NativeEntry → NativeEntry}
    (keeps : ∀ e, (f e).object.shape = e.object.shape) :
    (w.modifyNative n f).shapes = w.shapes := by
  have natives : (w.modifyNative n f).shapes.native? = w.shapes.native? := by
    funext x
    simp only [shapes, nativeObject?, bodies, modifyNative, Array.toList_modify, List.getElem?_map,
      List.getElem?_modify]
    split <;> cases w.natives.toList[x.index]? <;> simp [keeps]
  exact congrArg (Shapes.mk w.shapes.object? ·) natives

/-- Adding an object only adds a shape. -/
theorem shapes_alloc (w : World) (o : Object) (strong : Nat) :
    w.shapes.Grows (w.alloc o strong).2.shapes where
  object {id o'} known := by
    obtain ⟨e, found, same⟩ := shapes_object?.mp known
    have other : id ≠ (w.alloc o strong).1 := by
      rintro rfl
      rw [entry?_alloc_self] at found
      cases found
    exact shapes_object?.mpr ⟨e, by rw [entry?_alloc, if_neg other, found], same⟩
  native := id

/-- The shape that a new object adds. -/
theorem shapes_alloc_self (w : World) (o : Object) (strong : Nat) :
    (w.alloc o strong).2.shapes.object? (w.alloc o strong).1 = some o.shape :=
  shapes_object?.mpr ⟨_, by rw [entry?_alloc, if_pos rfl], rfl⟩

/-- What is known after an object is added is the new object or was known before. -/
theorem shapes_alloc_cases {o : Object} {strong : Nat} {i : ObjId} {p : Object}
    (known : (w.alloc o strong).2.shapes.object? i = some p) :
    (i = (w.alloc o strong).1 ∧ p = o.shape) ∨ w.shapes.object? i = some p := by
  obtain ⟨e, found, rfl⟩ := shapes_object?.mp known
  rw [entry?_alloc] at found
  split at found
  · next same =>
      cases found
      exact .inl ⟨same, rfl⟩
  · exact .inr (shapes_of_entry found)

/-- Adding an object that is no store adds none. -/
theorem storeNative?_alloc {o : Object} {strong : Nat} {s : ObjId} {n : NativeId}
    (plain : ∀ n config p, o ≠ .store n config p)
    (native : (w.alloc o strong).2.storeNative? s = some n) : w.storeNative? s = some n := by
  obtain ⟨k, config, p, found⟩ := isStore_iff.mp (storeNative?_eq_some.mp native)
  rw [entry?_alloc] at found
  split at found
  · cases found
    exact absurd rfl (plain n config p)
  · exact storeNative?_eq_some.mpr (isStore_iff.mpr ⟨k, config, p, found⟩)

/-- Adding a native object only adds a shape. -/
theorem shapes_allocNative (w : World) (o : Native) :
    w.shapes.Grows (w.allocNative o).2.shapes where
  object := id
  native {n o'} known := by
    simp only [shapes, nativeObject?, bodies_allocNative, Option.map_map] at known ⊢
    cases body : w.bodies[n.index]? with
    | none => simp [body] at known
    | some b => rw [List.getElem?_append_left (List.getElem?_eq_some_iff.mp body).1, ← known]

/-- The shape that a new native object adds. -/
theorem shapes_allocNative_self (w : World) (o : Native) :
    (w.allocNative o).2.shapes.native? (w.allocNative o).1 = some o.shape := by
  simp only [shapes, nativeObject?, bodies_allocNative]
  simp [allocNative, ← bodies_length]

end World

end HostEmbedding
