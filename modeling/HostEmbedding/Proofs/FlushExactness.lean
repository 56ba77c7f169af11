import HostEmbedding.Proofs.Call.Requests
import HostEmbedding.Proofs.Ownership.Openings

/-!
# Flushing, exactly

What a flush does and what it leaves alone, at every moment of a run, and which steps begin with one. A
step that makes something in a store, or that calls a function of it, continues from the world in which the
store has been flushed, whether or not it is then refused.
-/

namespace HostEmbedding

namespace Object

def handle? : Object → Option Handle
  | .handle h => some h
  | _ => none

def closure? : Object → Option (HostCode × Scope)
  | .closure code captures => some (code, captures)
  | _ => none

def payload? : Object → Option Payload
  | .referent _ payload => some payload
  | _ => none

end Object

namespace World

variable {w : World} {held : List ObjId} {s : ObjId} {n : NativeId}

theorem handle?_eq_bind (w : World) (id : ObjId) : w.handle? id = (w.object? id).bind Object.handle? := by
  unfold World.handle?
  cases w.object? id with
  | none => rfl
  | some o => cases o <;> rfl

theorem closure?_eq_bind (w : World) (id : ObjId) : w.closure? id = (w.object? id).bind Object.closure? := by
  unfold World.closure?
  cases w.object? id with
  | none => rfl
  | some o => cases o <;> rfl

theorem payload?_eq_bind (w : World) (id : ObjId) : w.payload? id = (w.object? id).bind Object.payload? := by
  unfold World.payload?
  cases w.object? id with
  | none => rfl
  | some o => cases o <;> rfl

/-- What a flush of a store leaves alone. -/
structure Spared (w : World) (s : ObjId) : Prop where
  /-- The queues of all other stores. -/
  queues : ∀ t, t ≠ s → (w.flush s).pending t = w.pending t
  /-- The native side of every store: its interrupt flag, the depth of its calls, its configuration. -/
  stores : ∀ k st, w.nativeObject? k = some (.store st) →
    (w.flush s).natives[k.index]? = w.natives[k.index]?
  /-- Every live handle, and the live object behind it. -/
  handles : ∀ id h, w.handle? id = some h → (w.flush s).handle? id = some h ∧ (w.native? h.native).isSome ∧
    (w.flush s).natives[h.native.index]? = w.natives[h.native.index]?
  /-- The closures that are alive, and the content of every reference. -/
  closures : (w.flush s).closure? = w.closure?
  contents : (w.flush s).payload? = w.payload?

/-- A flush changes no entry but that of its store and those of environments. -/
theorem Flushed.entry_or (flushed : w.Flushed s) (id : ObjId) :
    World.entry? (w.flush s) id = w.entry? id ∨ id = s ∨
      ∃ k k' c c' type t, w.entry? id = some ⟨k, .env c type t⟩ ∧
        World.entry? (w.flush s) id = some ⟨k', .env c' type t⟩ := by
  by_cases env : ∃ type t, w.shapes.IsEnv id type t
  · obtain ⟨type, t, isEnv⟩ := env
    obtain ⟨k, c, before⟩ := isEnv_iff.mp isEnv
    obtain ⟨k', c', after⟩ := isEnv_iff.mp (show (w.flush s).shapes.IsEnv id type t by
      rw [(drains_flush w s).shapes]
      exact isEnv)
    exact .inr (.inr ⟨k, k', c, c', type, t, before, after⟩)
  · by_cases same : id = s
    · exact .inr (.inl same)
    · exact .inl (flushed.objects id same fun type t isEnv => env ⟨type, t, isEnv⟩)

/-- Whatever is read of live objects that are neither stores nor environments reads the same. -/
theorem Flushed.bind_object? (flushed : w.Flushed s) (isStore : w.shapes.IsStore s n) {α : Type}
    {f : Object → Option α} (store : ∀ n c p, f (.store n c p) = none)
    (env : ∀ c type t, f (.env c type t) = none) (id : ObjId) :
    ((w.flush s).object? id).bind f = (w.object? id).bind f := by
  have blank {u : World} {k : Nat} {o : Object} (entry : u.entry? id = some ⟨k, o⟩) (none : f o = none) :
      (u.object? id).bind f = Option.none := by
    unfold World.object?
    rw [entry]
    dsimp only
    split
    · rfl
    · exact none
  rcases flushed.entry_or id with same | rfl | ⟨k, k', c, c', type, t, before, after⟩
  · unfold World.object?
    rw [same]
  · obtain ⟨k, c, p, before⟩ := isStore_iff.mp isStore
    obtain ⟨k', c', p', after⟩ := isStore_iff.mp (show (w.flush id).shapes.IsStore id n by
      rw [(drains_flush w id).shapes]
      exact isStore)
    rw [blank after (store _ _ _), blank before (store _ _ _)]
  · rw [blank after (env _ _ _), blank before (env _ _ _)]

theorem Sound.spared (sound : w.Sound held) (isStore : w.shapes.IsStore s n) : w.Spared s := by
  have flushed := sound.flushed isStore
  constructor
  case queues =>
      intro t other
      rcases flushed.entry_or t with same | same | ⟨k, k', c, c', type, u, before, after⟩
      · unfold World.pending
        rw [same]
      · exact absurd same other
      · unfold World.pending
        rw [after, before]
  case stores =>
      intro k st found
      refine flushed.others k fun queued => ?_
      -- What is queued is an object that handles own.
      obtain ⟨kind, listed⟩ := Pending.mem_inOrder.mp queued
      obtain ⟨i, h, owner, -⟩ := sound.queued_owner listed
      obtain ⟨known, -, native⟩ := isOwner_iff.mp owner
      obtain ⟨o, object, handled, -⟩ := sound.handle_native known
      rw [native, found] at object
      cases object
      cases handled
  case handles =>
      intro id h found
      have read := flushed.bind_object? isStore (f := Object.handle?) (fun _ _ _ => rfl) (fun _ _ _ => rfl) id
      obtain ⟨k, known, owner, native, -⟩ := sound.owner_known (handle?_eq_some.mp found).1
      have claim : (Object.handle k).claim? = some h.native := by
        simp [Object.claim?, Handle.isOwning, owner, native]
      obtain ⟨live, unqueued, -⟩ := sound.claim_live known (sound.keeps_alive found).2 claim
      obtain ⟨o, object, -⟩ := sound.handle_native (handle?_eq_some.mp found).1
      refine ⟨?_, ?_, flushed.others h.native fun queued => unqueued (mem_queued.mpr ⟨s, queued⟩)⟩
      · rw [handle?_eq_bind, read, ← handle?_eq_bind]
        exact found
      · rw [native?_eq, if_pos live, object]
        rfl
  case closures =>
      funext id
      rw [closure?_eq_bind, closure?_eq_bind]
      exact flushed.bind_object? isStore (fun _ _ _ => rfl) (fun _ _ _ => rfl) id
  case contents =>
      funext id
      rw [payload?_eq_bind, payload?_eq_bind]
      exact flushed.bind_object? isStore (fun _ _ _ => rfl) (fun _ _ _ => rfl) id

end World

namespace Machine

variable {m : Machine} {g : Guard} {s : ObjId} {n : NativeId}

/-- The running step flushes a store before anything else: the rest of it starts from the flushed world. -/
structure FlushesFirst (m : Machine) (s : ObjId) (rest : World → Machine) : Prop where
  flushed : m.world.Flushed s
  step : m.step = rest (m.world.flush s)

def madeFunc (m : Machine) (name : VarName) (s : ObjId) (n : NativeId) (code : HostCode) (captures : Scope)
    (w : World) : Machine :=
  let made := (w.retainAll (Scope.refs captures)).openFunc s n code captures
  ((m.withWorld made.2).assign name (.func made.1 code.shape.funcType)).finish
    (.text code.shape.funcType.text)

def madeMemory (m : Machine) (name : VarName) (s : ObjId) (type : MemoryType) (cap : UInt32) (w : World) :
    Machine :=
  let made := w.openMemory s type (.fresh cap type)
  ((m.withWorld made.2).assign name (.memory made.1)).finish .ok

def madeInterrupt (m : Machine) (name : VarName) (s : ObjId) (n : NativeId) (w : World) : Machine :=
  let made := w.openInterrupt s n
  ((m.withWorld made.2).assign name (.interrupt made.1)).finish .ok

/-- What flushes do, and the steps that begin with one. -/
structure FlushExactness (m : Machine) : Prop where
  flushed : ∀ {s n}, m.world.storeNative? s = some n → m.world.Flushed s
  spared : ∀ {s n}, m.world.storeNative? s = some n → m.world.Spared s
  /-- The number of queued objects is told. -/
  pending : ∀ {g v s}, m.AtStep g (.plain (.pending v)) → m.lookup v = some (.store s) →
    m.step = m.finish (.nat (m.world.pending s).size)
  /-- An explicit flush answers the number that was told before, and does nothing else. -/
  flush : ∀ {g v s}, m.AtStep g (.plain (.flush v)) → m.lookup v = some (.store s) →
    m.FlushesFirst s fun w => (m.withWorld w).finish (.nat (m.world.pending s).size)
  interrupt : ∀ {g name v s}, m.AtStep g (.plain (.interruptHandle name v)) → m.lookup v = some (.store s) →
    ∃ n, m.world.storeNative? s = some n ∧ m.FlushesFirst s (m.madeInterrupt name s n)
  memory : ∀ {g name v type s}, m.AtStep g (.plain (.memory name v type)) → m.lookup v = some (.store s) →
    type.Fits (m.world.storeConfig s).maxMemoryPages →
      m.FlushesFirst s (m.madeMemory name s type (m.world.storeConfig s).maxMemoryPages)
  /-- A memory that is refused has had its store flushed all the same. -/
  memoryRefused : ∀ {g name v type s}, m.AtStep g (.plain (.memory name v type)) →
    m.lookup v = some (.store s) → ¬ type.Fits (m.world.storeConfig s).maxMemoryPages →
      m.FlushesFirst s fun w => (m.withWorld w).refuse g (.invalidMemoryType type)
  func : ∀ {g name v shape label quiet names body captures s},
    m.AtStep g (.func name v shape label quiet names body) → m.lookup v = some (.store s) →
    (names.mapM fun c => (m.lookup c).map fun i => (c.base, i)) = some captures →
      ∃ n, m.world.storeNative? s = some n ∧
        m.FlushesFirst s (m.madeFunc name s n ⟨label, quiet, shape, body⟩ captures)
  call : ∀ {c h}, m.CallsWith c h → argumentFault? c.type.params c.args = none →
    m.FlushesFirst h.store (m.waitingFrom c h)
  /-- A call whose arguments are rejected has had its store flushed all the same. -/
  callRejected : ∀ {c h f}, m.CallsWith c h → argumentFault? c.type.params c.args = some f →
    m.FlushesFirst h.store fun w => (m.withWorld w).complete (.panicked f)

/-! ## Steps that begin with a flush -/

/-- The store that a variable holds. -/
theorem Coherent.holds_store (coherent : m.Coherent) (idle : m.control.refs = []) {v : VarName}
    (held : m.lookup v = some (.store s)) :
    ∃ n, m.world.storeNative? s = some n ∧ m.world.strong s ≠ 0 := by
  have busy := coherent.busy idle
  have usable := busy.lookup held
  obtain ⟨n, isStore⟩ := usable.fits
  exact ⟨n, World.storeNative?_eq_some.mpr isStore, busy.alive usable s (List.mem_singleton_self s)⟩

theorem withStore_eq {v : VarName} (held : m.lookup v = some (.store s)) (k : ObjId → Machine) :
    m.withStore v k = k s := by
  unfold withStore
  rw [held]

theorem AtStep.idle {st : Step} (begins : m.AtStep g st) : m.control.refs = [] := by
  rw [begins.control]
  rfl

namespace Coherent

variable (coherent : m.Coherent)
include coherent

theorem flushes_interrupt {name v : VarName} (begins : m.AtStep g (.plain (.interruptHandle name v)))
    (held : m.lookup v = some (.store s)) :
    ∃ n, m.world.storeNative? s = some n ∧ m.FlushesFirst s (m.madeInterrupt name s n) := by
  obtain ⟨n, store, -⟩ := coherent.holds_store begins.idle held
  have isStore := World.storeNative?_eq_some.mp store
  refine ⟨n, store, coherent.world.flushed isStore, ?_⟩
  rw [begins.step_eq]
  show m.withStore v _ = _
  rw [withStore_eq held, coherent.world.createInterrupt_eq isStore]
  rfl

theorem flushes_memory {name v : VarName} {type : MemoryType}
    (begins : m.AtStep g (.plain (.memory name v type))) (held : m.lookup v = some (.store s)) :
    (type.Fits (m.world.storeConfig s).maxMemoryPages ∧
      m.FlushesFirst s (m.madeMemory name s type (m.world.storeConfig s).maxMemoryPages)) ∨
    (¬ type.Fits (m.world.storeConfig s).maxMemoryPages ∧
      m.FlushesFirst s fun w => (m.withWorld w).refuse g (.invalidMemoryType type)) := by
  obtain ⟨n, store, alive⟩ := coherent.holds_store begins.idle held
  have isStore := World.storeNative?_eq_some.mp store
  have flushed := coherent.world.flushed isStore
  have step : m.step = m.newMemory g name v type := begins.step_eq
  unfold newMemory at step
  rw [withStore_eq held] at step
  rcases coherent.world.createMemory_eq isStore alive type with ⟨fits, made⟩ | ⟨unfit, refused⟩
  · rw [made] at step
    exact .inl ⟨fits, flushed, step⟩
  · rw [refused] at step
    exact .inr ⟨unfit, flushed, step⟩

theorem flushes_func {name v : VarName} {shape : Shape} {label : String} {quiet : Bool}
    {names : List VarName} {body : Block} {captures : Scope}
    (begins : m.AtStep g (.func name v shape label quiet names body)) (held : m.lookup v = some (.store s))
    (found : (names.mapM fun c => (m.lookup c).map fun i => (c.base, i)) = some captures) :
    ∃ n, m.world.storeNative? s = some n ∧
      m.FlushesFirst s (m.madeFunc name s n ⟨label, quiet, shape, body⟩ captures) := by
  obtain ⟨n, store, -⟩ := coherent.holds_store begins.idle held
  have isStore := World.storeNative?_eq_some.mp store
  have busy := coherent.busy begins.idle
  have captured := busy.captured found
  have alive : ∀ id ∈ Scope.refs captures, m.world.strong id ≠ 0 := fun id mem => by
    obtain ⟨p, listed, mem⟩ := List.mem_flatMap.mp mem
    exact busy.alive (captured p listed) id mem
  have plain : ∀ id ∈ Scope.refs captures, ∀ type t, ¬ m.world.shapes.IsEnv id type t := fun id mem => by
    obtain ⟨p, listed, mem⟩ := List.mem_flatMap.mp mem
    exact not_isEnv_of_item (captured p listed).fits mem
  have counted := coherent.world.retainAll (Scope.refs captures) alive
  have isStore' : (m.world.retainAll (Scope.refs captures)).shapes.IsStore s n :=
    isStore.mono (World.evolves_retainAll (Scope.refs captures) alive).shapes
  refine ⟨n, store, coherent.world.flushed isStore, ?_⟩
  rw [begins.step_eq]
  show m.newFunc name v _ names = _
  unfold newFunc
  rw [withStore_eq held, found]
  dsimp only
  rw [counted.register_eq isStore', coherent.world.flush_retainAll _ isStore alive plain]
  rfl

end Coherent

/-- Flushes of a coherent machine. -/
theorem Coherent.flushExactness (coherent : m.Coherent) : m.FlushExactness := by
  constructor
  case flushed =>
      intro s n store
      exact coherent.world.flushed (World.storeNative?_eq_some.mp store)
  case spared =>
      intro s n store
      exact coherent.world.spared (World.storeNative?_eq_some.mp store)
  case pending =>
      intro g v s begins held
      rw [begins.step_eq]
      exact withStore_eq held _
  case flush =>
      intro g v s begins held
      obtain ⟨n, store, -⟩ := coherent.holds_store begins.idle held
      have flushed := coherent.world.flushed (World.storeNative?_eq_some.mp store)
      refine ⟨flushed, ?_⟩
      rw [begins.step_eq, ← flushed.told]
      exact withStore_eq held _
  case interrupt =>
      intro g name v s begins held
      exact coherent.flushes_interrupt begins held
  case memory =>
      intro g name v type s begins held fits
      rcases coherent.flushes_memory begins held with ⟨-, first⟩ | ⟨unfit, -⟩
      · exact first
      · exact absurd fits unfit
  case memoryRefused =>
      intro g name v type s begins held unfit
      rcases coherent.flushes_memory begins held with ⟨fits, -⟩ | ⟨-, first⟩
      · exact absurd fits unfit
      · exact first
  case func =>
      intro g name v shape label quiet names body captures s begins held found
      exact coherent.flushes_func begins held found
  case call =>
      intro c h calls fits
      obtain ⟨n, isStore⟩ := coherent.store_of_handle calls.handle
      refine ⟨coherent.world.flushed isStore, ?_⟩
      rw [calls.step_eq, fits]
      exact calls.waiting_eq coherent
  case callRejected =>
      intro c h f calls fault
      obtain ⟨n, isStore⟩ := coherent.store_of_handle calls.handle
      refine ⟨coherent.world.flushed isStore, ?_⟩
      rw [calls.step_eq, fault]
      exact calls.panicking_eq coherent f

/-- On every run of a public script, at every moment of it. -/
theorem flushExactness_after (level : Option LogLevel) {script : Block}
    (isPublic : Block.isPublic script = true) (k : Nat) : (after level script k).FlushExactness :=
  (coherent_after level isPublic k).flushExactness

/-- A function, an interrupt handle and a memory are dropped in the order in which they were made, and then
their store is flushed. -/
def reclaimed : Block :=
  [(⟨false, false⟩, .plain (.store (.scoped "s") none)),
    (⟨false, false⟩, .func (.scoped "f") (.scoped "s") (.generic ⟨[], []⟩) "f" false [] []),
    (⟨false, false⟩, .plain (.interruptHandle (.scoped "i") (.scoped "s"))),
    (⟨false, false⟩, .plain (.memory (.scoped "m") (.scoped "s") ⟨1, none⟩)),
    (⟨false, false⟩, .plain (.drop (.scoped "f"))),
    (⟨false, false⟩, .plain (.drop (.scoped "i"))),
    (⟨false, false⟩, .plain (.drop (.scoped "m"))),
    (⟨false, false⟩, .plain (.flush (.scoped "s")))]

/-- Three objects are queued, and the flush deletes the memory first and the function last. -/
theorem flushExactness_after_reclaimed : Block.isPublic reclaimed = true ∧
    ((after none reclaimed 14).world.pending ⟨0⟩).inOrder = [⟨3⟩, ⟨2⟩, ⟨1⟩] ∧
      (after none reclaimed 14).FlushesFirst ⟨0⟩ fun w =>
        ((after none reclaimed 14).withWorld w).finish (.nat 3) := by
  have isPublic : Block.isPublic reclaimed = true := by decide
  have flushes := flushExactness_after none isPublic 14
  have begins : (after none reclaimed 14).AtStep ⟨false, false⟩ (.plain (.flush (.scoped "s"))) :=
    ⟨rfl, rfl, true, 7, [], [], rfl⟩
  exact ⟨isPublic, rfl, flushes.flush begins rfl⟩

end Machine

end HostEmbedding
