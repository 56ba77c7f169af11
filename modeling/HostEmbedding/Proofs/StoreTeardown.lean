import HostEmbedding.Proofs.Call.Exchange
import HostEmbedding.Proofs.CallDepth
import HostEmbedding.Proofs.ClosureLifetime
import HostEmbedding.Proofs.FinalizerSafety
import HostEmbedding.Proofs.NativeLifecycle
import HostEmbedding.Proofs.Ownership.Teardown

/-!
# The end of a store

A store lives as long as a variable, a handle or view, something that captured it or a running call on
it does; what is queued in it and what its functions were lent does not count. Its native side is
deleted once, by the drop of the last of these, after everything that was made in it.
-/

namespace HostEmbedding

/-- The context that comes back when a frame is gone. -/
def Frame.saved? : Frame → Option Context
  | .activation saved => some saved
  | .thread saved _ => some saved
  | .finalizer saved => some saved
  | _ => none

/-! ## What holds a store -/

section

variable {Γ : Shapes} {s : ObjId} {n : NativeId}

theorem Shapes.IsStore.not_handle (isStore : Γ.IsStore s n) {h : Handle} : ¬ Γ.IsHandle s h := by
  obtain ⟨config, known⟩ := isStore
  intro isHandle
  cases known.symm.trans isHandle

theorem Shapes.IsStore.not_referent (isStore : Γ.IsStore s n) : ¬ Γ.IsReferent s := by
  obtain ⟨config, known⟩ := isStore
  rintro ⟨label, payload, isReferent⟩
  cases known.symm.trans isReferent

theorem Shapes.IsStore.not_env (isStore : Γ.IsStore s n) {type : FuncType} {t : ObjId} :
    ¬ Γ.IsEnv s type t := by
  obtain ⟨config, known⟩ := isStore
  intro isEnv
  cases known.symm.trans isEnv

/-- The item that holds a store is that store. -/
theorem Item.Fits.eq_store {i : Item} (fits : i.Fits Γ) (isStore : Γ.IsStore s n) (mem : s ∈ i.refs) :
    i = .store s := by
  have handle {id : ObjId} (here : s ∈ [id]) (known : ∃ h, Γ.IsHandle id h) : i = .store s := by
    obtain rfl := List.mem_singleton.mp here
    obtain ⟨h, known⟩ := known
    exact absurd known isStore.not_handle
  cases i with
  | engine config => cases mem
  | raw native => cases mem
  | store t =>
      obtain rfl := List.mem_singleton.mp mem
      rfl
  | memory id =>
      obtain ⟨h, lock, known, -⟩ := fits
      exact handle mem ⟨h, known⟩
  | func id type =>
      obtain ⟨h, env, f, known, -⟩ := fits
      exact handle mem ⟨h, known⟩
  | typedFunc id type sig =>
      obtain ⟨-, h, env, f, known, -⟩ := fits
      exact handle mem ⟨h, known⟩
  | view id =>
      obtain ⟨h, known, -⟩ := fits
      exact handle mem ⟨h, known⟩
  | interrupt id =>
      obtain ⟨h, known, -⟩ := fits
      exact handle mem ⟨h, known⟩
  | value v => exact absurd (fits s (Option.mem_toList.mp mem)) isStore.not_referent
  | cell c =>
      obtain rfl := List.mem_singleton.mp mem
      obtain ⟨config, known⟩ := isStore
      cases known.symm.trans fits

/-- The variable that holds a store. -/
theorem Scope.Fits.holds_store {scope : Scope} (fits : scope.Fits Γ) (isStore : Γ.IsStore s n)
    (mem : s ∈ scope.refs) : ∃ name, (name, .store s) ∈ scope := by
  obtain ⟨⟨name, i⟩, listed, mem⟩ := List.mem_flatMap.mp mem
  obtain rfl : i = .store s := (fits _ listed).eq_store isStore mem
  exact ⟨name, listed⟩

/-- A call that waits holds no store. -/
theorem HostCall.Fits.not_store {c : HostCall} (fits : c.Fits Γ) (isStore : Γ.IsStore s n) :
    s ∉ (Frame.hostCall c).refs := by
  have raw : Slot.refs c.raw = Val.refs c.request.args := by rw [fits.raw, Slot.refs_ofVals]
  simp only [Frame.refs, CallRequest.refs, raw, List.mem_append, List.mem_singleton]
  rintro ((mem | rfl) | mem)
  · exact isStore.not_referent (fits.args s mem)
  · obtain ⟨h, f, known, -⟩ := fits.func
    exact isStore.not_handle known
  · exact isStore.not_referent (fits.args s mem)

/-- A store that waiting calls and running bodies hold is that of a body, or one of its variables. -/
theorem Stacked.holds_store {ctx : Context} {stack : List Frame} {slots : List (Option Fault)}
    (stacked : Stacked Γ ctx stack slots) (isStore : Γ.IsStore s n)
    (mem : s ∈ ctx.refs ++ stack.flatMap Frame.refs) :
    ∃ a, .body a ∈ ctx :: stack.filterMap Frame.saved? ∧
      (a.store = s ∨ ∃ name, (name, .store s) ∈ a.locals) := by
  induction stacked with
  | top => cases mem
  | block _ _ _ ih => exact ih mem
  | branch _ _ ih => exact ih mem
  | loop _ _ _ ih => exact ih mem
  | hostCall below waits fits ih =>
      rw [List.flatMap_cons, List.mem_append, List.mem_append] at mem
      rcases mem with mem | mem | mem
      · exact ih (List.mem_append_left _ mem)
      · exact absurd mem (fits.not_store isStore)
      · exact ih (List.mem_append_right _ mem)
  | @activation saved stack slots c a below fits runs ih =>
      rw [List.mem_append] at mem
      rcases mem with mem | mem
      · refine ⟨a, List.mem_cons_self, ?_⟩
        simp only [Context.refs, List.mem_append, List.mem_cons, List.not_mem_nil, or_false] at mem
        rcases mem with mem | mem | rfl | rfl
        · exact .inr (fits.locals.holds_store isStore mem)
        · exact absurd (fits.params s mem) isStore.not_referent
        · obtain ⟨captures, isClosure⟩ := fits.closure
          exact absurd isClosure isStore.plain
        · exact .inl rfl
      · obtain ⟨b, listed, holds⟩ := ih mem
        exact ⟨b, List.mem_cons_of_mem _ listed, holds⟩
  | thread below waits retired finalizing ih =>
      obtain ⟨b, listed, holds⟩ := ih mem
      exact ⟨b, List.mem_cons_of_mem _ listed, holds⟩

/-- A body that runs stands on the call that it runs for. -/
theorem Stacked.bodies {ctx : Context} {stack : List Frame} {slots : List (Option Fault)}
    (stacked : Stacked Γ ctx stack slots) {a : Activation}
    (mem : .body a ∈ ctx :: stack.filterMap Frame.saved?) :
    a.Fits Γ ∧ ∃ saved c below, .activation saved :: .hostCall c :: below <:+ stack ∧ a.RunsFor Γ c := by
  induction stacked with
  | top =>
      cases List.mem_singleton.mp mem
  | block _ _ _ ih =>
      obtain ⟨fits, saved, c, below, stands, runs⟩ := ih mem
      exact ⟨fits, saved, c, below, stands.trans (List.suffix_cons _ _), runs⟩
  | branch _ _ ih =>
      obtain ⟨fits, saved, c, below, stands, runs⟩ := ih mem
      exact ⟨fits, saved, c, below, stands.trans (List.suffix_cons _ _), runs⟩
  | loop _ _ _ ih =>
      obtain ⟨fits, saved, c, below, stands, runs⟩ := ih mem
      exact ⟨fits, saved, c, below, stands.trans (List.suffix_cons _ _), runs⟩
  | hostCall _ _ _ ih =>
      obtain ⟨fits, saved, c, below, stands, runs⟩ := ih mem
      exact ⟨fits, saved, c, below, stands.trans (List.suffix_cons _ _), runs⟩
  | activation _ fits runs ih =>
      rcases List.mem_cons.mp mem with same | mem
      · cases same
        exact ⟨fits, _, _, _, List.suffix_refl _, runs⟩
      · obtain ⟨fits, saved, c, below, stands, runs⟩ := ih mem
        exact ⟨fits, saved, c, below, stands.trans (List.suffix_cons _ _), runs⟩
  | thread _ _ _ _ ih =>
      rcases List.mem_cons.mp mem with same | mem
      · cases same
      · obtain ⟨fits, saved, c, below, stands, runs⟩ := ih mem
        exact ⟨fits, saved, c, below, stands.trans (List.suffix_cons _ _), runs⟩

end

theorem Frame.running_of_suffix {saved : Context} {c : HostCall} {below stack : List Frame}
    (stands : .activation saved :: .hostCall c :: below <:+ stack) :
    c.request.func ∈ running stack := by
  induction stack with
  | nil => simp at stands
  | cons f stack ih =>
      rcases List.suffix_cons_iff.mp stands with same | stands
      · rw [← same]
        exact List.mem_cons_self
      · have listed := ih stands
        cases f with
        | activation ctx =>
            cases stack with
            | nil => cases listed
            | cons g rest =>
                cases g with
                | hostCall d => exact List.mem_cons_of_mem _ listed
                | _ => exact listed
        | _ => exact listed

namespace Machine

variable {m : Machine} {s : ObjId} {n : NativeId}

def contexts (m : Machine) : List Context := m.context :: m.stack.filterMap Frame.saved?

theorem entered_eq (m : Machine) : m.entered = m.contexts.flatMap Context.entered := by
  unfold Machine.entered contexts
  rw [List.flatMap_cons]
  congr 1
  induction m.stack with
  | nil => rfl
  | cons f stack ih =>
      rw [List.flatMap_cons, ih, List.filterMap_cons]
      cases f <;> rfl

theorem mem_entered : n ∈ m.entered ↔ ∃ a, .body a ∈ m.contexts ∧ a.native = n := by
  rw [entered_eq, List.mem_flatMap]
  constructor
  · rintro ⟨ctx, listed, mem⟩
    cases ctx with
    | body a => exact ⟨a, listed, (List.mem_singleton.mp mem).symm⟩
    | _ => cases mem
  · rintro ⟨a, listed, rfl⟩
    exact ⟨_, listed, List.mem_cons_self⟩

/-- What keeps a store alive: a variable, global or of a running body, that holds it; a running call on
it; a handle or view of something that was made in it; or a closure that captured it, a host value or a
cell that holds it. -/
inductive Keeps (m : Machine) (s : ObjId) : Prop
  | global (name : String) (held : (name, .store s) ∈ m.globals)
  | body (a : Activation) (name : String) (runs : .body a ∈ m.contexts)
      (held : (name, .store s) ∈ a.locals)
  | call (a : Activation) (runs : .body a ∈ m.contexts) (store : a.store = s)
  | handle (id : ObjId) (h : Handle) (alive : m.world.handle? id = some h) (store : h.store = s)
  | captured (id : ObjId) (code : HostCode) (captures : Scope) (name : String)
      (alive : m.world.closure? id = some (code, captures)) (held : (name, .store s) ∈ captures)
  | content (id : ObjId) (alive : m.world.payload? id = some (.item (.store s)))
  | cell (id : ObjId) (alive : m.world.object? id = some (.cell (some (.store s))))

/-- A reference from outside the heap to a store. -/
theorem Coherent.keeps_of_held (coherent : m.Coherent) (isStore : m.world.shapes.IsStore s n)
    (mem : s ∈ m.held) : m.Keeps s := by
  unfold Machine.held owns at mem
  rw [List.mem_append, List.mem_append] at mem
  rcases mem with mem | mem | mem
  · have placed := coherent.placed
    generalize m.control = control at mem placed
    generalize m.stack = stack at placed
    generalize m.world.thread.frames = slots at placed
    cases placed with
    | complete stacked fits => exact absurd (fits s mem) isStore.not_referent
    | engine stacked returned =>
        cases returned with
        | values vals kinds refs =>
            have listed : s ∈ Slot.refs (vals.map Slot.ofVal) := mem
            rw [Slot.refs_ofVals] at listed
            exact absurd (refs s listed) isStore.not_referent
        | trap t => cases mem
        | panic f => cases mem
    | _ => cases mem
  · obtain ⟨name, held⟩ := coherent.globals.holds_store isStore mem
    exact .global name held
  · obtain ⟨slots, stacked⟩ := coherent.placed.stacked
    obtain ⟨a, runs, store | ⟨name, held⟩⟩ := stacked.holds_store isStore mem
    · exact .call a runs store
    · exact .body a name runs held

/-- A reference from the heap to a store. -/
theorem Coherent.keeps_of_owned (coherent : m.Coherent) (isStore : m.world.shapes.IsStore s n)
    (mem : s ∈ m.world.owned) : m.Keeps s := by
  obtain ⟨id, ⟨k, o⟩, entry, alive, mem⟩ := World.mem_owned.mp mem
  have fits : o.Fits m.world.shapes id := coherent.world.objects entry
  have object : m.world.object? id = some o := by
    unfold World.object?
    rw [entry]
    exact if_neg alive
  cases o with
  | store native config p => cases mem
  | handle h =>
      have fits : h.Fits m.world.shapes := fits
      rcases List.mem_cons.mp mem with rfl | mem
      · exact .handle id h (by rw [World.handle?, object]) rfl
      · rcases List.mem_append.mp mem with mem | mem
        · obtain ⟨k, known, -⟩ := fits.owner s (Option.mem_toList.mp mem)
          exact absurd known isStore.not_handle
        · obtain ⟨-, t, type, -, isEnv, -⟩ := coherent.world.env_known
            (World.isHandle_iff.mpr ⟨k, entry⟩) (Option.mem_toList.mp mem)
          exact absurd isEnv isStore.not_env
  | env closure type t =>
      obtain ⟨-, c, code, captures, -, isClosure, -, own⟩ := fits
      obtain rfl : closure = some s := Option.mem_toList.mp mem
      obtain rfl := own s rfl
      exact absurd isClosure isStore.plain
  | closure code captures =>
      obtain ⟨name, held⟩ := fits.2.holds_store isStore mem
      exact .captured id code captures name (by rw [World.closure?, object]) held
  | referent label payload =>
      cases payload with
      | item i =>
          obtain rfl := (fits i rfl).eq_store isStore mem
          exact .content id (by rw [World.payload?, object])
      | _ => cases mem
  | cell content =>
      cases content with
      | none => cases mem
      | some i =>
          have mem : s ∈ i.refs := by simpa [Object.refs] using mem
          obtain rfl := (fits i rfl).eq_store isStore mem
          exact .cell id object

/-- Whatever keeps a store is a counted reference to it. -/
theorem Coherent.alive_of_keeps (coherent : m.Coherent) (keeps : m.Keeps s) : m.world.strong s ≠ 0 := by
  have sound := coherent.world
  have owned {id : ObjId} {o : Object} (object : m.world.object? id = some o) (mem : s ∈ o.refs) :
      m.world.strong s ≠ 0 := by
    unfold World.object? at object
    split at object
    · next e entry =>
        split at object
        · cases object
        · next alive =>
            cases object
            exact sound.alive_of_mem_owned (World.mem_owned.mpr ⟨id, e, entry, alive, mem⟩)
    · cases object
  have stored {scope : Scope} {name : String} (held : (name, .store s) ∈ scope) : s ∈ scope.refs :=
    List.mem_flatMap.mpr ⟨_, held, List.mem_cons_self⟩
  have context {ctx : Context} (listed : ctx ∈ m.contexts) (mem : s ∈ ctx.refs) :
      m.world.strong s ≠ 0 := by
    refine sound.alive (List.mem_append_right _ (List.mem_append_right _ ?_))
    rcases List.mem_cons.mp listed with rfl | saved
    · exact List.mem_append_left _ mem
    · obtain ⟨f, onStack, same⟩ := List.mem_filterMap.mp saved
      refine List.mem_append_right _ (List.mem_flatMap.mpr ⟨f, onStack, ?_⟩)
      cases f <;> cases same <;> exact mem
  cases keeps with
  | global name held =>
      exact sound.alive (List.mem_append_right _ (List.mem_append_left _ (stored held)))
  | body a name runs held => exact context runs (List.mem_append_left _ (stored held))
  | call a runs store =>
      refine context runs (List.mem_append_right _ (List.mem_append_right _ ?_))
      rw [← store]
      simp
  | handle id h alive store =>
      rw [← store]
      exact sound.toAccounted.store_alive alive
  | captured id code captures name alive held =>
      unfold World.closure? at alive
      split at alive
      · next object =>
          cases alive
          exact owned object (stored held)
      · cases alive
  | content id alive =>
      unfold World.payload? at alive
      split at alive
      · next object =>
          cases alive
          exact owned object List.mem_cons_self
      · cases alive
  | cell id alive => exact owned alive (by simp [Object.refs, Item.refs])

/-- A store lives exactly as long as something keeps it. -/
theorem Coherent.keeps_iff (coherent : m.Coherent) (isStore : m.world.shapes.IsStore s n) :
    m.world.strong s ≠ 0 ↔ m.Keeps s := by
  refine ⟨fun alive => ?_, coherent.alive_of_keeps⟩
  have sound := coherent.world
  have counted := sound.counted s
  rw [sound.retired, List.count_nil] at counted
  by_cases held : s ∈ m.held
  · exact coherent.keeps_of_held isStore held
  by_cases owned : s ∈ m.world.owned
  · exact coherent.keeps_of_owned isStore owned
  -- What is left are the environments that functions were lent.
  rw [List.count_eq_zero.mpr held, List.count_eq_zero.mpr owned] at counted
  have lent : s ∈ m.world.lent := List.count_pos_iff.mp (by omega)
  obtain ⟨⟨o, d⟩, listed, mem⟩ := List.mem_flatMap.mp lent
  obtain ⟨i, body⟩ := List.mem_iff_getElem?.mp listed
  have found : m.world.nativeObject? ⟨i⟩ = some o := by simp [World.nativeObject?, body]
  have env : o.env? = some s := by
    unfold Native.lent at mem
    split at mem
    · exact Option.mem_toList.mp mem
    · cases mem
  have lentTo : m.world.lentTo ⟨i⟩ = some s := by
    unfold World.lentTo
    rw [found]
    exact env
  obtain ⟨j, h, type, -, -, isEnv⟩ := sound.owner_of_lentTo lentTo
  exact absurd isEnv isStore.not_env

/-! ## Deleted stores -/

/-- The native side of a store is deleted, once, as soon as nothing refers to the store. -/
theorem Coherent.deleted_iff (coherent : m.Coherent) (isStore : m.world.shapes.IsStore s n) :
    m.world.deletions n = 1 ↔ m.world.strong s = 0 := by
  obtain ⟨k, config, p, entry⟩ := World.isStore_iff.mp isStore
  have fits : Object.Fits m.world.shapes s (.store n config p) := coherent.world.objects entry
  have size : n.index < m.world.natives.size := by
    obtain ⟨o, found, -⟩ := Option.map_eq_some_iff.mp fits.1
    exact World.nativeObject?_isSome.mp (by rw [found]; rfl)
  have unqueued : n ∉ m.world.queued := fun queued => by
    obtain ⟨t, mem⟩ := World.mem_queued.mp queued
    obtain ⟨kind, mem⟩ := Pending.mem_inOrder.mp mem
    obtain ⟨j, h, owner, -⟩ := coherent.world.queued_owner mem
    obtain ⟨known, -, native⟩ := World.isOwner_iff.mp owner
    obtain ⟨o, found, handled, -⟩ := coherent.world.handle_native known
    have shape : (m.world.nativeObject? n).map Native.shape = some (.store ⟨config, false, 0⟩) := fits.1
    rw [← native, found, Option.map_some] at shape
    cases o <;> simp [Native.isHandled, Native.shape] at handled shape
  have claimed : n ∈ m.world.claimed ↔ m.world.strong s ≠ 0 := by
    constructor
    · intro mem
      obtain ⟨t, e, found, alive, claim⟩ := World.mem_claimed.mp mem
      have shape := World.shapes_of_entry found
      obtain rfl := coherent.world.claimsUnique (n := n) (World.shapes_of_entry entry) shape rfl
        (by rw [Object.claim?_shape]; exact claim)
      rwa [World.strong_eq found]
    · intro alive
      rw [World.strong_eq entry] at alive
      exact World.mem_claimed.mpr ⟨s, _, entry, alive, rfl⟩
  rcases coherent.world.place size with ⟨mem, -, kept⟩ | ⟨-, count, -⟩ | ⟨free, -, deleted⟩
  · have alive := claimed.mp mem
    exact iff_of_false (by omega) alive
  · exact absurd (List.count_pos_iff.mp (by omega)) unqueued
  · exact iff_of_true deleted (by
      by_contra alive
      exact free (claimed.mpr alive))

/-- The function of a running call is held, and is one of the store that the call runs in. -/
theorem Coherent.running_call (coherent : m.Coherent) (isStore : m.world.shapes.IsStore s n)
    (entered : n ∈ m.entered) : ∃ saved c below h,
      .activation saved :: .hostCall c :: below <:+ m.stack ∧
        m.world.shapes.IsHandle c.request.func h ∧ h.store = s := by
  obtain ⟨a, runs, rfl⟩ := mem_entered.mp entered
  obtain ⟨slots, stacked⟩ := coherent.placed.stacked
  obtain ⟨fits, saved, c, below, stands, body⟩ := stacked.bodies runs
  obtain ⟨h, f, known, -, -, store, -⟩ := body.func
  refine ⟨saved, c, below, h, stands, known, ?_⟩
  obtain ⟨config, first⟩ := fits.store
  obtain ⟨config', second⟩ := isStore
  rw [store]
  exact coherent.world.claimsUnique first second rfl rfl

/-- No callback runs in a store that is deleted. -/
theorem Coherent.calm_of_deleted (coherent : m.Coherent) (isStore : m.world.shapes.IsStore s n)
    (deleted : m.world.deletions n = 1) : n ∉ m.entered := by
  intro entered
  obtain ⟨saved, c, below, h, stands, known, rfl⟩ := coherent.running_call isStore entered
  have owned : c.request.func ∈ m.held :=
    running_held (Frame.running_of_suffix stands)
  have found := World.handle?_eq_some.mpr ⟨known, coherent.world.alive owned⟩
  exact coherent.world.toAccounted.store_alive found ((coherent.deleted_iff isStore).mp deleted)

/-- The transition that deletes a store finds no callback running in it. -/
theorem Coherent.calm_before (coherent : m.Coherent) (isStore : m.world.shapes.IsStore s n)
    (deleted : m.step.world.deletions n = 1) : n ∉ m.entered := by
  intro entered
  have later := coherent.step
  have grows := coherent.grows
  obtain ⟨saved, c, below, h, stands, known, rfl⟩ := coherent.running_call isStore entered
  -- The call of the body is still waiting after the transition, even if the body has ended with it.
  have waits : .hostCall c :: below <:+ m.step.stack := by
    by_contra gone
    have on : Frame.OnCall (.hostCall c :: below) := rfl
    obtain ⟨top, -⟩ := coherent.inOrder.returns_to on ((List.suffix_cons _ _).trans stands) gone
    rw [top] at stands
    have longer := stands.length_le
    simp at longer
  have owned : c.request.func ∈ m.step.held := by
    refine List.mem_append_right _ (List.mem_append_right _ (List.mem_append_right _ ?_))
    refine List.mem_flatMap.mpr ⟨.hostCall c, waits.subset List.mem_cons_self, ?_⟩
    simp [Frame.refs, CallRequest.refs]
  have found := World.handle?_eq_some.mpr ⟨grows.object known, later.world.alive owned⟩
  exact later.world.toAccounted.store_alive found
    ((later.deleted_iff (isStore.mono grows)).mp deleted)

/-! ## A whole run -/

/-- How the stores of a run end. -/
structure StoreTeardown (run : Nat → Machine) : Prop where
  /-- Every native store is the native side of one store. -/
  home : ∀ k {n st}, (run k).world.nativeObject? n = some (.store st) →
    ∃! s, (run k).world.storeNative? s = some n
  /-- No native object is deleted twice. -/
  once : ∀ k n, (run k).world.deletions n ≤ 1
  /-- A native store is deleted exactly when nothing keeps its store: no variable, handle or view, nothing
  that captured it and no running call. Neither the queues of stores nor the environments of functions
  are among what keeps it. -/
  exactly : ∀ k {s n}, (run k).world.storeNative? s = some n →
    ((run k).world.deletions n = 1 ↔ ¬ (run k).Keeps s)
  counted : ∀ k {s n}, (run k).world.storeNative? s = some n →
    ((run k).world.strong s ≠ 0 ↔ (run k).Keeps s)
  /-- Then nothing is queued in the store, everything that was made in it was deleted once, and none of
  its callbacks is running. -/
  emptied : ∀ k {s n}, (run k).world.storeNative? s = some n → (run k).world.deletions n = 1 →
    (run k).world.pending s = {} ∧ (∀ x, (run k).MadeIn x s → (run k).world.deletions x = 1) ∧
      n ∉ (run k).entered
  /-- When a transition deletes it, no callback of the store was running before either. -/
  calm : ∀ k {s n}, (run k).world.storeNative? s = some n → (run k).world.deletions n = 0 →
    (run (k + 1)).world.deletions n = 1 → n ∉ (run k).entered ∧ n ∉ (run (k + 1)).entered
  /-- No finalizer was running in any deletion of a store: the guard against that has never failed. -/
  guarded : ∀ k, (run k).world.aborted = none ∧ ∀ t ∈ (run k).threads, t.finalizing = 0
  /-- In all releasing work, when the deletion of a native store is the next task, its store is gone, with
  an empty queue; everything that was made in it has been deleted; no handle, view or callback of it is
  left and no finalizer is running. -/
  moment : ∀ k {tasks}, (run k).Work tasks → ∀ i {s n rest}, (run k).world.storeNative? s = some n →
    (World.drain i tasks (run k).world).1 = .deleteStore n :: rest →
      (World.drain i tasks (run k).world).2.Ending s n ∧ n ∉ (run k).entered
  /-- The drop of the last reference to a store flushes it and deletes it before anything else is done, on
  whatever occasion. -/
  ends : ∀ {w : World} {held s n}, w.Sound held → w.storeNative? s = some n → w.strong s = 1 →
    ∀ rest, w.complete (.ref s :: rest) = (((w.modifyEntry s fun e => { e with strong := 0 }).flush
      s).perform (.deleteStore n)).2.complete rest

/-- Every native store is that of one store. -/
theorem Coherent.home (coherent : m.Coherent) {st : NativeStore}
    (found : m.world.nativeObject? n = some (.store st)) : ∃! s, m.world.storeNative? s = some n := by
  have known : m.world.shapes.native? n = some (Native.store st).shape := congrArg (Option.map _) found
  obtain ⟨s, o, isObject, claim⟩ := coherent.world.claimsTotal known
  cases o with
  | store native config p =>
      obtain rfl : native = n := Option.some.inj claim
      obtain ⟨⟨k, o⟩, entry, shape⟩ := World.shapes_object?.mp isObject
      obtain ⟨rfl, q, rfl⟩ := Object.shape_eq_store.mp shape
      refine ⟨s, World.storeNative?_eq_some.mpr ⟨config, isObject⟩, fun t other => ?_⟩
      obtain ⟨config', isObject'⟩ := World.storeNative?_eq_some.mp other
      exact coherent.world.claimsUnique isObject' isObject rfl rfl
  | handle h =>
      -- A handle stands for a memory, a function or an interrupt handle.
      have isHandle : m.world.shapes.IsHandle s h := isObject
      obtain ⟨o, object, handled, -⟩ := coherent.world.handle_native isHandle
      obtain rfl : h.native = n := by
        unfold Object.claim? at claim
        dsimp only at claim
        split at claim
        · exact Option.some.inj claim
        · cases claim
      cases found.symm.trans object
      cases handled
  | _ => cases claim

theorem Coherent.moment (coherent : m.Coherent) {tasks rest : List Task} (work : m.Work tasks) {i : Nat}
    (store : m.world.storeNative? s = some n)
    (next : (World.drain i tasks m.world).1 = .deleteStore n :: rest) :
    (World.drain i tasks m.world).2.Ending s n ∧ n ∉ m.entered := by
  have isStore := World.storeNative?_eq_some.mp store
  obtain ⟨held, detaching, running⟩ := coherent.guarding work
  have staged : World.Staged m.world.shapes tasks := by
    cases work with
    | drop ids => exact .dropping (World.drops_refs ids)
    | flush s =>
        refine .flushing fun t mem => ?_
        obtain rfl := List.mem_singleton.mp mem
        trivial
  have shapes := (World.drains_drain i tasks m.world).shapes
  have drained := detaching.drain (k := i)
  have behind := detaching.staged_drain (k := i) staged
  rw [next] at drained behind
  have ending := drained.ending behind.behind (by rw [shapes]; exact isStore)
  refine ⟨ending, fun entered => ?_⟩
  obtain ⟨saved, c, below, h, stands, known, same⟩ := coherent.running_call isStore entered
  have kept := drained.acc.alive (List.mem_append_right _ (running _ (Frame.running_of_suffix stands)))
  exact ending.handles (World.handle?_eq_some.mpr ⟨by rw [shapes]; exact known, kept⟩) same

/-- On every run of a public script, over any number of stores. -/
theorem storeTeardown_after (level : Option LogLevel) {script : Block}
    (isPublic : Block.isPublic script = true) : StoreTeardown (after level script) := by
  have coherent := coherent_after level isPublic
  constructor
  case home =>
      intro k n st found
      exact (coherent k).home found
  case once =>
      intro k n
      exact (coherent k).world.deletions_le_one n
  case exactly =>
      intro k s n store
      have isStore := World.storeNative?_eq_some.mp store
      rw [(coherent k).deleted_iff isStore, ← (coherent k).keeps_iff isStore, not_not]
  case counted =>
      intro k s n store
      exact (coherent k).keeps_iff (World.storeNative?_eq_some.mp store)
  case emptied =>
      intro k s n store deleted
      have isStore := World.storeNative?_eq_some.mp store
      have dead := ((coherent k).deleted_iff isStore).mp deleted
      refine ⟨(coherent k).world.rested s dead, fun x made => ?_, (coherent k).calm_of_deleted isStore deleted⟩
      obtain ⟨id, h, owner, rfl⟩ := made
      have gone : x ∉ (after level script k).world.claimed := fun claimed => by
        obtain ⟨known, -⟩ := World.isOwner_iff.mp owner
        have alive := ((coherent k).world.mem_claimed_iff owner).mp claimed
        exact (coherent k).world.toAccounted.store_alive (World.handle?_eq_some.mpr ⟨known, alive⟩) dead
      obtain ⟨known, -, rfl⟩ := World.isOwner_iff.mp owner
      obtain ⟨o, found, -⟩ := (coherent k).world.handle_native known
      rcases (coherent k).world.place
        (World.nativeObject?_isSome.mp (Option.isSome_of_eq_some found)) with ⟨claimed, -⟩ | ⟨-, count, -⟩ |
        ⟨-, -, once⟩
      · exact absurd claimed gone
      · have listed := (coherent k).queued owner count
        rw [(coherent k).world.rested h.store dead] at listed
        cases kind : h.state <;> rw [kind] at listed <;> cases listed
      · exact once
  case calm =>
      intro k s n store _ deleted
      have isStore := World.storeNative?_eq_some.mp store
      rw [after_succ] at deleted ⊢
      exact ⟨(coherent k).calm_before isStore deleted,
        (coherent k).step.calm_of_deleted (isStore.mono (coherent k).grows) deleted⟩
  case guarded =>
      intro k
      have safe := (coherent k).finalizerSafety
      exact ⟨safe.aborted, fun t mem => (safe.threads t mem).1⟩
  case moment =>
      intro k tasks work i s n rest store next
      exact (coherent k).moment work store next
  case ends =>
      intro w held s n sound store last rest
      obtain ⟨k, config, p, entry⟩ := World.isStore_iff.mp (World.storeNative?_eq_some.mp store)
      have count := World.strong_eq entry
      rw [last] at count
      obtain rfl : 1 = k := count
      exact World.complete_last entry rest

/-- Two stores: a function of one has captured the other, and only the function is left. -/
def capturedStore : Block :=
  [(⟨false, false⟩, .plain (.store (.scoped "s") none)),
    (⟨false, false⟩, .plain (.store (.scoped "t") none)),
    (⟨false, false⟩, .func (.scoped "f") (.scoped "s") (.generic ⟨[], []⟩) "f" false [.scoped "t"] []),
    (⟨false, false⟩, .plain (.drop (.scoped "s"))),
    (⟨false, false⟩, .plain (.drop (.scoped "t"))),
    (⟨false, false⟩, .plain (.drop (.scoped "f")))]

/-- The function keeps both stores; once it is dropped too, both are deleted, and the function was deleted
with its store. -/
theorem storeTeardown_after_capturedStore : Block.isPublic capturedStore = true ∧
    (after none capturedStore 10).Keeps ⟨0⟩ ∧ (after none capturedStore 10).Keeps ⟨1⟩ ∧
      ¬ (after none capturedStore 12).Keeps ⟨1⟩ ∧
        (after none capturedStore 12).world.deletions ⟨2⟩ = 1 := by
  have isPublic : Block.isPublic capturedStore = true := by decide
  have teardown := storeTeardown_after none isPublic
  have store (k : Nat) {s n} (store : (after none capturedStore k).world.storeNative? s = some n)
      (kept : (after none capturedStore k).world.deletions n = 0) :
      (after none capturedStore k).Keeps s := by
    by_contra gone
    have deleted := (teardown.exactly k store).mpr gone
    omega
  refine ⟨isPublic, store 10 (n := ⟨0⟩) (by decide +kernel) (by decide +kernel),
    store 10 (n := ⟨1⟩) (by decide +kernel) (by decide +kernel),
    (teardown.exactly 12 (n := ⟨1⟩) (by decide +kernel)).mp (by decide +kernel), ?_⟩
  have deleted := teardown.emptied 12 (s := ⟨0⟩) (n := ⟨0⟩) (by decide +kernel) (by decide +kernel)
  refine deleted.2.1 ⟨2⟩ ⟨⟨4⟩, ⟨⟨2⟩, ⟨0⟩, none, .func (some ⟨3⟩)⟩, ⟨⟨0, ?_⟩, rfl, rfl⟩, rfl⟩
  rfl

end Machine

end HostEmbedding
