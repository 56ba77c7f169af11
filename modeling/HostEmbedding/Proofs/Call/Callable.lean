import HostEmbedding.Proofs.Call.Values

/-!
# Callable functions

What a live function handle reaches is there: its native function and native store have not been
deleted, and its environment still holds the closure. So a call that the gate admits always runs the
closure, on the arguments of the call and in the store of the function.
-/

namespace HostEmbedding

structure Callee where
  type : FuncType
  native : NativeId
  env : ObjId
  closure : ObjId
  code : HostCode
  captures : Scope

def Shape.scalars (shape : Shape) (params : List (Val ObjId)) : List (Scalar ObjId) :=
  (shape.decode params).toOption.getD []

theorem Shape.scalars_eq {shape : Shape} {params : List (Val ObjId)} {ss : List (Scalar ObjId)}
    (decoded : shape.decode params = .ok ss) : shape.scalars params = ss := by
  unfold scalars
  rw [decoded]
  rfl

/-- Parameters of the declared kinds are decoded. -/
theorem Shape.decode_ok {shape : Shape} {params : List (Val ObjId)}
    (kinds : params.map Val.kind = shape.funcType.params) :
    ∃ ss, shape.decode params = .ok ss ∧ TypeList.encode ss = params := by
  cases shape with
  | generic type => exact ⟨_, rfl, Scalar.encode_ofVals params⟩
  | typed sig caller fallible => exact sig.params.decode_ok kinds

theorem Shape.decode_scalars {shape : Shape} {params : List (Val ObjId)}
    (kinds : params.map Val.kind = shape.funcType.params) :
    shape.decode params = .ok (shape.scalars params) := by
  obtain ⟨ss, decoded, -⟩ := decode_ok kinds
  rw [scalars_eq decoded, decoded]

/-- The scalars of a body are its parameters, seen at the types of its code. -/
theorem Shape.encode_scalars {shape : Shape} {params : List (Val ObjId)}
    (kinds : params.map Val.kind = shape.funcType.params) :
    TypeList.encode (shape.scalars params) = params := by
  obtain ⟨ss, decoded, encoded⟩ := decode_ok kinds
  rw [scalars_eq decoded, encoded]

theorem Shape.refs_scalars {shape : Shape} {params : List (Val ObjId)}
    (kinds : params.map Val.kind = shape.funcType.params) :
    Scalar.refs (shape.scalars params) = Val.refs params := by
  rw [← Scalar.refs_encode, encode_scalars kinds]

/-- A body runs the steps of its code when its parameters can be decoded. -/
theorem Activation.steps_eq {a : Activation} {ss : List (Scalar ObjId)}
    (decoded : a.code.shape.decode a.params = .ok ss) : a.steps = a.code.body := by
  unfold steps
  rw [decoded]

namespace World

variable {w v : World} {held held' : List ObjId} {moving : List NativeId}

/-! ## What a live function reaches -/

/-- What a live object claims has not been deleted and is in no queue. -/
theorem Balanced.claim_live (bal : w.Balanced held moving) {i : ObjId} {o : Object} {n : NativeId}
    (known : w.shapes.object? i = some o) (alive : w.strong i ≠ 0) (claim : o.claim? = some n) :
    w.deletions n = 0 ∧ n ∉ w.queued ∧ w.claimed.count n = 1 := by
  obtain ⟨e, found, rfl⟩ := shapes_object?.mp known
  rw [Object.claim?_shape] at claim
  rw [strong_eq found] at alive
  have mem : n ∈ w.claimed := mem_claimed.mpr ⟨i, e, found, alive, claim⟩
  have positive := List.count_pos_iff.mpr mem
  have place := bal.placed n
  split at place
  · exact ⟨by omega, List.count_eq_zero.mp (by omega), by omega⟩
  · omega

/-- The native object of a live handle has not been deleted. -/
theorem Balanced.handle_live (bal : w.Balanced held moving) {id : ObjId} {h : Handle}
    (found : w.handle? id = some h) : w.deletions h.native = 0 := by
  obtain ⟨k, known, owner, native, -⟩ := bal.owner_known (handle?_eq_some.mp found).1
  have claim : (Object.handle k).claim? = some h.native := by
    simp [Object.claim?, Handle.isOwning, owner, native]
  exact (bal.claim_live known (bal.keeps_alive found).2 claim).1

/-- The native side of a live store has not been deleted. -/
theorem Balanced.store_live (bal : w.Balanced held moving) {s : ObjId} {n : NativeId}
    (isStore : w.shapes.IsStore s n) (alive : w.strong s ≠ 0) : ∃ st, w.nativeStore? n = some st := by
  obtain ⟨config, known⟩ := isStore
  obtain ⟨⟨k, o⟩, found, same⟩ := shapes_object?.mp known
  obtain ⟨-, p, rfl⟩ := Object.shape_eq_store.mp same
  obtain ⟨native, -⟩ : Object.Fits w.shapes s (.store n config p) := bal.objects found
  obtain ⟨o, object, same⟩ := nativeObject_of_shape native
  have live := (bal.claim_live known alive rfl).1
  cases o <;> simp [Native.shape] at same
  next st =>
    refine ⟨st, ?_⟩
    unfold nativeStore?
    rw [native?_eq, if_pos live, object]

/-- A function can be called: nothing that the call needs is gone. -/
structure Callable (w : World) (h : Handle) (callee : Callee) : Prop where
  func : w.nativeFunc? h.native = some ⟨callee.native, callee.type.toNative, .host callee.env⟩
  store : ∃ s, w.nativeStore? callee.native = some s
  isStore : w.shapes.IsStore h.store callee.native
  storeAlive : w.strong h.store ≠ 0
  env : ∃ k, w.entry? callee.env = some ⟨k, .env (some callee.closure) callee.type h.store⟩
  closure : w.closure? callee.closure = some (callee.code, callee.captures)
  shape : callee.code.shape.funcType = callee.type

theorem Callable.attached {h : Handle} {callee : Callee} (callable : w.Callable h callee) :
    w.attached? callee.env = some callee.closure := by
  obtain ⟨k, found⟩ := callable.env
  exact attached?_eq_some.mpr ⟨k, _, _, found⟩

/-- Every live function can be called. -/
theorem Accounted.callable (acc : w.Accounted held moving) {id : ObjId} {h : Handle} {f : NativeFunc}
    (found : w.handle? id = some h) (native : w.shapes.native? h.native = some (.func f)) :
    ∃ callee, w.Callable h callee ∧ f = ⟨callee.native, callee.type.toNative, .host callee.env⟩ := by
  obtain ⟨k, known, owner, sameNative, sameStore⟩ := acc.owner_known (handle?_eq_some.mp found).1
  obtain ⟨storeAlive, ownerAlive⟩ := acc.keeps_alive found
  have native' := native
  rw [← sameNative] at native'
  obtain ⟨env, s, type, state, rfl, isStore, isEnv⟩ := acc.func_owner known owner native'
  rw [sameStore] at isStore isEnv
  have held : k.state.env? = some env := by rw [state]; rfl
  obtain ⟨j, closure, t, st, entry⟩ := acc.holding known ownerAlive held
  obtain ⟨rfl, rfl⟩ : t = type ∧ st = h.store := by
    obtain ⟨j', c', entry'⟩ := isEnv_iff.mp isEnv
    rw [entry] at entry'
    cases entry'
    exact ⟨rfl, rfl⟩
  -- The environment is alive because the owning handle holds it.
  have envAlive : j ≠ 0 := by
    obtain ⟨n, found'⟩ := isHandle_iff.mp known
    rw [strong_eq found'] at ownerAlive
    have owned : env ∈ (Object.handle k).refs := by simp [Object.refs, Handle.refs, held]
    have alive := acc.alive_of_owned found' ownerAlive owned
    rwa [strong_eq entry] at alive
  have closureAlive : w.strong closure ≠ 0 :=
    acc.alive_of_owned entry envAlive (by simp [Object.refs])
  obtain ⟨-, c, code, captures, -, isClosure, shape, attached⟩ :
      Object.Fits w.shapes env (.env (some closure) t h.store) := acc.objects entry
  obtain rfl := attached closure rfl
  have func : w.nativeFunc? h.native = some ⟨s, t.toNative, .host env⟩ := by
    obtain ⟨o, object, same⟩ := nativeObject_of_shape native
    obtain rfl : o = .func ⟨s, t.toNative, .host env⟩ := by
      cases o <;> simp [Native.shape] at same ⊢
      exact same
    exact nativeFunc?_eq_some.mpr (by rw [native?_eq, if_pos (acc.handle_live found), object])
  exact ⟨⟨t, s, env, closure, code, captures⟩,
    ⟨func, acc.store_live isStore storeAlive, isStore, storeAlive, ⟨j, entry⟩,
      closure?_eq_some.mpr ⟨isClosure, closureAlive⟩, shape⟩, rfl⟩

/-! ## The gate -/

/-- A call of a live function on arguments of its kinds is refused for a pending interrupt or for
exhausted depth, and for nothing else. -/
theorem Callable.tryEnter {h : Handle} {callee : Callee} (callable : w.Callable h callee)
    {s : NativeStore} (store : w.nativeStore? callee.native = some s) {args : List (Val ObjId)}
    (kinds : args.map Val.kind = callee.type.params) :
    w.tryEnter h.native (args.map Slot.ofVal) callee.type.results.length =
      if s.interrupt then
        (.error (.ofCode .interrupt),
          w.modifyNativeStore callee.native fun s => { s with interrupt := false })
      else if s.config.maxCallDepth ≤ s.depth then (.error (.ofCode .stackOverflow), w)
      else
        (.ok ⟨⟨callee.native, callee.type.toNative, .host callee.env⟩, s.depth + 1⟩,
          w.modifyNativeStore callee.native fun s => { s with depth := s.depth + 1 }) := by
  have count : args.length = callee.type.toNative.params.length := by
    rw [FuncType.toNative, List.length_map, ← kinds, List.length_map]
  have slots : callee.type.results.length = callee.type.toNative.results.length :=
    (List.length_map _).symm
  have codes : firstWrongKind callee.type.toNative.params (args.map Slot.ofVal) = none :=
    Slot.firstWrongKind_ofVal kinds
  unfold World.tryEnter
  rw [callable.func]
  dsimp only
  rw [store]
  dsimp only
  rw [List.length_map, codes]
  simp only [count, slots, ne_eq, not_true_eq_false, or_self, if_false, leave_count]
  rfl

/-! ## Entering -/

/-- The world in which a body starts: its store, its closure, its parameters and its locals are
counted, and the start is recorded. -/
def started (w : World) (store closure : ObjId) (code : HostCode) (args : List (Val ObjId)) : World :=
  let scalars := code.shape.scalars args
  let counted := (((w.retain store).retain closure).retainAll (Val.refs args)).retainAll
    (Scalar.refs scalars)
  if code.quiet then counted else counted.emit (.entered code.label (scalars.map counted.shown))

theorem closure?_retain {c id : ObjId} {code : HostCode} {captures : Scope}
    (found : w.closure? c = some (code, captures)) :
    (w.retain id).closure? c = some (code, captures) := by
  obtain ⟨known, alive⟩ := closure?_eq_some.mp found
  refine closure?_eq_some.mpr ⟨?_, strong_retain_ne_zero alive⟩
  rw [shapes_retain]
  exact known

/-- A body starts on the arguments of the call. -/
theorem enterHost_attached {env closure store : ObjId} {k : Nat} {type : FuncType} {code : HostCode}
    {captures : Scope} (found : w.entry? env = some ⟨k, .env (some closure) type store⟩)
    (storeAlive : w.strong store ≠ 0) (attached : w.closure? closure = some (code, captures))
    {args : List (Val ObjId)} (kinds : args.map Val.kind = type.params)
    (decoded : code.shape.decode args = .ok (code.shape.scalars args)) (native : NativeId)
    (depth : UInt32) (slots : Nat) :
    w.enterHost env native (args.map Slot.ofVal) depth slots =
      (.ok ⟨code, type, closure, store, native, args,
        Activation.initialLocals (code.shape.scalars args), depth, slots⟩,
        w.started store closure code args) := by
  unfold World.enterHost
  rw [found]
  dsimp only
  rw [if_neg storeAlive]
  simp only [Option.bind_some, closure?_retain attached, Option.map_some, decodeBorrowed,
    Slot.read_ofVals kinds, decoded]
  rfl

/-- Starting a body counts what the body owns. -/
theorem Sound.started {store closure : ObjId} {code : HostCode} {args : List (Val ObjId)}
    (sound : w.Sound held) (storeAlive : w.strong store ≠ 0) (closureAlive : w.strong closure ≠ 0)
    (refs : Scalar.refs (code.shape.scalars args) = Val.refs args)
    (alive : ∀ r ∈ Val.refs args, w.strong r ≠ 0) :
    (w.started store closure code args).Sound
        (Scalar.refs (code.shape.scalars args) ++ (Val.refs args ++ ([closure, store] ++ held))) ∧
      Evolves w (w.started store closure code args) := by
  have closureAlive' : (w.retain store).strong closure ≠ 0 := strong_retain_ne_zero closureAlive
  let twice := (w.retain store).retain closure
  have sound₁ : twice.Sound ([closure, store] ++ held) :=
    (sound.retain storeAlive).retain closureAlive'
  have evolves₁ : Evolves w twice := (evolves_retain storeAlive).trans (evolves_retain closureAlive')
  have alive₁ : ∀ r ∈ Val.refs args, twice.strong r ≠ 0 := fun r mem =>
    strong_retain_ne_zero (strong_retain_ne_zero (alive r mem))
  let params := twice.retainAll (Val.refs args)
  have sound₂ : params.Sound (Val.refs args ++ ([closure, store] ++ held)) :=
    sound₁.retainAll _ alive₁
  have alive₂ : ∀ r ∈ Scalar.refs (code.shape.scalars args), params.strong r ≠ 0 := by
    intro r mem
    rw [refs] at mem
    exact sound₂.alive (List.mem_append_left _ mem)
  have sound₃ := sound₂.retainAll _ alive₂
  have evolves₃ := (evolves₁.trans (evolves_retainAll _ alive₁)).trans (evolves_retainAll _ alive₂)
  unfold World.started
  dsimp only
  split
  · exact ⟨sound₃, evolves₃⟩
  · have shown := same_emit (params.retainAll (Scalar.refs (code.shape.scalars args)))
      (e := .entered code.label ((code.shape.scalars args).map
        (params.retainAll (Scalar.refs (code.shape.scalars args))).shown)) rfl
    exact ⟨sound₃.same shown, evolves₃.trans shown.evolves⟩

/-! ## Threads and depth -/

/-- A change to the slots of the thread. -/
theorem Sound.modifyThread {f : ThreadState → ThreadState} (sound : w.Sound held)
    (retired : (f w.thread).retired = w.thread.retired)
    (finalizing : (f w.thread).finalizing = w.thread.finalizing) :
    (w.modifyThread f).Sound held := by
  have acc : (w.modifyThread f).Accounted held [] :=
    sound.toAccounted.rethread rfl rfl rfl (finalizing.trans sound.finalizing) fun id => by
      show held.count id + (f w.thread).retired.count id = _
      rw [retired]
  exact ⟨acc, sound.rested, retired.trans sound.retired, sound.finalized⟩

theorem nativeObject?_of_nativeStore? {n : NativeId} {s : NativeStore}
    (found : w.nativeStore? n = some s) : w.nativeObject? n = some (.store s) := by
  unfold nativeStore? at found
  split at found
  · next st native =>
      cases found
      exact nativeObject?_of_native? native
  · cases found

@[simp]
theorem natives_retainAll (ids : List ObjId) (w : World) : (w.retainAll ids).natives = w.natives := by
  induction ids generalizing w with
  | nil => rfl
  | cons id rest ih => exact ih (w.retain id)

@[simp]
theorem shapes_retainAll (ids : List ObjId) (w : World) : (w.retainAll ids).shapes = w.shapes := by
  induction ids generalizing w with
  | nil => rfl
  | cons id rest ih => exact (ih (w.retain id)).trans (shapes_retain w id)

theorem shapes_started (w : World) (store closure : ObjId) (code : HostCode) (args : List (Val ObjId)) :
    (w.started store closure code args).shapes = w.shapes := by
  have counted := (shapes_retainAll (Scalar.refs (code.shape.scalars args))
    (((w.retain store).retain closure).retainAll (Val.refs args))).trans <|
      (shapes_retainAll (Val.refs args) _).trans <| (shapes_retain _ closure).trans (shapes_retain w store)
  unfold started
  dsimp only
  split
  · exact counted
  · exact counted

theorem nativeStore?_of_natives (same : v.natives = w.natives) (n : NativeId) :
    v.nativeStore? n = w.nativeStore? n := by
  unfold nativeStore? native?
  rw [same]

/-- A native store that is still there after releasing work was there before, as it is. -/
theorem Drains.nativeStore? (drains : Drains w v) {n : NativeId} {s : NativeStore}
    (found : v.nativeStore? n = some s) : w.nativeStore? n = some s := by
  have object := nativeObject?_of_nativeStore? found
  have live : v.deletions n = 0 := by
    by_contra deleted
    unfold World.nativeStore? at found
    rw [native?_eq, if_neg deleted] at found
    cases found
  have before := drains.deletions_le n
  have kept : w.deletions n = 0 := by omega
  unfold World.nativeStore?
  rw [native?_eq, if_pos kept, ← drains.natives, object]

theorem depthOf_of_nativeObject? {n : NativeId} {s : NativeStore}
    (found : w.nativeObject? n = some (.store s)) : w.depthOf n = s.depth.toNat := by
  simp [depthOf, found, Native.depth]

/-- Changing a native store changes the depth of that store only. -/
theorem depthOf_modifyNativeStore {n : NativeId} {s : NativeStore}
    (found : w.nativeObject? n = some (.store s)) (f : NativeStore → NativeStore) (x : NativeId) :
    (w.modifyNativeStore n f).depthOf x = if x = n then (f s).depth.toNat else w.depthOf x := by
  obtain ⟨i⟩ := n
  obtain ⟨j⟩ := x
  unfold nativeObject? bodies at found
  simp only [depthOf, modifyNativeStore, nativeObject?, bodies, modifyNative, Array.toList_modify,
    List.getElem?_map, List.getElem?_modify, NativeId.mk.injEq]
  by_cases same : j = i
  · subst same
    cases entry : w.natives.toList[j]? with
    | none => simp [entry] at found
    | some e =>
        simp only [List.getElem?_map, entry, Option.map_some, Option.some.injEq] at found
        simp [found, Native.depth]
  · simp [same, Ne.symm same]

theorem shapes_modifyNativeStore {f : NativeStore → NativeStore} (config : ∀ s, (f s).config = s.config)
    (n : NativeId) : (w.modifyNativeStore n f).shapes = w.shapes :=
  shapes_modifyNative (keeps_nativeStore config).shape

end World

end HostEmbedding
