import HostEmbedding.Proofs.Ownership.Operations

/-!
# Views and changes in place

A view keeps the owning handle and the store of its native object alive, so a live view always
reaches a live native object. Growing and writing a memory, raising an interrupt and putting an item
into a cell change one thing in place and nothing about who owns what.
-/

namespace HostEmbedding.World

variable {w v : World} {held held' : List ObjId} {moving : List NativeId}

/-! ## Live handles -/

theorem object?_eq_some {id : ObjId} {o : Object} :
    w.object? id = some o ↔ ∃ k, w.entry? id = some ⟨k, o⟩ ∧ k ≠ 0 := by
  unfold object?
  cases found : w.entry? id with
  | none => simp
  | some e =>
      obtain ⟨k, p⟩ := e
      by_cases dead : k = 0
      · simp [dead]
      · simp [dead, and_comm]

theorem handle?_eq_some {id : ObjId} {h : Handle} :
    w.handle? id = some h ↔ w.shapes.IsHandle id h ∧ w.strong id ≠ 0 := by
  rw [isHandle_iff]
  unfold handle?
  constructor
  · intro found
    split at found
    · next h' object =>
        cases found
        obtain ⟨k, entry, alive⟩ := object?_eq_some.mp object
        exact ⟨⟨k, entry⟩, by rw [strong_eq entry]; exact alive⟩
    · cases found
  · rintro ⟨⟨k, entry⟩, alive⟩
    rw [strong_eq entry] at alive
    rw [object?_eq_some.mpr ⟨k, entry, alive⟩]

theorem closure?_eq_some {id : ObjId} {code : HostCode} {captures : Scope} :
    w.closure? id = some (code, captures) ↔
      w.shapes.IsClosure id code captures ∧ w.strong id ≠ 0 := by
  rw [isClosure_iff]
  unfold closure?
  constructor
  · intro found
    split at found
    · next code' captures' object =>
        cases found
        obtain ⟨k, entry, alive⟩ := object?_eq_some.mp object
        exact ⟨⟨k, entry⟩, by rw [strong_eq entry]; exact alive⟩
    · cases found
  · rintro ⟨⟨k, entry⟩, alive⟩
    rw [strong_eq entry] at alive
    rw [object?_eq_some.mpr ⟨k, entry, alive⟩]

/-- The owning handle behind a handle. -/
theorem Balanced.owner_known (bal : w.Balanced held moving) {id : ObjId} {h : Handle}
    (known : w.shapes.IsHandle id h) :
    ∃ k, w.shapes.IsHandle (ownerOf id h) k ∧ k.owner = none ∧ k.native = h.native ∧
      k.store = h.store := by
  obtain ⟨n, found⟩ := isHandle_iff.mp known
  have handle : h.Fits w.shapes := bal.objects found
  unfold ownerOf
  cases owner : h.owner with
  | none => exact ⟨h, known, owner, rfl, rfl⟩
  | some o => exact handle.owner o owner

/-- A live handle keeps its store and its owner alive. -/
theorem Balanced.keeps_alive (bal : w.Balanced held moving) {id : ObjId} {h : Handle}
    (found : w.handle? id = some h) :
    w.strong h.store ≠ 0 ∧ w.strong (ownerOf id h) ≠ 0 := by
  obtain ⟨known, alive⟩ := handle?_eq_some.mp found
  obtain ⟨k, entry⟩ := isHandle_iff.mp known
  have alive' := alive
  rw [strong_eq entry] at alive'
  refine ⟨bal.alive_of_owned entry alive' List.mem_cons_self, ?_⟩
  unfold ownerOf
  cases owner : h.owner with
  | none => exact alive
  | some o =>
      refine bal.alive_of_owned entry alive' ?_
      simp [Object.refs, Handle.refs, owner]

/-- A live native object has its shape. -/
theorem shapes_of_native? {n : NativeId} {o : Native} (found : w.native? n = some o) :
    w.shapes.native? n = some o.shape := by
  simp [World.shapes, nativeObject?_of_native? found]

theorem nativeFunc?_eq_some {n : NativeId} {f : NativeFunc} :
    w.nativeFunc? n = some f ↔ w.native? n = some (.func f) := by
  unfold nativeFunc?
  constructor
  · intro found
    split at found
    · next f' native =>
        cases found
        exact native
    · cases found
  · intro native
    rw [native]

theorem nativeMemory?_eq_some {n : NativeId} {m : LinearMemory} :
    w.nativeMemory? n = some m ↔ w.native? n = some (.memory m) := by
  unfold nativeMemory?
  constructor
  · intro found
    split at found
    · next m' native =>
        cases found
        exact native
    · cases found
  · intro native
    rw [native]

/-- The owning handle of a function holds the environment that the function was registered under. -/
theorem Balanced.func_owner (bal : w.Balanced held moving) {i : ObjId} {k : Handle} {f : NativeFunc}
    (known : w.shapes.IsHandle i k) (owner : k.owner = none)
    (native : w.shapes.native? k.native = some (.func f)) :
    ∃ e s type, k.state = .func (some e) ∧ f = ⟨s, type.toNative, .host e⟩ ∧
      w.shapes.IsStore k.store s ∧ w.shapes.IsEnv e type k.store := by
  obtain ⟨n, found⟩ := isHandle_iff.mp known
  have handle : k.Fits w.shapes := bal.objects found
  obtain ⟨s, isStore, fits⟩ := handle.state
  have owning : k.isOwning = true := by simp [Handle.isOwning, owner]
  cases state : k.state with
  | memory lock =>
      rw [state] at fits
      obtain ⟨limits, cap, memory⟩ := fits
      rw [memory] at native
      cases native
  | interrupt =>
      rw [state] at fits
      have interrupt : w.shapes.native? k.native = some (.interrupt s) := fits
      rw [interrupt] at native
      cases native
  | view =>
      rw [state] at fits
      exact absurd owning (by rw [show k.isOwning = false from fits]; decide)
  | func env =>
      rw [state] at fits
      obtain ⟨e, type, func, isEnv, same⟩ := fits
      rw [func] at native
      cases native
      rw [owning, if_pos rfl] at same
      exact ⟨e, s, type, by rw [same], rfl, isStore, isEnv⟩

/-! ## Views -/

theorem Sound.view {id : ObjId} {h : Handle} (sound : w.Sound held)
    (found : w.handle? id = some h) (state : HandleState) (plain : state.env? = none)
    (fits : ∀ s, w.shapes.IsStore h.store s →
      state.Fits w.shapes ⟨h.native, h.store, some (ownerOf id h), state⟩ s) :
    let r := w.borrow h.native h.store (ownerOf id h) state
    r.2.Sound (r.1 :: held) ∧ Evolves w r.2 ∧
      r.2.shapes.IsHandle r.1 ⟨h.native, h.store, some (ownerOf id h), state⟩ := by
  obtain ⟨known, -⟩ := handle?_eq_some.mp found
  obtain ⟨storeAlive, ownerAlive⟩ := sound.keeps_alive found
  obtain ⟨n, entry⟩ := isHandle_iff.mp known
  have handle : h.Fits w.shapes := sound.objects entry
  obtain ⟨s, isStore, -⟩ := handle.state
  refine ⟨sound.borrow storeAlive ownerAlive plain ⟨⟨s, isStore, fits s isStore⟩, ?_⟩, ?_,
    shapes_alloc_self _ _ _⟩
  · intro o same
    cases same
    exact sound.owner_known known
  · exact ((evolves_retain storeAlive).trans
      (evolves_retain (strong_retain_ne_zero ownerAlive))).trans
      (evolves_alloc _ _ Nat.one_ne_zero)

theorem Sound.asExtern {id : ObjId} {h : Handle} (sound : w.Sound held)
    (found : w.handle? id = some h) :
    Yields w held (w.asExtern id h).2 (.view (w.asExtern id h).1) := by
  obtain ⟨viewed, evolves, known⟩ := sound.view found .view rfl fun s isStore => rfl
  exact ⟨viewed, evolves, _, known, rfl⟩

theorem Sound.intoFunc? {id x : ObjId} {h : Handle} {type : FuncType} (sound : w.Sound held)
    (found : w.handle? id = some h) (result : w.intoFunc? id h = some (x, type, v)) :
    Yields w held v (.func x type) := by
  unfold World.intoFunc? at result
  split at result
  · next f native =>
      have shape := shapes_of_native? (nativeFunc?_eq_some.mp native)
      obtain ⟨k, known, owner, sameNative, sameStore⟩ :=
        sound.owner_known (handle?_eq_some.mp found).1
      rw [← sameNative] at shape
      obtain ⟨e, s, t, -, rfl, isStore, isEnv⟩ := sound.func_owner known owner shape
      obtain ⟨viewed, evolves, handle⟩ := sound.view found (.func none) rfl
        fun s' isStore' => by
          obtain rfl : s' = s := by
            obtain ⟨c, first⟩ := isStore'
            obtain ⟨c', second⟩ := isStore
            rw [sameStore, first] at second
            cases second
            rfl
          refine ⟨e, t, ?_, ?_, rfl⟩
          · rw [← sameNative]
            exact shape
          · rw [← sameStore]
            exact isEnv
      cases result
      refine ⟨viewed, evolves, _, none, ⟨s, t.toNative, .host e⟩, handle, rfl, ?_, ?_⟩
      · rw [← sameNative]
        exact evolves.shapes.native shape
      · rw [FuncType.ofNative_toNative]
  · cases result

theorem Sound.intoMemory? {id x : ObjId} {h : Handle} (sound : w.Sound held)
    (found : w.handle? id = some h) (result : w.intoMemory? id h = some (x, v)) :
    Yields w held v (.memory x) := by
  unfold World.intoMemory? at result
  split at result
  · next m lock native shared =>
      have shape := shapes_of_native? (nativeMemory?_eq_some.mp native)
      obtain ⟨viewed, evolves, handle⟩ := sound.view found (.memory lock) rfl
        fun s isStore => ⟨m.limits, m.cap, shape⟩
      cases result
      exact ⟨viewed, evolves, _, lock, handle, rfl⟩
  · cases result

/-! ## Natives in place -/

theorem modifyNative_congr {n : NativeId} {f g : NativeEntry → NativeEntry}
    (same : ∀ e, w.natives[n.index]? = some e → f e = g e) :
    w.modifyNative n f = w.modifyNative n g := by
  have natives : w.natives.modify n.index f = w.natives.modify n.index g := by
    apply Array.ext_getElem?
    intro i
    simp only [Array.getElem?_modify]
    split
    · next here =>
        subst here
        cases found : w.natives[n.index]? with
        | none => rfl
        | some e => simp [same e found]
    · rfl
  unfold modifyNative
  rw [natives]

/-- Replacing a native object by one of its shape and depth. -/
theorem Sound.setNative {n : NativeId} {o o' : Native} (sound : w.Sound held)
    (found : w.native? n = some o) (shape : o'.shape = o.shape) (depth : o'.depth = o.depth) :
    (w.setNative n o').Sound held ∧ Evolves w (w.setNative n o') := by
  classical
  let change (e : NativeEntry) : NativeEntry :=
    if o'.shape = e.object.shape ∧ o'.depth = e.object.depth then { e with object := o' } else e
  have same : w.setNative n o' = w.modifyNative n change := by
    apply modifyNative_congr
    intro e entry
    have object : e.object = o := by
      unfold native? at found
      rw [entry] at found
      dsimp only at found
      split at found
      · exact Option.some.inj found
      · cases found
    exact (if_pos ⟨by rw [object, shape], by rw [object, depth]⟩).symm
  have keeps : Keeps change := by
    constructor <;> intro e <;> dsimp only [change] <;> split
    · next same => exact same.1
    · rfl
    · rfl
    · rfl
    · rfl
    · rfl
  have depths (e : NativeEntry) : (change e).object.depth = e.object.depth := by
    dsimp only [change]
    split
    · next same => exact same.2
    · rfl
  rw [same]
  exact ⟨sound.modifyNative keeps n, evolves_modifyNative keeps depths n⟩

/-- Changing what a native store counts and flags. -/
theorem keeps_nativeStore {f : NativeStore → NativeStore} (config : ∀ s, (f s).config = s.config) :
    Keeps fun e =>
      match e.object with
      | .store s => { e with object := .store (f s) }
      | _ => e := by
  constructor <;> intro e <;> obtain ⟨o, d, k, t⟩ := e <;> cases o <;> try rfl
  simp [Native.shape, config]

theorem Sound.modifyNativeStore {f : NativeStore → NativeStore} (sound : w.Sound held)
    (config : ∀ s, (f s).config = s.config) (n : NativeId) :
    (w.modifyNativeStore n f).Sound held :=
  sound.modifyNative (keeps_nativeStore config) n

theorem evolves_modifyNativeStore {f : NativeStore → NativeStore}
    (config : ∀ s, (f s).config = s.config) (depth : ∀ s, (f s).depth = s.depth) (n : NativeId) :
    Evolves w (w.modifyNativeStore n f) := by
  refine evolves_modifyNative (keeps_nativeStore config) (fun e => ?_) n
  obtain ⟨o, d, k, t⟩ := e
  cases o <;> try rfl
  simp [Native.depth, depth]

theorem Sound.interrupt (sound : w.Sound held) (h : Handle) :
    (w.interrupt h).Sound held ∧ Evolves w (w.interrupt h) := by
  have shown := same_logAbout w h.native .interruptRequested
  unfold World.interrupt requestInterrupt
  split
  · refine ⟨(sound.same shown).modifyNativeStore ?_ _,
      shown.evolves.trans (evolves_modifyNativeStore ?_ ?_ _)⟩ <;> exact fun s => rfl
  · exact ⟨sound.same shown, shown.evolves⟩

theorem Sound.grow {n : NativeId} {m : LinearMemory} (sound : w.Sound held)
    (found : w.nativeMemory? n = some m) (delta : UInt32) :
    (w.grow n m delta).2.Sound held ∧ Evolves w (w.grow n m delta).2 := by
  have native := nativeMemory?_eq_some.mp found
  unfold World.grow growNative
  cases grown : m.grow? delta with
  | none =>
      have shown := same_logAbout w n fun t => .refusedGrow t delta
      exact ⟨sound.same shown, shown.evolves⟩
  | some m' =>
      refine sound.setNative native ?_ rfl
      unfold LinearMemory.grow? at grown
      dsimp only at grown
      split at grown
      · cases grown
        rfl
      · cases grown

theorem Sound.write {n : NativeId} {m : LinearMemory} (sound : w.Sound held)
    (found : w.nativeMemory? n = some m) (offset : Nat) (data : Runs) :
    (w.write n m offset data).2.Sound held ∧ Evolves w (w.write n m offset data).2 := by
  have native := nativeMemory?_eq_some.mp found
  unfold World.write
  cases written : m.write? offset data with
  | none => exact ⟨sound, .refl w⟩
  | some m' =>
      refine sound.setNative native ?_ rfl
      unfold LinearMemory.write? at written
      split at written
      · cases written
        rfl
      · cases written

/-! ## Cells -/

/-- Putting something else into a cell exchanges what the cell owned. -/
theorem Sound.setCell {c : ObjId} {old new : Option Item}
    (sound : w.Sound (new.toList.flatMap Item.refs ++ held))
    (found : w.object? c = some (.cell old)) (fits : ∀ i, new = some i → i.Fits w.shapes) :
    (w.setObject c (.cell new)).Sound (old.toList.flatMap Item.refs ++ held) ∧
      Evolves w (w.setObject c (.cell new)) := by
  obtain ⟨k, entry, alive⟩ := object?_eq_some.mp found
  have change (e : Entry) (found' : w.entry? c = some e) :
      e = ⟨k, .cell old⟩ := by
    rw [entry] at found'
    exact (Option.some.inj found').symm
  have drains : Drains w (w.setObject c (.cell new)) := drains_modifyEntry (fun e found' => by
    rw [change e found']
    exact ⟨rfl, rfl⟩) fun e _ d attaches => nomatch attaches
  have owned (o : Option Item) : Entry.owned ⟨k, .cell o⟩ = o.toList.flatMap Item.refs :=
    if_neg alive
  have bal : (w.setObject c (.cell new)).Balanced (old.toList.flatMap Item.refs ++ held) [] := by
    refine sound.toBalanced.modifyEntry entry rfl fits (fun x => ?_) fun n => ?_
    · dsimp only
      rw [owned, owned, List.count_append, List.count_append]
      omega
    · simp [Entry.claimed, Entry.queued, Object.claim?, Object.queued]
  have attached : (w.setObject c (.cell new)).attached? = w.attached? :=
    attached?_modifyEntry fun e found' => by rw [change e found']; rfl
  have pending : (w.setObject c (.cell new)).pending = w.pending :=
    pending_modifyEntry fun e found' => by rw [change e found']; rfl
  have strong : (w.setObject c (.cell new)).strong = w.strong := by
    funext x
    refine (strong_modifyEntry entry x).trans ?_
    split
    · next same => rw [same, strong_eq entry]
    · rfl
  refine ⟨⟨⟨bal, ?_, ?_, ?_⟩, ?_, sound.retired, sound.finalized⟩, drains.evolves⟩
  · rw [drains.shapes]; exact sound.claimsTotal
  · rw [drains.shapes, strong, attached]; exact sound.attached
  · rw [drains.shapes, attached]; exact sound.attachedOwned
  · rw [strong, pending]; exact sound.rested

end HostEmbedding.World
