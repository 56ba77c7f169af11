import HostEmbedding.Host.Function
import HostEmbedding.Host.Memory
import HostEmbedding.Host.View
import HostEmbedding.Proofs.Ownership.Creating

/-!
# Operations of the host

Every operation of the public interface keeps the world sound and only adds to what is known. What
it yields is an item whose references are counted for the caller. An operation may flush a store
first, so what it reads must be kept alive by what is held, not only be alive when it starts.
-/

namespace HostEmbedding

def Native.depth : Native → Nat
  | .store s => s.depth.toNat
  | _ => 0

def World.depthOf (w : World) (n : NativeId) : Nat :=
  ((w.nativeObject? n).map Native.depth).getD 0

/-- What is held keeps an object alive, itself or through the captures of a closure. -/
def Shapes.Holds (Γ : Shapes) (held : List ObjId) (id : ObjId) : Prop :=
  id ∈ held ∨ ∃ c ∈ held, ∃ code captures, Γ.IsClosure c code captures ∧ id ∈ Scope.refs captures

theorem Shapes.Holds.mono {Γ Δ : Shapes} {held held' : List ObjId} {id : ObjId}
    (holds : Γ.Holds held id) (grows : Γ.Grows Δ) (more : ∀ x ∈ held, x ∈ held') :
    Δ.Holds held' id := by
  rcases holds with mem | ⟨c, mem, code, captures, known, captured⟩
  · exact .inl (more id mem)
  · exact .inr ⟨c, more c mem, code, captures, grows.object known, captured⟩

namespace World

/-- An operation leads from one world to another: it only adds to what is known, enters and leaves
no call, leaves the slots of the thread alone, and reports every drop. -/
structure Evolves (w v : World) : Prop where
  shapes : w.shapes.Grows v.shapes
  depth : v.depthOf = w.depthOf
  frames : v.thread.frames = w.thread.frames
  ledger : ∀ d, v.fallen.count d + w.drops.count d = w.fallen.count d + v.drops.count d

/-- An operation yields an item for which the caller then holds the references. -/
structure Yields (w : World) (held : List ObjId) (v : World) (item : Item) : Prop where
  sound : v.Sound (item.refs ++ held)
  evolves : Evolves w v
  fits : item.Fits v.shapes

variable {w v : World} {held held' : List ObjId} {moving : List NativeId}

/-! ## Evolving -/

namespace Evolves

theorem refl (w : World) : Evolves w w := ⟨.refl _, rfl, rfl, fun _ => rfl⟩

theorem trans {u : World} (first : Evolves w v) (second : Evolves v u) : Evolves w u where
  shapes := first.shapes.trans second.shapes
  depth := second.depth.trans first.depth
  frames := second.frames.trans first.frames
  ledger d := by
    have before := first.ledger d
    have after := second.ledger d
    omega

end Evolves

theorem Drains.evolves (drains : Drains w v) : Evolves w v where
  shapes := by rw [drains.shapes]; exact .refl _
  depth := by
    funext n
    unfold depthOf
    rw [drains.natives]
  frames := drains.frames
  ledger := drains.ledger

theorem Same.evolves (same : Same w v) : Evolves w v := same.drains.evolves

theorem evolves_retain {id : ObjId} (alive : w.strong id ≠ 0) : Evolves w (w.retain id) where
  shapes := by rw [shapes_retain]; exact .refl _
  depth := rfl
  frames := rfl
  ledger d := by
    obtain ⟨e, found, positive⟩ := exists_entry_of_strong alive
    have gathered := gather_modifyEntry Entry.fallen (fun e => { e with strong := e.strong + 1 })
      found d
    have before : e.fallen = [] := if_neg positive
    have after : Entry.fallen ⟨e.strong + 1, e.object⟩ = [] := if_neg (Nat.succ_ne_zero _)
    have events : (w.retain id).drops = w.drops := rfl
    rw [before, after] at gathered
    rw [events]
    unfold fallen retain
    omega

theorem evolves_retainAll (ids : List ObjId) {w : World} (alive : ∀ id ∈ ids, w.strong id ≠ 0) :
    Evolves w (w.retainAll ids) := by
  induction ids generalizing w with
  | nil => exact .refl w
  | cons id rest ih =>
      have alive' := alive id List.mem_cons_self
      exact (evolves_retain alive').trans
        (ih fun x mem => strong_retain_ne_zero (alive x (List.mem_cons_of_mem id mem)))

theorem evolves_alloc (w : World) (o : Object) {strong : Nat} (alive : strong ≠ 0) :
    Evolves w (w.alloc o strong).2 where
  shapes := shapes_alloc w o strong
  depth := rfl
  frames := rfl
  ledger d := by
    have gathered : (w.alloc o strong).2.fallen = w.fallen ++ Entry.fallen ⟨strong, o⟩ :=
      gather_alloc _ w o strong
    have none : Entry.fallen ⟨strong, o⟩ = [] := if_neg alive
    rw [gathered, none, List.append_nil]
    rfl

theorem evolves_allocNative (w : World) {o : Native} (idle : o.depth = 0) :
    Evolves w (w.allocNative o).2 where
  shapes := shapes_allocNative w o
  depth := by
    funext n
    unfold depthOf
    rw [nativeObject?_allocNative]
    split
    · next same =>
        subst same
        have unknown : w.nativeObject? (w.allocNative o).1 = none := by
          rw [← Option.not_isSome_iff_eq_none, nativeObject?_isSome]
          exact Nat.lt_irrefl _
        rw [unknown]
        simp [idle]
    · rfl
  frames := rfl
  ledger _ := rfl

/-- A change to native objects that keeps their shapes and their deletions. -/
structure Keeps (f : NativeEntry → NativeEntry) : Prop where
  shape : ∀ e, (f e).object.shape = e.object.shape
  deletions : ∀ e, (f e).deletions = e.deletions
  finalized : ∀ e, (f e).finalized = e.finalized

theorem lent_modifyNative {f : NativeEntry → NativeEntry} (keeps : Keeps f) (n : NativeId) :
    (w.modifyNative n f).lent = w.lent := by
  have entries (u : World) :
      u.lent = u.natives.toList.flatMap fun e => Native.lent (e.object, e.deletions) := by
    simp only [lent, bodies, List.flatMap_map]
  rw [entries, entries, modifyNative, Array.toList_modify]
  refine flatMap_modify_of_eq _ f (fun e => ?_) _ _
  simp only [Native.lent, keeps.deletions]
  rw [← Native.env?_shape, keeps.shape, Native.env?_shape]

theorem deletions_modifyNative {f : NativeEntry → NativeEntry} (keeps : Keeps f) (n : NativeId) :
    (w.modifyNative n f).deletions = w.deletions := by
  funext x
  simp only [deletions, bodies, modifyNative, Array.toList_modify, List.getElem?_map,
    List.getElem?_modify]
  split <;> cases w.natives.toList[x.index]? <;> simp [keeps.deletions]

theorem Sound.modifyNative {f : NativeEntry → NativeEntry} (sound : w.Sound held) (keeps : Keeps f)
    (n : NativeId) : (w.modifyNative n f).Sound held := by
  have shapes : (w.modifyNative n f).shapes = w.shapes := shapes_modifyNative keeps.shape
  have size : (w.modifyNative n f).natives.size = w.natives.size := Array.size_modify
  have bal : (w.modifyNative n f).Balanced held [] := by
    refine ⟨?_, ?_, ?_, fun id => ?_, fun x => ?_, sound.finalizing, sound.aborted⟩
    · rw [shapes]; exact sound.objects
    · rw [shapes]; exact sound.claimsUnique
    · rw [shapes]; exact sound.envsUnique
    · rw [lent_modifyNative keeps n]
      exact sound.counted id
    · rw [deletions_modifyNative keeps n, size]
      exact sound.placed x
  refine ⟨bal.accounted sound.toAccounted rfl shapes, sound.rested, sound.retired, ?_⟩
  intro x g function
  have known : w.shapes.native? x = some (.func g) := by
    rw [← shapes]
    simp [World.shapes, function, Native.shape]
  obtain ⟨o, found, shape⟩ := nativeObject_of_shape known
  have object : w.nativeObject? x = some (.func g) := by
    cases o <;> simp [Native.shape] at shape
    rw [found, shape]
  rw [finalizations_modifyNative_of_eq w n keeps.finalized, deletions_modifyNative keeps n]
  exact sound.finalized x g object

theorem evolves_modifyNative {f : NativeEntry → NativeEntry} (keeps : Keeps f)
    (depth : ∀ e, (f e).object.depth = e.object.depth) (n : NativeId) :
    Evolves w (w.modifyNative n f) where
  shapes := by rw [shapes_modifyNative keeps.shape]; exact .refl _
  depth := by
    funext x
    simp only [depthOf, nativeObject?, bodies, modifyNative, Array.toList_modify,
      List.getElem?_map, List.getElem?_modify]
    split <;> cases w.natives.toList[x.index]? <;> simp [depth]
  frames := rfl
  ledger _ := rfl

/-! ## What is held is alive -/

theorem Balanced.alive (bal : w.Balanced held moving) {id : ObjId} (mem : id ∈ held) :
    w.strong id ≠ 0 := by
  have positive := List.count_pos_iff.mpr mem
  rw [bal.counted id]
  omega

theorem Balanced.alive_of_owned (bal : w.Balanced held moving) {id x : ObjId} {e : Entry}
    (found : w.entry? x = some e) (alive : e.strong ≠ 0) (owned : id ∈ e.object.refs) :
    w.strong id ≠ 0 := by
  have mem : id ∈ w.owned := mem_owned.mpr ⟨x, e, found, alive, owned⟩
  have positive := List.count_pos_iff.mpr mem
  rw [bal.counted id]
  omega

theorem Balanced.alive_of_holds (bal : w.Balanced held moving) {id : ObjId}
    (holds : w.shapes.Holds held id) : w.strong id ≠ 0 := by
  rcases holds with mem | ⟨c, mem, code, captures, known, captured⟩
  · exact bal.alive mem
  · obtain ⟨k, found⟩ := isClosure_iff.mp known
    have alive := bal.alive mem
    rw [strong_eq found] at alive
    exact bal.alive_of_owned found alive captured

theorem Sound.same (sound : w.Sound held) (same : Same w v) : v.Sound held :=
  (sound.creating.same same).sound

theorem Sound.regroup (sound : w.Sound held) (same : ∀ id, held'.count id = held.count id) :
    w.Sound held' :=
  (sound.creating.regroup same).sound

/-! ## Stores -/

theorem Sound.createStore (sound : w.Sound held) (config : Config) :
    Yields w held (w.createStore config).2 (.store (w.createStore config).1) := by
  let n := (w.allocNative (.store ⟨config, false, 0⟩)).1
  let made := (w.allocNative (.store ⟨config, false, 0⟩)).2
  have native : made.shapes.native? n = some (.store ⟨config, false, 0⟩) :=
    shapes_allocNative_self w _
  have creating : made.Creating held (some n) none :=
    sound.creating.allocNative fun x => rfl
  have grows := shapes_alloc made (.store n config {}) 1
  have fits : Object.Fits (made.alloc (.store n config {}) 1).2.shapes
      (made.alloc (.store n config {}) 1).1 (.store n config {}) :=
    ⟨grows.native native, fun kind x mem => by cases kind <;> cases mem⟩
  have done : (made.alloc (.store n config {}) 1).2.Creating
      ((made.alloc (.store n config {}) 1).1 :: held) none none := by
    refine creating.alloc Nat.one_ne_zero fits rfl rfl (.keep rfl fun h same => by cases same)
      fun x => ?_
    rw [List.count_cons]
    simp only [Object.refs, List.count_nil, beq_iff_eq, eq_comm (a := x)]
    omega
  exact ⟨done.sound, (evolves_allocNative w rfl).trans (evolves_alloc made _ Nat.one_ne_zero),
    n, config, shapes_alloc_self made _ 1⟩

/-- A flush keeps a held store alive and forgets nothing. -/
theorem Sound.flush_held {s : ObjId} {n : NativeId} (sound : w.Sound held)
    (holds : w.shapes.Holds held s) (isStore : w.shapes.IsStore s n) :
    (w.flush s).Sound held ∧ (w.flush s).strong s ≠ 0 ∧ (w.flush s).storeNative? s = some n ∧
      (w.flush s).shapes.IsStore s n ∧ Evolves w (w.flush s) := by
  have flushed := sound.flush isStore
  have evolves := (drains_flush w s).evolves
  have still := isStore.mono evolves.shapes
  exact ⟨flushed, flushed.alive_of_holds (holds.mono evolves.shapes fun _ mem => mem),
    storeNative?_eq_some.mpr still, still, evolves⟩

theorem evolves_acquire {n : NativeId} {store : ObjId} (alive : w.strong store ≠ 0)
    (state : HandleState) : Evolves w (w.acquire n store state).2 :=
  (evolves_retain alive).trans (evolves_alloc _ _ Nat.one_ne_zero)

theorem isHandle_acquire (w : World) (n : NativeId) (store : ObjId) (state : HandleState) :
    (w.acquire n store state).2.shapes.IsHandle (w.acquire n store state).1
      ⟨n, store, none, state⟩ :=
  shapes_alloc_self _ _ _

/-! ## Natives and their owning handles -/

theorem Sound.createInterrupt {s : ObjId} {sn : NativeId} (sound : w.Sound held)
    (holds : w.shapes.Holds held s) (isStore : w.shapes.IsStore s sn) :
    ∃ h, (w.createInterrupt s).1 = some h ∧
      Yields w held (w.createInterrupt s).2 (.interrupt h) := by
  obtain ⟨flushed, alive, native?, isStore, evolves⟩ := sound.flush_held holds isStore
  let made := (w.flush s).allocNative (.interrupt sn)
  have creating : made.2.Creating held (some made.1) none :=
    flushed.creating.allocNative fun x => rfl
  have isStore' : made.2.shapes.IsStore s sn := isStore.mono (shapes_allocNative _ _)
  have alive' : made.2.strong s ≠ 0 := alive
  have made_evolves : Evolves (w.flush s) made.2 := evolves_allocNative _ rfl
  have owned : (made.2.acquire made.1 s .interrupt).2.Sound _ :=
    creating.acquire alive' isStore' (shapes_allocNative_self _ _)
  have result : w.createInterrupt s =
      (some (made.2.acquire made.1 s .interrupt).1, (made.2.acquire made.1 s .interrupt).2) := by
    unfold World.createInterrupt
    dsimp only
    rw [guard_eq flushed.finalizing, native?]
  rw [result]
  refine ⟨_, rfl, owned, ?_, _, isHandle_acquire made.2 made.1 s .interrupt, rfl⟩
  exact (evolves.trans made_evolves).trans (evolves_acquire alive' _)

theorem Sound.createMemory {s : ObjId} {sn : NativeId} (sound : w.Sound held)
    (holds : w.shapes.Holds held s) (isStore : w.shapes.IsStore s sn) (type : MemoryType) :
    (∃ h v, w.createMemory s type = (.ok h, v) ∧ Yields w held v (.memory h)) ∨
      ∃ e v, w.createMemory s type = (.error e, v) ∧ v.Sound held ∧ Evolves w v := by
  obtain ⟨flushed, alive, native?, isStore, evolves⟩ := sound.flush_held holds isStore
  unfold World.createMemory
  dsimp only
  rw [native?]
  cases type.toLimits? with
  | none => exact .inr ⟨_, _, rfl, flushed, evolves⟩
  | some limits =>
      dsimp only
      rw [guard_eq flushed.finalizing]
      unfold createNativeMemory
      cases ((w.flush s).nativeStore? sn).bind fun st =>
          LinearMemory.create? st.config.maxMemoryPages limits with
      | none => exact .inr ⟨_, _, rfl, flushed, evolves⟩
      | some m =>
          let made := (w.flush s).allocNative (.memory m)
          let shown := made.2.logAbout made.1 (.createdMemory type)
          let locked := { shown with locks := shown.locks + 1 }
          have same : Same made.2 locked :=
            (same_logAbout made.2 made.1 (.createdMemory type)).trans ⟨rfl, rfl, rfl, rfl, rfl, rfl⟩
          have creating : made.2.Creating held (some made.1) none :=
            flushed.creating.allocNative fun x => rfl
          have made_evolves : Evolves (w.flush s) made.2 := evolves_allocNative _ rfl
          have alive' : locked.strong s ≠ 0 := by rw [same.strong]; exact alive
          have isStore' : locked.shapes.IsStore s sn := by
            rw [same.shapes]
            exact isStore.mono made_evolves.shapes
          have native : locked.shapes.native? made.1 = some (.memory ⟨m.limits, m.cap, []⟩) := by
            rw [same.shapes]
            exact shapes_allocNative_self _ _
          have owned : (locked.acquire made.1 s (.memory shown.locks)).2.Sound _ :=
            (creating.same same).acquire alive' isStore' ⟨m.limits, m.cap, native⟩
          refine .inl ⟨_, _, rfl, owned, ?_, _, shown.locks, isHandle_acquire locked made.1 s _, rfl⟩
          exact ((evolves.trans made_evolves).trans same.evolves).trans (evolves_acquire alive' _)

/-- A closure and the environment that holds it: the closure takes over its captures, and the
environment waits for its handle and its native function. -/
theorem Sound.openEnv {s : ObjId} {sn : NativeId} {code : HostCode} {captures : Scope}
    (sound : w.Sound (captures.refs ++ held)) (isStore : w.shapes.IsStore s sn)
    (body : Block.isPublic code.body = true) (fits : captures.Fits w.shapes) :
    let inner := w.alloc (.closure code captures) 1
    let outer := inner.2.alloc (.env (some inner.1) code.shape.funcType s) 2
    outer.2.Creating (outer.1 :: outer.1 :: held) none (some outer.1) ∧ Evolves w outer.2 ∧
      outer.2.shapes.IsEnv outer.1 code.shape.funcType s := by
  intro inner outer
  have innerSound : inner.2.Sound (inner.1 :: held) :=
    sound.alloc rfl rfl (fun h same => by cases same) ⟨body, fits⟩
  have innerEvolves : Evolves w inner.2 := evolves_alloc _ _ Nat.one_ne_zero
  have outerEvolves : Evolves inner.2 outer.2 := evolves_alloc _ _ (Nat.succ_ne_zero 1)
  have isClosure : inner.2.shapes.IsClosure inner.1 code captures := shapes_alloc_self _ _ _
  refine ⟨?_, innerEvolves.trans outerEvolves, shapes_alloc_self _ _ _⟩
  refine innerSound.creating.alloc (Nat.succ_ne_zero 1) ?_ rfl rfl (.opening rfl) fun x => ?_
  · refine ⟨⟨sn, isStore.mono (innerEvolves.trans outerEvolves).shapes⟩, inner.1, code, captures,
      congrArg ObjId.mk (Array.size_push _), outerEvolves.shapes.object isClosure, rfl, fun d same => ?_⟩
    cases same
    rfl
  · simp only [Object.refs, Option.toList_some, List.count_cons, List.count_nil, beq_iff_eq,
      eq_comm (a := x)]
    split <;> omega

/-- Registering host code whose captures are held gives the handle of a new function. -/
theorem Sound.register {s : ObjId} {sn : NativeId} {code : HostCode} {captures : Scope}
    (sound : w.Sound (captures.refs ++ held)) (holds : w.shapes.Holds held s)
    (isStore : w.shapes.IsStore s sn) (body : Block.isPublic code.body = true)
    (fits : captures.Fits w.shapes) :
    ∃ h, (w.register s code captures).1 = some h ∧
      Yields w held (w.register s code captures).2 (.func h code.shape.funcType) := by
  have holds' := holds.mono (.refl _) fun x mem => List.mem_append_right captures.refs mem
  obtain ⟨flushed, -, -, isStore, evolves⟩ := sound.flush_held holds' isStore
  let type := code.shape.funcType
  let inner := (w.flush s).alloc (.closure code captures) 1
  let outer := inner.2.alloc (.env (some inner.1) type s) 2
  obtain ⟨outerSound, outerEvolves, isEnv⟩ : outer.2.Creating (outer.1 :: outer.1 :: held) none
      (some outer.1) ∧ Evolves (w.flush s) outer.2 ∧ outer.2.shapes.IsEnv outer.1 type s :=
    flushed.openEnv isStore body (fits.mono evolves.shapes)
  let made := outer.2.allocNative (.func ⟨sn, type.toNative, .host outer.1⟩)
  let shown := made.2.logAbout made.1 (.registered type)
  have same : Same made.2 shown := same_logAbout _ _ _
  have madeSound : made.2.Creating (outer.1 :: held) (some made.1) (some outer.1) :=
    outerSound.allocNative fun x => by
      simp only [Native.env?, Option.toList_some, List.count_cons, List.count_nil]
      omega
  have madeEvolves : Evolves outer.2 shown := (evolves_allocNative _ rfl).trans same.evolves
  have native : shown.shapes.native? made.1 = some (.func ⟨sn, type.toNative, .host outer.1⟩) := by
    rw [same.shapes]
    exact shapes_allocNative_self _ _
  have total : Evolves w shown := (evolves.trans outerEvolves).trans madeEvolves
  have shownSound := madeSound.same same
  have alive : shown.strong s ≠ 0 :=
    shownSound.alive_of_holds (holds.mono total.shapes fun x mem => List.mem_cons_of_mem _ mem)
  have isStore' : shown.shapes.IsStore s sn :=
    isStore.mono (outerEvolves.trans madeEvolves).shapes
  let owner := shown.acquire made.1 s (.func (some outer.1))
  have owned : owner.2.Sound (owner.1 :: held) :=
    shownSound.acquire alive isStore'
      ⟨outer.1, type, native, madeEvolves.shapes.object isEnv, rfl⟩
  have acquired : Evolves shown owner.2 := evolves_acquire alive _
  have result : w.register s code captures = (some owner.1, owner.2) := by
    have native? : outer.2.storeNative? s = some sn :=
      storeNative?_eq_some.mpr (isStore.mono outerEvolves.shapes)
    unfold World.register
    dsimp only
    rw [native?, guard_eq outerSound.finalizing]
  rw [result]
  exact ⟨owner.1, rfl, owned, total.trans acquired, _, _, _, isHandle_acquire shown made.1 s _, rfl,
    acquired.shapes.native native, rfl⟩

end World

end HostEmbedding
