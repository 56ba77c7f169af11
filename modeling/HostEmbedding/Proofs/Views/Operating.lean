import HostEmbedding.Proofs.Call.Callable
import HostEmbedding.Proofs.Views.Releasing

/-!
# Operations beside a call

Every operation yields the same in both worlds: what it creates stands under the same address, and what it
reads of live objects and of native objects is the same.
-/

namespace HostEmbedding.World

variable {p : View} {gone : Bool} {w v : World} {held held' : List ObjId} {id : ObjId} {h : Handle}

theorem heap_guard (w : World) (op : GuardedOp) : (w.guard op).heap = w.heap := by
  unfold World.guard
  split <;> rfl

namespace Beside

/-! ## Reading -/

theorem object?_of_alive (beside : w.Beside p gone v) (alive : v.strong id ≠ 0) : v.object? id = w.object? id := by
  refine beside.object?_eq ?_
  by_cases same : id = p.handle
  · subst same
    cases gone with
    | false => exact .inr rfl
    | true => exact absurd (beside.view.mpr rfl) alive
  · exact .inl same

theorem handle?_of_alive (beside : w.Beside p gone v) (alive : v.strong id ≠ 0) : v.handle? id = w.handle? id := by
  unfold World.handle?
  rw [beside.object?_of_alive alive]

theorem natives_eq (beside : w.Beside p gone v) : v.natives = w.natives := by
  rw [beside.rest]
  rfl

theorem native?_eq (beside : w.Beside p gone v) : v.native? = w.native? := by
  rw [beside.rest]
  rfl

theorem nativeFunc?_eq (beside : w.Beside p gone v) : v.nativeFunc? = w.nativeFunc? := by
  rw [beside.rest]
  rfl

theorem nativeMemory?_eq (beside : w.Beside p gone v) : v.nativeMemory? = w.nativeMemory? := by
  rw [beside.rest]
  rfl

theorem nativeStore?_eq (beside : w.Beside p gone v) : v.nativeStore? = w.nativeStore? := by
  rw [beside.rest]
  rfl

theorem externKind?_eq (beside : w.Beside p gone v) : v.externKind? = w.externKind? := by
  rw [beside.rest]
  rfl

theorem memoryOf?_of_alive (beside : w.Beside p gone v) (alive : v.strong id ≠ 0) :
    v.memoryOf? id = w.memoryOf? id := by
  unfold World.memoryOf?
  rw [beside.handle?_of_alive alive, beside.nativeMemory?_eq]

/-- Host references are counted as often in both worlds. -/
theorem strong_referent (beside : w.Beside p gone v) (bal : w.Balanced held []) {r : ObjId}
    (isReferent : w.shapes.IsReferent r) : v.strong r = w.strong r := by
  obtain ⟨label, payload, known⟩ := isReferent
  have apart {x : ObjId} {s : Object} (known' : w.shapes.object? x = some s)
      (other : s ≠ .referent label payload) : x ≠ r := by
    rintro rfl
    exact other (Option.some.inj (known'.symm.trans known))
  obtain ⟨handle, owner, isHandle, -, store, -, isHandle', -⟩ := beside.shape
  have view := apart isHandle nofun
  have owns := apart isHandle' nofun
  have stores : p.store ≠ r := by
    obtain ⟨k, entry⟩ := isHandle_iff.mp isHandle
    have fits : handle.Fits w.shapes := bal.objects entry
    obtain ⟨s, ⟨config, isStore⟩, -⟩ := fits.state
    rw [store] at isStore
    exact apart isStore nofun
  have count := beside.count r
  have spared : (p.spared gone).count r = 0 := by
    unfold View.spared
    split <;> simp [view, stores]
  have added : (p.added gone).count r = 0 := by
    unfold View.added
    split <;> simp [owns]
  omega

/-! ## What is shown -/

theorem emit (beside : w.Beside p gone v) (e : Event) : (w.emit e).Beside p gone (v.emit e) :=
  beside.blind (F := (·.emit e)) fun _ _ => rfl

theorem log (beside : w.Beside p gone v) (r : LogRecord) : (w.log r).Beside p gone (v.log r) :=
  beside.blind (F := (·.log r)) fun w heap => log_withHeap w heap r

theorem logAbout (beside : w.Beside p gone v) (n : NativeId) (r : Nat → LogRecord) :
    (w.logAbout n r).Beside p gone (v.logAbout n r) :=
  beside.blind (F := (·.logAbout n r)) fun w heap => logAbout_withHeap w heap n r

theorem guard (beside : w.Beside p gone v) (op : GuardedOp) : (w.guard op).Beside p gone (v.guard op) :=
  beside.blind (F := (·.guard op)) fun w heap => guard_withHeap w heap op

theorem tag (beside : w.Beside p gone v) (n : NativeId) :
    (v.tag n).1 = (w.tag n).1 ∧ (w.tag n).2.Beside p gone (v.tag n).2 := by
  refine ⟨?_, beside.blind (F := fun w => (w.tag n).2) fun w heap => by rw [tag_withHeap]⟩
  rw [beside.rest, tag_withHeap]

/-! ## Changes in place -/

theorem setNative (beside : w.Beside p gone v) (n : NativeId) (o : Native) :
    (w.setNative n o).Beside p gone (v.setNative n o) :=
  beside.blind (F := (·.setNative n o)) fun _ _ => rfl

theorem modifyNativeStore (beside : w.Beside p gone v) (n : NativeId) (f : NativeStore → NativeStore) :
    (w.modifyNativeStore n f).Beside p gone (v.modifyNativeStore n f) :=
  beside.blind (F := (·.modifyNativeStore n f)) fun _ _ => rfl

theorem modifyThread (beside : w.Beside p gone v) (f : ThreadState → ThreadState) :
    (w.modifyThread f).Beside p gone (v.modifyThread f) :=
  beside.blind (F := (·.modifyThread f)) fun _ _ => rfl

theorem interrupt (beside : w.Beside p gone v) (h : Handle) : (w.interrupt h).Beside p gone (v.interrupt h) := by
  have logged := beside.logAbout h.native .interruptRequested
  unfold World.interrupt World.requestInterrupt
  rw [logged.native?_eq]
  split
  · exact logged.modifyNativeStore _ _
  · exact logged

theorem grow (beside : w.Beside p gone v) (n : NativeId) (m : LinearMemory) (delta : UInt32) :
    (v.grow n m delta).1 = (w.grow n m delta).1 ∧ (w.grow n m delta).2.Beside p gone (v.grow n m delta).2 := by
  unfold World.grow World.growNative
  cases m.grow? delta with
  | some m => exact ⟨rfl, beside.setNative n _⟩
  | none => exact ⟨rfl, beside.logAbout n fun t => .refusedGrow t delta⟩

theorem write (beside : w.Beside p gone v) (n : NativeId) (m : LinearMemory) (offset : Nat) (data : Runs) :
    (v.write n m offset data).1 = (w.write n m offset data).1 ∧
      (w.write n m offset data).2.Beside p gone (v.write n m offset data).2 := by
  unfold World.write
  cases m.write? offset data with
  | some m => exact ⟨rfl, beside.setNative n _⟩
  | none => exact ⟨rfl, beside⟩

/-! ## Creating -/

theorem allocNative (beside : w.Beside p gone v) (o : Native) :
    (v.allocNative o).1 = (w.allocNative o).1 ∧ (w.allocNative o).2.Beside p gone (v.allocNative o).2 :=
  ⟨congrArg (fun natives : Array NativeEntry => NativeId.mk natives.size) beside.natives_eq,
    beside.blind (F := fun w => (w.allocNative o).2) fun _ _ => rfl⟩

theorem createStore (beside : w.Beside p gone v) (config : Config) :
    (v.createStore config).1 = (w.createStore config).1 ∧
      (w.createStore config).2.Beside p gone (v.createStore config).2 := by
  obtain ⟨same, made⟩ := beside.allocNative (.store ⟨config, false, 0⟩)
  unfold World.createStore
  dsimp only
  rw [same]
  exact made.alloc _ 1

theorem acquire (beside : w.Beside p gone v) (n : NativeId) {store : ObjId} (alive : v.strong store ≠ 0)
    (state : HandleState) : (v.acquire n store state).1 = (w.acquire n store state).1 ∧
      (w.acquire n store state).2.Beside p gone (v.acquire n store state).2 :=
  (beside.retain alive).alloc _ 1

theorem borrow (beside : w.Beside p gone v) (n : NativeId) {store owner : ObjId} (alive : v.strong store ≠ 0)
    (alive' : v.strong owner ≠ 0) (state : HandleState) :
    (v.borrow n store owner state).1 = (w.borrow n store owner state).1 ∧
      (w.borrow n store owner state).2.Beside p gone (v.borrow n store owner state).2 :=
  ((beside.retain alive).retain (strong_retain_ne_zero alive')).alloc _ 1

theorem createInterrupt {s : ObjId} {n : NativeId} (beside : w.Beside p gone v) (isStore : w.shapes.IsStore s n)
    (sound : w.Sound held) (sound' : v.Sound held') (holds : v.shapes.Holds held' s) (keeps : p.handle ∈ held)
    (keeps' : p.owner ∈ held') : (v.createInterrupt s).1 = (w.createInterrupt s).1 ∧
      ∃ gone', (w.createInterrupt s).2.Beside p gone' (v.createInterrupt s).2 := by
  obtain ⟨gone', flushed⟩ := beside.flush isStore sound sound' keeps keeps'
  obtain ⟨there, alive, -⟩ := sound'.flush_held holds (by rw [beside.shapes]; exact isStore)
  have guarded := flushed.guard .interruptNew
  unfold World.createInterrupt
  dsimp only
  rw [guarded.storeNative?_eq]
  split
  · exact ⟨rfl, gone', guarded⟩
  · next sn _ =>
      obtain ⟨same, made⟩ := guarded.allocNative (.interrupt sn)
      rw [same]
      rw [guard_eq there.finalizing] at made ⊢
      obtain ⟨same, owned⟩ := made.acquire ((w.flush s).guard .interruptNew |>.allocNative (.interrupt sn)).1 (show World.strong _ s ≠ 0 from alive)
        .interrupt
      exact ⟨congrArg some same, gone', owned⟩

/-- The owning handle of a memory with the next access lock. -/
theorem acquireLocked (beside : w.Beside p gone v) (n : NativeId) {store : ObjId} (alive : v.strong store ≠ 0) :
    (World.acquire { v with locks := v.locks + 1 } n store (.memory v.locks)).1 =
        (World.acquire { w with locks := w.locks + 1 } n store (.memory w.locks)).1 ∧
      (World.acquire { w with locks := w.locks + 1 } n store (.memory w.locks)).2.Beside p gone
        (World.acquire { v with locks := v.locks + 1 } n store (.memory v.locks)).2 := by
  have locks : v.locks = w.locks := by
    rw [beside.rest]
    rfl
  have locked := beside.blind (F := fun w => { w with locks := w.locks + 1 }) fun _ _ => rfl
  rw [locks] at locked ⊢
  exact locked.acquire n alive _

theorem createMemory {s : ObjId} {n : NativeId} (beside : w.Beside p gone v) (isStore : w.shapes.IsStore s n)
    (sound : w.Sound held) (sound' : v.Sound held') (holds : v.shapes.Holds held' s) (keeps : p.handle ∈ held)
    (keeps' : p.owner ∈ held') (type : MemoryType) : (v.createMemory s type).1 = (w.createMemory s type).1 ∧
      ∃ gone', (w.createMemory s type).2.Beside p gone' (v.createMemory s type).2 := by
  obtain ⟨gone', flushed⟩ := beside.flush isStore sound sound' keeps keeps'
  obtain ⟨there, alive, -⟩ := sound'.flush_held holds (by rw [beside.shapes]; exact isStore)
  have here := sound.flush isStore
  unfold World.createMemory
  dsimp only
  rw [flushed.storeNative?_eq]
  split
  · next limits sn _ _ =>
      rw [guard_eq here.finalizing, guard_eq there.finalizing]
      unfold World.createNativeMemory
      rw [flushed.nativeStore?_eq]
      cases ((w.flush s).nativeStore? sn).bind fun st =>
          LinearMemory.create? st.config.maxMemoryPages limits with
      | none => exact ⟨rfl, gone', flushed⟩
      | some m =>
          obtain ⟨same, made⟩ := flushed.allocNative (.memory m)
          have shown := made.logAbout ((w.flush s).allocNative (.memory m)).1 (.createdMemory type)
          have alive' : (((v.flush s).allocNative (.memory m)).2.logAbout ((w.flush s).allocNative (.memory m)).1
              (.createdMemory type)).strong s ≠ 0 := by
            rw [(same_logAbout _ _ _).strong]
            exact alive
          obtain ⟨address, owned⟩ := shown.acquireLocked ((w.flush s).allocNative (.memory m)).1 alive'
          dsimp only
          rw [same]
          exact ⟨congrArg Except.ok address, gone', owned⟩
  · exact ⟨rfl, gone', flushed⟩

/-- The owning handle of a new function. -/
theorem acquireFunc (beside : w.Beside p gone v) (f : NativeFunc) {store : ObjId} (alive : v.strong store ≠ 0)
    (r : Nat → LogRecord) (state : HandleState) :
    let made (w : World) := (w.guard .funcNew).allocNative (.func f)
    (((made v).2.logAbout (made v).1 r).acquire (made v).1 store state).1 =
        (((made w).2.logAbout (made w).1 r).acquire (made w).1 store state).1 ∧
      (((made w).2.logAbout (made w).1 r).acquire (made w).1 store state).2.Beside p gone
        (((made v).2.logAbout (made v).1 r).acquire (made v).1 store state).2 := by
  obtain ⟨same, made⟩ := (beside.guard .funcNew).allocNative (.func f)
  have alive' : ((((v.guard .funcNew).allocNative (.func f)).2.logAbout
      ((w.guard .funcNew).allocNative (.func f)).1 r)).strong store ≠ 0 := by
    rw [(same_logAbout _ _ _).strong]
    exact (congrFun (strong_of_heap (heap_guard v .funcNew)) store).trans_ne alive
  dsimp only
  rw [same]
  exact (made.logAbout _ r).acquire _ alive' state

theorem register {s : ObjId} {n : NativeId} (beside : w.Beside p gone v) (code : HostCode) (captures : Scope)
    (isStore : w.shapes.IsStore s n) (sound : w.Sound held) (sound' : v.Sound held')
    (holds : v.shapes.Holds held' s) (keeps : p.handle ∈ held) (keeps' : p.owner ∈ held') :
    (v.register s code captures).1 = (w.register s code captures).1 ∧
      ∃ gone', (w.register s code captures).2.Beside p gone' (v.register s code captures).2 := by
  obtain ⟨gone', flushed⟩ := beside.flush isStore sound sound' keeps keeps'
  obtain ⟨-, alive, -⟩ := sound'.flush_held holds (by rw [beside.shapes]; exact isStore)
  obtain ⟨inner, closed⟩ := flushed.alloc (.closure code captures) 1
  obtain ⟨outer, opened⟩ := closed.alloc
    (.env (some ((w.flush s).alloc (.closure code captures) 1).1) code.shape.funcType s) 2
  have alive' : (((v.flush s).alloc (.closure code captures) 1).2.alloc
      (.env (some ((w.flush s).alloc (.closure code captures) 1).1) code.shape.funcType s) 2).2.strong s ≠ 0 := by
    rw [strong_alloc, strong_alloc]
    split
    · exact two_ne_zero
    · split
      · exact one_ne_zero
      · exact alive
  unfold World.register
  dsimp only
  rw [inner, outer, opened.storeNative?_eq]
  split
  · exact ⟨rfl, gone', opened⟩
  · next sn _ =>
      obtain ⟨same, owned⟩ := opened.acquireFunc ⟨sn, code.shape.funcType.toNative,
        .host (((w.flush s).alloc (.closure code captures) 1).2.alloc
          (.env (some ((w.flush s).alloc (.closure code captures) 1).1) code.shape.funcType s) 2).1⟩ (show World.strong _ s ≠ 0 from
        alive') (.registered code.shape.funcType) (.func (some (((w.flush s).alloc (.closure code captures) 1).2.alloc
          (.env (some ((w.flush s).alloc (.closure code captures) 1).1) code.shape.funcType s) 2).1))
      exact ⟨congrArg some same, gone', owned⟩

/-! ## Views -/

theorem asExtern (beside : w.Beside p gone v) (sound' : v.Sound held') (found : v.handle? id = some h) :
    (v.asExtern id h).1 = (w.asExtern id h).1 ∧ (w.asExtern id h).2.Beside p gone (v.asExtern id h).2 := by
  obtain ⟨store, owner⟩ := sound'.keeps_alive found
  exact beside.borrow _ store owner _

/-- What a view of a function yields. -/
theorem intoFunc? (beside : w.Beside p gone v) (sound' : v.Sound held') (found : v.handle? id = some h) :
    Option.Rel (fun r r' => r'.1 = r.1 ∧ r'.2.1 = r.2.1 ∧ r.2.2.Beside p gone r'.2.2) (w.intoFunc? id h)
      (v.intoFunc? id h) := by
  obtain ⟨store, owner⟩ := sound'.keeps_alive found
  unfold World.intoFunc?
  rw [beside.nativeFunc?_eq]
  split
  · obtain ⟨same, viewed⟩ := beside.borrow h.native store owner (.func none)
    exact .some ⟨same, rfl, viewed⟩
  · exact .none

theorem intoMemory? (beside : w.Beside p gone v) (sound' : v.Sound held') (found : v.handle? id = some h) :
    Option.Rel (fun r r' => r'.1 = r.1 ∧ r.2.Beside p gone r'.2) (w.intoMemory? id h) (v.intoMemory? id h) := by
  obtain ⟨store, owner⟩ := sound'.keeps_alive found
  unfold World.intoMemory? sharedLock?
  rw [beside.nativeMemory?_eq, beside.handle?_of_alive owner]
  split
  · next lock _ _ => exact .some (beside.borrow h.native store owner (.memory lock))
  · exact .none

/-! ## Diagnostics -/

theorem debugHandle (beside : w.Beside p gone v) (h : Handle) :
    (v.debugHandle h).1 = (w.debugHandle h).1 ∧ (w.debugHandle h).2.Beside p gone (v.debugHandle h).2 := by
  obtain ⟨same, tagged⟩ := beside.tag h.native
  unfold World.debugHandle
  dsimp only
  rw [same]
  exact ⟨rfl, tagged⟩

theorem debugFunc (beside : w.Beside p gone v) (h : Handle) (type : FuncType) :
    (v.debugFunc h type).1 = (w.debugFunc h type).1 ∧
      (w.debugFunc h type).2.Beside p gone (v.debugFunc h type).2 := by
  obtain ⟨same, shown⟩ := beside.debugHandle h
  unfold World.debugFunc
  dsimp only
  rw [same]
  exact ⟨rfl, shown⟩

/-- The diagnostic form of an item that is alive. -/
theorem debug? (beside : w.Beside p gone v) (item : Item) (alive : ∀ id ∈ item.refs, v.strong id ≠ 0) :
    Option.Rel (fun r r' => r'.1 = r.1 ∧ r.2.Beside p gone r'.2) (w.debug? item) (v.debug? item) := by
  have handle (id : ObjId) (mem : id ∈ item.refs) := beside.handle?_of_alive (alive id mem)
  unfold World.debug?
  cases item with
  | engine c => exact .some ⟨rfl, beside⟩
  | store s =>
      dsimp only
      rw [beside.storeNative?_eq]
      cases w.storeNative? s with
      | none => exact .none
      | some n =>
          obtain ⟨same, tagged⟩ := beside.tag n
          refine .some ⟨?_, tagged⟩
          dsimp only
          rw [same, tagged.pending_eq]
  | memory id =>
      dsimp only
      rw [handle id List.mem_cons_self]
      cases w.handle? id with
      | none => exact .none
      | some h =>
          rw [Option.bind_some, Option.bind_some, beside.nativeMemory?_eq]
          cases w.nativeMemory? h.native with
          | none => exact .none
          | some m =>
              obtain ⟨same, shown⟩ := beside.debugHandle h
              exact .some ⟨congrArg (fun s => Diagnostic.record "Memory" [("size", toString m.pages.toNat),
                ("handle", s)]) same, shown⟩
  | func id type =>
      dsimp only
      rw [handle id List.mem_cons_self]
      cases w.handle? id with
      | none => exact .none
      | some h => exact .some (beside.debugFunc h type)
  | view id =>
      dsimp only
      rw [handle id List.mem_cons_self]
      cases w.handle? id with
      | none => exact .none
      | some h =>
          rw [Option.bind_some, Option.bind_some, beside.externKind?_eq]
          cases w.externKind? h.native with
          | none => exact .none
          | some k =>
              obtain ⟨same, shown⟩ := beside.debugHandle h
              exact .some ⟨congrArg (fun s => Diagnostic.record "Extern" [("kind", k.name), ("handle", s)]) same,
                shown⟩
  | interrupt id =>
      dsimp only
      rw [handle id List.mem_cons_self]
      cases w.handle? id with
      | none => exact .none
      | some h =>
          obtain ⟨same, shown⟩ := beside.debugHandle h
          exact .some ⟨congrArg (fun s => "InterruptHandle(" ++ s ++ ")") same, shown⟩
  | typedFunc id type sig =>
      dsimp only
      rw [handle id List.mem_cons_self]
      cases w.handle? id with
      | none => exact .none
      | some h =>
          obtain ⟨same, shown⟩ := beside.debugFunc h type
          exact .some ⟨congrArg (fun s => Diagnostic.record "TypedFunc" [("func", s)]) same, shown⟩
  | value c => exact .some ⟨rfl, beside⟩
  | cell c => exact .none
  | raw n => exact .none

end Beside

end HostEmbedding.World
