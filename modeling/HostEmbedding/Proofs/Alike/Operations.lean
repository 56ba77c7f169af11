import HostEmbedding.Proofs.Alike.Release
import HostEmbedding.Proofs.Call.Callable

/-!
# Operations in two runs

Every operation of the host yields the same in both runs. Operations that create something flush the
store first, each run what is queued in it there; what they create stands under the same address and
gets the same number.
-/

namespace HostEmbedding.World

open Diagnostic

variable {δ : Variation} {w v : World} {held held' : List ObjId}

/-- The diagnostic form of a store with a number and so many queued objects. -/
def storeText (tag queued : Nat) : String :=
  Diagnostic.record "Store" [("ptr", LogRecord.tagText tag), ("pending", toString queued)]

namespace Alike

variable (alike : w.Alike δ v)
include alike

/-! ## Creating -/

theorem createStore (config : Config) :
    (v.createStore config).1 = (w.createStore config).1 ∧
      (w.createStore config).2.Alike δ (v.createStore config).2 := by
  obtain ⟨same, alike⟩ := alike.allocNative (.store ⟨config, false, 0⟩)
  unfold World.createStore
  dsimp only
  rw [same]
  exact alike.alloc (.store fun _ => rfl) rfl rfl 1

theorem acquire (n : NativeId) (store : ObjId) (state : HandleState) :
    (v.acquire n store state).1 = (w.acquire n store state).1 ∧
      (w.acquire n store state).2.Alike δ (v.acquire n store state).2 :=
  (alike.retain store).alloc (.handle _) rfl rfl 1

theorem borrow (n : NativeId) (store owner : ObjId) (state : HandleState) :
    (v.borrow n store owner state).1 = (w.borrow n store owner state).1 ∧
      (w.borrow n store owner state).2.Alike δ (v.borrow n store owner state).2 :=
  ((alike.retain store).retain owner).alloc (.handle _) rfl rfl 1

/-- What is deleted in neither run is the same object. -/
theorem native?_of_live {n : NativeId} (live : w.deletions n = 0) (live' : v.deletions n = 0) :
    v.native? n = w.native? n := alike.native? (live'.trans live.symm)

/-- The native side of a store that is held. -/
theorem nativeStore? {s : ObjId} {n : NativeId} (sound : w.Sound held) (sound' : v.Sound held')
    (isStore : w.shapes.IsStore s n) (alive : w.strong s ≠ 0) (alive' : v.strong s ≠ 0) :
    v.nativeStore? n = w.nativeStore? n := by
  have live {w : World} {held : List ObjId} (sound : w.Sound held) (isStore : w.shapes.IsStore s n)
      (alive : w.strong s ≠ 0) : w.deletions n = 0 := by
    obtain ⟨config, known⟩ := isStore
    exact (sound.claim_live known alive rfl).1
  unfold World.nativeStore?
  rw [alike.native?_of_live (live sound isStore alive) (live sound' (alike.isStore isStore) alive')]

theorem createInterrupt {s : ObjId} {n : NativeId} (sound : w.Sound held) (sound' : v.Sound held')
    (isStore : w.shapes.IsStore s n) :
    (v.createInterrupt s).1 = (w.createInterrupt s).1 ∧
      (w.createInterrupt s).2.Alike δ (v.createInterrupt s).2 := by
  have flushed := (alike.flush isStore sound sound').guard .interruptNew
  unfold World.createInterrupt
  dsimp only
  rw [flushed.storeNative?]
  split
  · exact ⟨rfl, flushed⟩
  · next sn _ =>
      obtain ⟨same, made⟩ := flushed.allocNative (.interrupt sn)
      rw [same]
      obtain ⟨same, made⟩ := made.acquire _ s .interrupt
      exact ⟨congrArg some same, made⟩

/-- The owning handle of a memory with the next access lock. -/
theorem acquireLocked (n : NativeId) (store : ObjId) :
    (World.acquire { v with locks := v.locks + 1 } n store (.memory v.locks)).1 =
        (World.acquire { w with locks := w.locks + 1 } n store (.memory w.locks)).1 ∧
      (World.acquire { w with locks := w.locks + 1 } n store (.memory w.locks)).2.Alike δ
        (World.acquire { v with locks := v.locks + 1 } n store (.memory v.locks)).2 := by
  have locked : Alike δ { w with locks := w.locks + 1 } { v with locks := w.locks + 1 } :=
    { alike with locks := rfl }
  rw [alike.locks]
  exact locked.acquire n store _

theorem createMemory {s : ObjId} {n : NativeId} (sound : w.Sound held) (sound' : v.Sound held')
    (holds : w.shapes.Holds held s) (holds' : v.shapes.Holds held' s) (isStore : w.shapes.IsStore s n)
    (type : MemoryType) :
    (v.createMemory s type).1 = (w.createMemory s type).1 ∧
      (w.createMemory s type).2.Alike δ (v.createMemory s type).2 := by
  have flushed := alike.flush isStore sound sound'
  obtain ⟨here, alive, known, isStore', -⟩ := sound.flush_held holds isStore
  obtain ⟨there, alive', -, -, -⟩ := sound'.flush_held holds' (alike.isStore isStore)
  have native := flushed.nativeStore? here there isStore' alive alive'
  unfold World.createMemory
  dsimp only
  rw [flushed.storeNative?, known]
  cases type.toLimits? with
  | none => exact ⟨rfl, flushed⟩
  | some limits =>
      dsimp only
      rw [guard_eq here.finalizing, guard_eq there.finalizing]
      unfold World.createNativeMemory
      rw [native]
      cases ((w.flush s).nativeStore? n).bind fun st =>
          LinearMemory.create? st.config.maxMemoryPages limits with
      | none => exact ⟨rfl, flushed⟩
      | some m =>
          obtain ⟨same, made⟩ := flushed.allocNative (.memory m)
          have shown := made.logAbout ((w.flush s).allocNative (.memory m)).1 (.createdMemory type)
          obtain ⟨address, owned⟩ := shown.acquireLocked ((w.flush s).allocNative (.memory m)).1 s
          dsimp only
          rw [same]
          exact ⟨congrArg Except.ok address, owned⟩

/-- Registering variations of the same host code. -/
theorem register {s : ObjId} {n : NativeId} {code code' : HostCode} {captures : Scope}
    (sound : w.Sound (captures.refs ++ held)) (sound' : v.Sound (captures.refs ++ held'))
    (isStore : w.shapes.IsStore s n) (like : code.Like δ code') :
    (v.register s code' captures).1 = (w.register s code captures).1 ∧
      (w.register s code captures).2.Alike δ (v.register s code' captures).2 := by
  have flushed := alike.flush isStore sound sound'
  obtain ⟨inner, closed⟩ := flushed.alloc (.closure captures like) rfl rfl 1
  obtain ⟨outer, opened⟩ := closed.alloc
    (.env (some ((w.flush s).alloc (.closure code captures) 1).1) code.shape.funcType s) rfl rfl 2
  unfold World.register
  dsimp only
  rw [like.funcType, inner, outer, opened.storeNative?]
  split
  · exact ⟨rfl, opened⟩
  · next sn _ =>
      obtain ⟨same, made⟩ := (opened.guard .funcNew).allocNative (.func ⟨sn, code.shape.funcType.toNative,
        .host (((w.flush s).alloc (.closure code captures) 1).2.alloc
          (.env (some ((w.flush s).alloc (.closure code captures) 1).1) code.shape.funcType s) 2).1⟩)
      rw [same]
      obtain ⟨same, owned⟩ := (made.logAbout _ (.registered code.shape.funcType)).acquire _ s (.func (some _))
      exact ⟨congrArg some same, owned⟩

/-! ## Views -/

theorem asExtern (id : ObjId) (h : Handle) :
    (v.asExtern id h).1 = (w.asExtern id h).1 ∧ (w.asExtern id h).2.Alike δ (v.asExtern id h).2 :=
  alike.borrow _ _ _ _

/-- The native object of a handle that is alive. -/
theorem ofHandle {id : ObjId} {h : Handle} (sound : w.Sound held) (sound' : v.Sound held')
    (found : w.handle? id = some h) : v.native? h.native = w.native? h.native := by
  have found' : v.handle? id = some h := (alike.handle? id).trans found
  exact alike.native?_of_live (sound.handle_live found) (sound'.handle_live found')

/-- What a view yields in both runs. -/
theorem intoFunc? {id : ObjId} {h : Handle} (sound : w.Sound held) (sound' : v.Sound held')
    (found : w.handle? id = some h) :
    Option.Rel (fun r r' => r'.1 = r.1 ∧ r'.2.1 = r.2.1 ∧ r.2.2.Alike δ r'.2.2) (w.intoFunc? id h)
      (v.intoFunc? id h) := by
  unfold World.intoFunc? World.nativeFunc?
  rw [alike.ofHandle sound sound' found]
  split
  · obtain ⟨same, viewed⟩ := alike.borrow h.native h.store (ownerOf id h) (.func none)
    exact .some ⟨same, rfl, viewed⟩
  · exact .none

theorem intoMemory? {id : ObjId} {h : Handle} (sound : w.Sound held) (sound' : v.Sound held')
    (found : w.handle? id = some h) :
    Option.Rel (fun r r' => r'.1 = r.1 ∧ r.2.Alike δ r'.2) (w.intoMemory? id h) (v.intoMemory? id h) := by
  unfold World.intoMemory? World.nativeMemory? sharedLock?
  rw [alike.ofHandle sound sound' found, alike.handle?]
  split
  · next lock _ _ => exact .some (alike.borrow h.native h.store (ownerOf id h) (.memory lock))
  · exact .none

/-! ## Changes in place -/

theorem memoryOf? (sound : w.Sound held) (sound' : v.Sound held') (id : ObjId) :
    v.memoryOf? id = w.memoryOf? id := by
  unfold World.memoryOf?
  rw [alike.handle?]
  split
  · next h found =>
      unfold World.nativeMemory?
      rw [alike.ofHandle sound sound' found]
  · rfl

theorem grow (n : NativeId) (m : LinearMemory) (delta : UInt32) :
    (v.grow n m delta).1 = (w.grow n m delta).1 ∧ (w.grow n m delta).2.Alike δ (v.grow n m delta).2 := by
  unfold World.grow World.growNative
  cases m.grow? delta with
  | some m => exact ⟨rfl, alike.setNative n _⟩
  | none => exact ⟨rfl, alike.logAbout n fun t => .refusedGrow t delta⟩

theorem write (n : NativeId) (m : LinearMemory) (offset : Nat) (data : Runs) :
    (v.write n m offset data).1 = (w.write n m offset data).1 ∧
      (w.write n m offset data).2.Alike δ (v.write n m offset data).2 := by
  unfold World.write
  cases m.write? offset data with
  | some m => exact ⟨rfl, alike.setNative n _⟩
  | none => exact ⟨rfl, alike⟩

theorem interrupt {id : ObjId} {h : Handle} (sound : w.Sound held) (sound' : v.Sound held')
    (found : w.handle? id = some h) : (w.interrupt h).Alike δ (v.interrupt h) := by
  have logged := alike.logAbout h.native .interruptRequested
  have live {w : World} {held : List ObjId} (sound : w.Sound held) (found : w.handle? id = some h) :
      (w.logAbout h.native .interruptRequested).deletions h.native = 0 := by
    rw [(same_logAbout _ _ _).deletions]
    exact sound.handle_live found
  have same := logged.native?_of_live (live sound found) (live sound' ((alike.handle? id).trans found))
  unfold World.interrupt World.requestInterrupt
  rw [same]
  split
  · exact logged.modifyNativeStore _ _
  · exact logged

/-! ## Diagnostics -/

/-- How the diagnostic forms of an item compare: the number of queued objects may differ. -/
inductive Shows (δ : Variation) : Option (String × World) → Option (String × World) → Prop
  | none : Shows δ none none
  | same {text : String} {w v : World} (alike : w.Alike δ v) : Shows δ (some (text, w)) (some (text, v))
  | queued {tag p q : Nat} {w v : World} (among : δ = .flushes) (alike : w.Alike δ v) :
      Shows δ (some (storeText tag p, w)) (some (storeText tag q, v))

theorem debugHandle (h : Handle) :
    (v.debugHandle h).1 = (w.debugHandle h).1 ∧ (w.debugHandle h).2.Alike δ (v.debugHandle h).2 := by
  obtain ⟨same, tagged⟩ := alike.tagged h.native
  unfold World.debugHandle
  dsimp only
  rw [same]
  exact ⟨rfl, tagged⟩

theorem debugFunc (h : Handle) (type : FuncType) :
    (v.debugFunc h type).1 = (w.debugFunc h type).1 ∧
      (w.debugFunc h type).2.Alike δ (v.debugFunc h type).2 := by
  obtain ⟨same, shown⟩ := alike.debugHandle h
  unfold World.debugFunc
  dsimp only
  rw [same]
  exact ⟨rfl, shown⟩

theorem debug? (sound : w.Sound held) (sound' : v.Sound held') (item : Item) :
    Shows δ (w.debug? item) (v.debug? item) := by
  have both {text text' : String} {w v : World} (shown : text' = text ∧ w.Alike δ v) :
      Shows δ (some (text, w)) (some (text', v)) := by
    rw [shown.1]
    exact .same shown.2
  unfold World.debug?
  cases item with
  | engine c => exact .same alike
  | store s =>
      dsimp only
      rw [alike.storeNative?]
      cases w.storeNative? s with
      | none => exact .none
      | some n =>
          obtain ⟨same, tagged⟩ := alike.tagged n
          show Shows δ (some (storeText (w.tag n).1 (World.pending (w.tag n).2 s).size, (w.tag n).2))
            (some (storeText (v.tag n).1 (World.pending (v.tag n).2 s).size, (v.tag n).2))
          rw [same]
          rcases eq_or_ne δ .flushes with rfl | among
          · exact .queued rfl tagged
          · rw [tagged.pending among]
            exact .same tagged
  | memory id =>
      dsimp only
      rw [alike.handle?]
      cases found : w.handle? id with
      | none => exact .none
      | some h =>
          unfold World.nativeMemory?
          rw [Option.bind_some, Option.bind_some, alike.ofHandle sound sound' found]
          split
          · next m _ =>
              obtain ⟨same, shown⟩ := alike.debugHandle h
              exact both ⟨congrArg (fun s => record "Memory" [("size", toString m.pages.toNat), ("handle", s)])
                same, shown⟩
          · exact .none
  | func id type =>
      dsimp only
      rw [alike.handle?]
      cases w.handle? id with
      | none => exact .none
      | some h => exact both (alike.debugFunc h type)
  | view id =>
      dsimp only
      rw [alike.handle?]
      cases found : w.handle? id with
      | none => exact .none
      | some h =>
          unfold World.externKind?
          rw [Option.bind_some, Option.bind_some, alike.ofHandle sound sound' found]
          cases ( w.native? h.native).bind Native.externKind? with
          | none => exact .none
          | some k =>
              obtain ⟨same, shown⟩ := alike.debugHandle h
              exact both ⟨congrArg (fun s => record "Extern" [("kind", k.name), ("handle", s)]) same, shown⟩
  | interrupt id =>
      dsimp only
      rw [alike.handle?]
      cases w.handle? id with
      | none => exact .none
      | some h =>
          obtain ⟨same, shown⟩ := alike.debugHandle h
          exact both ⟨congrArg (fun s => "InterruptHandle(" ++ s ++ ")") same, shown⟩
  | typedFunc id type sig =>
      dsimp only
      rw [alike.handle?]
      cases w.handle? id with
      | none => exact .none
      | some h =>
          obtain ⟨same, shown⟩ := alike.debugFunc h type
          exact both ⟨congrArg (fun s => record "TypedFunc" [("func", s)]) same, shown⟩
  | value c => exact .same alike
  | cell c => exact .none
  | raw n => exact .none

end Alike

end HostEmbedding.World
