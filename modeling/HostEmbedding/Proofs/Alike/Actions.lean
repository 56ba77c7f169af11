import HostEmbedding.Proofs.Alike.Machine

/-!
# Steps that end at once, in two runs

Every public action does the same in both machines: what it creates stands under the same address, and
it ends in the same way. Only the number that a flush released or that are queued may differ, under
other flushes; and only code that has its caller in one run alone can tell other shapes apart.
-/

namespace HostEmbedding

variable {δ : Variation}

inductive Step.Ends (δ : Variation) (s : Step) : Completion → Completion → Prop
  | same (c : Completion) : Step.Ends δ s c c
  | reports {a a' : Answer} (among : δ = .flushes) (reports : s.Reports a a') :
      Step.Ends δ s (.done a) (.done a')

def Action.asksCaller : Action → Bool
  | .depth _ | .callerStore _ | .callerDebug => true
  | _ => false

namespace Machine

variable {m n m₀ n₀ : Machine} {extra : List ObjId} {item : Item} {v : VarName} {s : Step}

structure Concludes (δ : Variation) (s : Step) (m n : Machine) : Prop where
  near : Near δ m n
  ends : ∃ c c', m.control = .complete c ∧ n.control = .complete c' ∧ Step.Ends δ s c c'

theorem Finished.concludes (finished : Finished δ m n) (s : Step) : Concludes δ s m n := by
  obtain ⟨near, c, left, right⟩ := finished
  exact ⟨near, c, c, left, right, .same c⟩

def SameCaller (m n : Machine) : Prop :=
  ∀ a b, m.context = .body a → n.context = .body b → b.code.shape.hasCaller = a.code.shape.hasCaller

namespace Near

/-- What the caller tells is the same. -/
theorem caller? (near : Near δ m n) (same : SameCaller m n) :
    Option.Rel (fun a b => b.depth = a.depth ∧ b.store = a.store) m.caller? n.caller? := by
  have contexts := near.context
  unfold SameCaller at same
  unfold Machine.caller?
  generalize m.context = ctx at contexts same
  generalize n.context = ctx' at contexts same
  cases contexts with
  | top => exact .none
  | thread => exact .none
  | body a like =>
      dsimp only
      rw [same _ _ rfl rfl]
      split
      · exact .some ⟨rfl, rfl⟩
      · exact .none

end Near

namespace Abreast

/-- What was only shown. -/
theorem same {w u : World} (abreast : Abreast δ m₀ n₀ extra m n) (same : World.Same m.world w)
    (same' : World.Same n.world u) (alike : w.Alike δ u) :
    Abreast δ m₀ n₀ extra (m.withWorld w) (n.withWorld u) :=
  ⟨abreast.left.same same, abreast.right.same same', abreast.near.withWorld alike⟩

theorem finish (abreast : Abreast δ m₀ n₀ extra m n) (a : Answer) :
    Finished δ (m.finish a) (n.finish a) := abreast.near.finish a

theorem unusable (abreast : Abreast δ m₀ n₀ extra m n) (v : VarName) :
    Finished δ (m.unusable v) (n.unusable v) := abreast.near.unusable v

/-! ## Stores, memories and handles -/

/-- An engine owns nothing. -/
theorem assignEngine (abreast : Abreast δ m₀ n₀ extra m n) (config : Config) (name : VarName) :
    Abreast δ m₀ n₀ extra (m.assign name (.engine config)) (n.assign name (.engine config)) := by
  have held : Abreast δ m₀ n₀ ((Item.engine config).refs ++ extra) m n := abreast
  exact held.assign trivial trivial name

theorem createEngine (abreast : Abreast δ m₀ n₀ extra m n) (config : Config) :
    Abreast δ m₀ n₀ extra (m.withWorld (m.world.createEngine config))
      (n.withWorld (n.world.createEngine config)) :=
  abreast.same (World.same_log _ _) (World.same_log _ _) (abreast.near.world.log _)

theorem createStore (abreast : Abreast δ m₀ n₀ [] m n) (name : VarName) (config : Config) :
    Finished δ
      (((m.withWorld (m.world.createStore config).2).assign name
        (.store (m.world.createStore config).1)).finish (.config config))
      (((n.withWorld (n.world.createStore config).2).assign name
        (.store (n.world.createStore config).1)).finish (.config config)) := by
  obtain ⟨address, alike⟩ := abreast.near.world.createStore config
  have made := abreast.left.world.createStore config
  have made' := abreast.right.world.createStore config
  rw [address] at made' ⊢
  exact (abreast.yields made made' alike name).finish _

theorem newStore (abreast : Abreast δ m₀ n₀ [] m n) (name : VarName) (engine : Option VarName) :
    Finished δ (m.newStore name engine) (n.newStore name engine) := by
  unfold Machine.newStore
  cases engine with
  | none => exact (abreast.createEngine .standard).createStore name .standard
  | some v =>
      dsimp only
      rw [abreast.near.lookup]
      split
      · next config found => exact abreast.createStore name config
      · exact abreast.unusable v

/-- A flush that both runs do. -/
theorem flush (abreast : Abreast δ m₀ n₀ extra m n) {s : ObjId} (usable : m.Usable (.store s))
    (usable' : n.Usable (.store s)) :
    Abreast δ m₀ n₀ extra (m.withWorld (m.world.flush s)) (n.withWorld (n.world.flush s)) := by
  obtain ⟨k, isStore⟩ := usable.fits
  exact ⟨abreast.left.flush usable, abreast.right.flush usable', abreast.near.withWorld
    (abreast.near.world.flush isStore abreast.left.world abreast.right.world)⟩

theorem interruptHandle (abreast : Abreast δ m₀ n₀ [] m n) {s : ObjId} (usable : m.Usable (.store s))
    (usable' : n.Usable (.store s)) (name : VarName) :
    Finished δ
      ((m.withWorld (m.world.createInterrupt s).2).assignNew name
        ((m.world.createInterrupt s).1.map .interrupt) .ok)
      ((n.withWorld (n.world.createInterrupt s).2).assignNew name
        ((n.world.createInterrupt s).1.map .interrupt) .ok) := by
  obtain ⟨k, isStore⟩ := usable.fits
  obtain ⟨k', isStore'⟩ := usable'.fits
  obtain ⟨address, alike⟩ :=
    abreast.near.world.createInterrupt abreast.left.world abreast.right.world isStore
  obtain ⟨h, made, yields⟩ := abreast.left.world.createInterrupt
    (abreast.left.holds usable (List.mem_singleton_self s)) isStore
  obtain ⟨h', made', yields'⟩ := abreast.right.world.createInterrupt
    (abreast.right.holds usable' (List.mem_singleton_self s)) isStore'
  obtain rfl : h' = h := Option.some.inj (made'.symm.trans (address.trans made))
  rw [made, made']
  exact (abreast.yields yields yields' alike name).finish _

theorem newMemory (abreast : Abreast δ m₀ n₀ [] m n) (g : Guard) (name v : VarName) (type : MemoryType) :
    Finished δ (m.newMemory g name v type) (n.newMemory g name v type) := by
  refine abreast.withStore (fun _ _ finished => finished) fun s usable usable' => ?_
  obtain ⟨k, isStore⟩ := usable.fits
  obtain ⟨k', isStore'⟩ := usable'.fits
  have holds := abreast.left.holds usable (List.mem_singleton_self s)
  have holds' := abreast.right.holds usable' (List.mem_singleton_self s)
  obtain ⟨result, alike⟩ := abreast.near.world.createMemory abreast.left.world abreast.right.world
    holds holds' isStore type
  rcases abreast.left.world.createMemory holds isStore type with
    ⟨h, w, made, yields⟩ | ⟨e, w, made, -, -⟩ <;>
  rcases abreast.right.world.createMemory holds' isStore' type with
    ⟨h', w', made', yields'⟩ | ⟨e', w', made', -, -⟩ <;>
  rw [made, made'] at result alike <;> cases result <;> rw [made, made']
  · exact (abreast.yields yields yields' alike name).finish _
  · exact (abreast.near.withWorld alike).refuse g _

theorem grow (abreast : Abreast δ m₀ n₀ [] m n) (id : NativeId) (mem : LinearMemory) (delta : UInt32) :
    Finished δ ((m.withWorld (m.world.grow id mem delta).2).finish (.bool (m.world.grow id mem delta).1))
      ((n.withWorld (n.world.grow id mem delta).2).finish (.bool (n.world.grow id mem delta).1)) := by
  obtain ⟨granted, alike⟩ := abreast.near.world.grow id mem delta
  rw [granted]
  exact (abreast.near.withWorld alike).finish _

theorem writeMemory (abreast : Abreast δ m₀ n₀ [] m n) (g : Guard) (id : NativeId) (mem : LinearMemory)
    (offset : Nat) (data : Runs) :
    Finished δ (m.writeMemory g id mem offset data) (n.writeMemory g id mem offset data) := by
  obtain ⟨result, alike⟩ := abreast.near.world.write id mem offset data
  have written := abreast.near.withWorld alike
  unfold Machine.writeMemory
  generalize m.world.write id mem offset data = here at result written
  generalize n.world.write id mem offset data = there at result written
  obtain ⟨r, w⟩ := here
  obtain ⟨r', w'⟩ := there
  cases result
  cases r with
  | ok done => exact written.finish _
  | error e => exact written.refuse g e

theorem pokeMemory (abreast : Abreast δ m₀ n₀ [] m n) (g : Guard) (v : VarName) (address value : Operand) :
    Finished δ (m.pokeMemory g v address value) (n.pokeMemory g v address value) := by
  refine abreast.withMemory (fun _ _ finished => finished) fun id mem => ?_
  refine abreast.withOperand (fun _ _ finished => finished) fun a _ _ => ?_
  refine abreast.withOperand (fun _ _ finished => finished) fun s _ _ => ?_
  split
  · exact abreast.writeMemory g id mem _ _
  · exact abreast.unusable v

/-- The store of a live handle can be copied. -/
theorem storeOf (abreast : Abreast δ m₀ n₀ [] m n) {id : ObjId} {h : Handle}
    (found : m.world.handle? id = some h) (found' : n.world.handle? id = some h) (name : VarName) :
    Finished δ ((m.assignCopy name (.store h.store)).finish .ok)
      ((n.assignCopy name (.store h.store)).finish .ok) := by
  have fits {m₀ m : Machine} (busy : Busy m₀ [] m) (found : m.world.handle? id = some h) :
      Item.Fits m.world.shapes (.store h.store) := by
    obtain ⟨k, entry⟩ := World.isHandle_iff.mp (World.handle?_eq_some.mp found).1
    have handle : h.Fits m.world.shapes := busy.world.objects entry
    obtain ⟨s, isStore, -⟩ := handle.state
    exact ⟨s, isStore⟩
  have alive {m₀ m : Machine} (busy : Busy m₀ [] m) (found : m.world.handle? id = some h) :
      ∀ x ∈ (Item.store h.store).refs, m.world.strong x ≠ 0 := fun x mem => by
    cases List.mem_singleton.mp mem
    exact (busy.world.keeps_alive found).1
  exact (abreast.assignCopy (fits abreast.left found) (fits abreast.right found')
    (alive abreast.left found) (alive abreast.right found') name).finish _

/-! ## Views -/

theorem newExtern (abreast : Abreast δ m₀ n₀ [] m n) (name v : VarName) :
    Finished δ (m.newExtern name v) (n.newExtern name v) := by
  refine abreast.withHandle (fun _ _ finished => finished) fun item id h _ _ _ found found' => ?_
  obtain ⟨address, alike⟩ := abreast.near.world.asExtern id h
  have made := abreast.left.world.asExtern found
  have made' := abreast.right.world.asExtern found'
  dsimp only
  rw [address] at made' ⊢
  exact (abreast.yields made made' alike name).finish _

theorem externToFunc (abreast : Abreast δ m₀ n₀ [] m n) (name v : VarName) :
    Finished δ (m.externToFunc name v) (n.externToFunc name v) := by
  refine abreast.withHandle (fun _ _ finished => finished) fun item id h _ _ _ found found' => ?_
  have views := abreast.near.world.intoFunc? abreast.left.world abreast.right.world found
  cases here : m.world.intoFunc? id h with
  | none =>
      cases there : n.world.intoFunc? id h with
      | none => exact abreast.finish _
      | some r =>
          rw [here, there] at views
          cases views
  | some r =>
      cases there : n.world.intoFunc? id h with
      | none =>
          rw [here, there] at views
          cases views
      | some r' =>
          rw [here, there] at views
          obtain ⟨f, type, w⟩ := r
          obtain ⟨f', type', w'⟩ := r'
          cases views with
          | some same =>
              obtain ⟨address, typed, alike⟩ := same
              dsimp only at address typed
              subst address typed
              exact (abreast.yields (abreast.left.world.intoFunc? found here)
                (abreast.right.world.intoFunc? found' there) alike name).finish _

theorem externToMemory (abreast : Abreast δ m₀ n₀ [] m n) (name v : VarName) :
    Finished δ (m.externToMemory name v) (n.externToMemory name v) := by
  refine abreast.withHandle (fun _ _ finished => finished) fun item id h _ _ _ found found' => ?_
  have views := abreast.near.world.intoMemory? abreast.left.world abreast.right.world found
  cases here : m.world.intoMemory? id h with
  | none =>
      cases there : n.world.intoMemory? id h with
      | none => exact abreast.finish _
      | some r =>
          rw [here, there] at views
          cases views
  | some r =>
      cases there : n.world.intoMemory? id h with
      | none =>
          rw [here, there] at views
          cases views
      | some r' =>
          rw [here, there] at views
          obtain ⟨x, w⟩ := r
          obtain ⟨x', w'⟩ := r'
          cases views with
          | some same =>
              obtain ⟨address, alike⟩ := same
              dsimp only at address
              subst address
              exact (abreast.yields (abreast.left.world.intoMemory? found here)
                (abreast.right.world.intoMemory? found' there) alike name).finish _

theorem externKind (abreast : Abreast δ m₀ n₀ [] m n) (v : VarName) :
    Finished δ
      (m.withHandle v fun _ _ h =>
        match m.world.externKind? h.native with
        | some k => m.finish (.text k.name)
        | none => m.unusable v)
      (n.withHandle v fun _ _ h =>
        match n.world.externKind? h.native with
        | some k => n.finish (.text k.name)
        | none => n.unusable v) := by
  refine abreast.withHandle (fun _ _ finished => finished) fun item id h _ _ _ found _ => ?_
  unfold World.externKind?
  rw [abreast.near.world.ofHandle abreast.left.world abreast.right.world found]
  split
  · exact abreast.finish _
  · exact abreast.unusable v

/-! ## Functions -/

/-- Variations of one closure are registered under the same address. -/
theorem newFunc (abreast : Abreast δ m₀ n₀ [] m n) (name v : VarName) {code code' : HostCode}
    (like : code.Like δ code') (body : Block.isPublic code.body = true)
    (body' : Block.isPublic code'.body = true) (names : List VarName) :
    Finished δ (m.newFunc name v code names) (n.newFunc name v code' names) := by
  refine abreast.withStore (fun _ _ finished => finished) fun s usable usable' => ?_
  have looked : (fun c => (n.lookup c).map fun i => (c.base, i)) =
      fun c => (m.lookup c).map fun i => (c.base, i) :=
    funext fun c => congrArg (Option.map _) (abreast.near.lookup c)
  rw [looked]
  split
  · exact abreast.unusable v
  · next captures found =>
      have captured := abreast.left.captured found
      have captured' := abreast.right.captured ((congrArg (List.mapM · names) looked).trans found)
      have alive {m₀ m : Machine} (busy : Busy m₀ [] m) (captured : ∀ p ∈ captures, m.Usable p.2) :
          ∀ id ∈ Scope.refs captures, m.world.strong id ≠ 0 := fun id mem => by
        obtain ⟨p, held, mem⟩ := List.mem_flatMap.mp mem
        exact busy.alive (captured p held) id mem
      have counted := abreast.retainAll (alive abreast.left captured) (alive abreast.right captured')
      obtain ⟨k, isStore⟩ := usable.fits
      obtain ⟨k', isStore'⟩ := usable'.fits
      have registers {m₀ m : Machine} (busy : Busy m₀ [] m) (captured : ∀ p ∈ captures, m.Usable p.2)
          (usable : m.Usable (.store s)) {k : NativeId} (isStore : m.world.shapes.IsStore s k)
          (code : HostCode) (body : Block.isPublic code.body = true) :
          ∃ h, ((m.world.retainAll (Scope.refs captures)).register s code captures).1 = some h ∧
            World.Yields m.world ([] ++ m.owns)
              ((m.world.retainAll (Scope.refs captures)).register s code captures).2
              (.func h code.shape.funcType) := by
        have evolves := World.evolves_retainAll (Scope.refs captures) (alive busy captured)
        obtain ⟨h, result, yields⟩ := (busy.world.retainAll (Scope.refs captures) (alive busy captured)).register
          ((busy.holds usable (List.mem_singleton_self s)).mono evolves.shapes fun _ mem => mem)
          (isStore.mono evolves.shapes) body fun p held => (captured p held).fits.mono evolves.shapes
        exact ⟨h, result, yields.sound, evolves.trans yields.evolves, yields.fits⟩
      have evolves := World.evolves_retainAll (Scope.refs captures) (alive abreast.left captured)
      obtain ⟨address, alike⟩ := counted.near.world.register
        (by rw [← List.append_assoc]; exact counted.left.world)
        (by rw [← List.append_assoc]; exact counted.right.world) (isStore.mono evolves.shapes) like
      obtain ⟨h, made, yields⟩ := registers abreast.left captured usable isStore code body
      obtain ⟨h', made', yields'⟩ := registers abreast.right captured' usable' isStore' code' body'
      obtain rfl : h' = h := Option.some.inj (made'.symm.trans (address.trans made))
      rw [like.funcType] at yields'
      have assigned := abreast.yields yields yields' alike name
      generalize (m.world.retainAll (Scope.refs captures)).register s code captures = here at made assigned ⊢
      generalize (n.world.retainAll (Scope.refs captures)).register s code' captures = there at made' assigned ⊢
      obtain ⟨r, w⟩ := here
      obtain ⟨r', w'⟩ := there
      cases made
      cases made'
      dsimp only
      rw [like.funcType]
      exact assigned.finish _

theorem showFuncType (abreast : Abreast δ m₀ n₀ [] m n) (v : VarName) :
    Finished δ (m.showFuncType v) (n.showFuncType v) := by
  unfold Machine.showFuncType
  rw [abreast.near.lookup]
  split
  · next h type _ =>
      rw [abreast.near.world.handle?]
      cases found : m.world.handle? h with
      | none => exact abreast.unusable v
      | some handle =>
          rw [Option.bind_some, Option.bind_some]
          unfold World.nativeFunc?
          rw [abreast.near.world.ofHandle abreast.left.world abreast.right.world found]
          split
          · exact abreast.finish _
          · exact abreast.unusable v
  · exact abreast.unusable v

theorem newTyped (abreast : Abreast δ m₀ n₀ [] m n) (g : Guard) (name v : VarName)
    (sig : TypedSignature) : Finished δ (m.newTyped g name v sig) (n.newTyped g name v sig) := by
  unfold Machine.newTyped
  rw [abreast.near.lookup]
  split
  · next h type found =>
      split
      · next same =>
          obtain ⟨usable, usable'⟩ := abreast.lookup found
          have typed : m.Usable (.typedFunc h type sig) := ⟨⟨same, usable.fits⟩, usable.holds⟩
          have typed' : n.Usable (.typedFunc h type sig) := ⟨⟨same, usable'.fits⟩, usable'.holds⟩
          exact (abreast.copy typed typed' name).finish _
      · exact abreast.near.refuse g _
  · exact abreast.unusable v

/-- The function under a typed view. -/
theorem typedFunc (abreast : Abreast δ m₀ n₀ [] m n) (g : Guard) (name v : VarName) :
    Finished δ (m.perform g (.typedFunc name v)) (n.perform g (.typedFunc name v)) := by
  unfold Machine.perform
  dsimp only
  rw [abreast.near.lookup]
  split
  · next h type sig found =>
      obtain ⟨usable, usable'⟩ := abreast.lookup found
      have func : m.Usable (.func h type) := ⟨usable.fits.2, usable.holds⟩
      have func' : n.Usable (.func h type) := ⟨usable'.fits.2, usable'.holds⟩
      exact (abreast.copy func func' name).finish _
  · exact abreast.unusable v

/-! ## References and cells -/

theorem newReference {payload : Payload} (abreast : Abreast δ m₀ n₀ payload.refs m n)
    (fits : ∀ i, payload = .item i → i.Fits m.world.shapes)
    (fits' : ∀ i, payload = .item i → i.Fits n.world.shapes) (name : VarName) (label : String) :
    Finished δ (m.newReference name label payload) (n.newReference name label payload) := by
  obtain ⟨address, alike⟩ := abreast.near.world.alloc (.referent label payload) rfl rfl 1
  obtain ⟨held, item⟩ := abreast.left.allocReferent fits label
  obtain ⟨held', item'⟩ := abreast.right.allocReferent fits' label
  unfold Machine.newReference
  dsimp only
  rw [address] at held' item' ⊢
  have made : Abreast δ m₀ n₀
      ((Item.value (.externref (some (m.world.alloc (.referent label payload) 1).1))).refs ++ [])
      (m.withWorld (m.world.alloc (.referent label payload) 1).2)
      (n.withWorld (n.world.alloc (.referent label payload) 1).2) :=
    ⟨held, held', abreast.near.withWorld alike⟩
  exact (made.assign item item' name).finish _

theorem reference (abreast : Abreast δ m₀ n₀ [] m n) (name : VarName) (label : String)
    (p : PayloadLiteral) : Finished δ (m.reference name label p) (n.reference name label p) := by
  have plain (payload : Payload) (none : payload.refs = []) (noItem : ∀ i, payload ≠ .item i) :
      Finished δ (m.newReference name label payload) (n.newReference name label payload) :=
    newReference (by rw [none]; exact abreast) (fun i same => absurd same (noItem i))
      (fun i same => absurd same (noItem i)) name label
  have wrapped (v : VarName) :
      Finished δ (m.reference name label (.func v)) (n.reference name label (.func v)) := by
    unfold Machine.reference
    dsimp only
    rw [abreast.near.lookup]
    split
    · next i found =>
        obtain ⟨usable, usable'⟩ := abreast.lookup found
        have alive := abreast.left.alive usable
        have alive' := abreast.right.alive usable'
        have retained := abreast.retainAll alive alive'
        rw [List.append_nil] at retained
        refine newReference retained (fun j same => ?_) (fun j same => ?_) name label
        · cases same
          exact usable.fits.mono (World.evolves_retainAll _ alive).shapes
        · cases same
          exact usable'.fits.mono (World.evolves_retainAll _ alive').shapes
    · exact abreast.unusable v
  cases p with
  | text s => exact plain (.text s) rfl fun i same => by cases same
  | int n => exact plain (.int n) rfl fun i same => by cases same
  | unit => exact plain .unit rfl fun i same => by cases same
  | func v => exact wrapped v
  | memory v => exact wrapped v
  | store v => exact wrapped v

theorem content (abreast : Abreast δ m₀ n₀ [] m n) (s : Scalar ObjId) (type : PayloadType)
    (name : Option VarName) : Finished δ (m.content s type name) (n.content s type name) := by
  have payloads : s.ref?.bind n.world.payload? = s.ref?.bind m.world.payload? :=
    congrArg s.ref?.bind (funext abreast.near.world.payload?)
  have found' {i : Item} (found : s.ref?.bind m.world.payload? = some (.item i)) :=
    payloads.trans found
  unfold Machine.content
  dsimp only
  rw [payloads]
  split
  · exact abreast.finish _
  · exact abreast.finish _
  · exact abreast.finish _
  · exact abreast.finish _
  · exact abreast.finish _
  · exact abreast.finish _
  · next i _ _ _ found =>
      split
      · split
        · next name =>
            obtain ⟨r, -, payload⟩ := Option.bind_eq_some_iff.mp found
            obtain ⟨r', -, payload'⟩ := Option.bind_eq_some_iff.mp (found' found)
            obtain ⟨fits, alive⟩ := abreast.left.content_item payload
            obtain ⟨fits', alive'⟩ := abreast.right.content_item payload'
            exact (abreast.assignCopy fits fits' alive alive' name).finish _
        · exact abreast.finish _
      · exact abreast.finish _
  · exact abreast.finish _

theorem putCell (abreast : Abreast δ m₀ n₀ [] m n) {c : ObjId} {old new : Option Item}
    (found : m.world.object? c = some (.cell old)) (found' : n.world.object? c = some (.cell old))
    (usable : ∀ i, new = some i → m.Usable i) (usable' : ∀ i, new = some i → n.Usable i) :
    Finished δ (m.putCell c old new) (n.putCell c old new) := by
  obtain ⟨exchanged, -⟩ := abreast.left.setCell found usable
  obtain ⟨exchanged', -⟩ := abreast.right.setCell found' usable'
  have retained := World.Alike.retainAll (new.toList.flatMap Item.refs) abreast.near.world
  have set := retained.setObject c (.cell new) (fun e known => ?_) rfl
  · exact (abreast.near.withWorld (set.releaseAll _ exchanged exchanged')).finish _
  · obtain ⟨k, entry, -⟩ := World.object?_eq_some.mp (Busy.object?_retainAll _ found)
    cases known.symm.trans entry
    rfl

theorem newCell (abreast : Abreast δ m₀ n₀ [] m n) (name : VarName) :
    Finished δ
      (((m.withWorld (m.world.alloc (.cell none) 1).2).assign name
        (.cell (m.world.alloc (.cell none) 1).1)).finish .ok)
      (((n.withWorld (n.world.alloc (.cell none) 1).2).assign name
        (.cell (n.world.alloc (.cell none) 1).1)).finish .ok) := by
  obtain ⟨address, alike⟩ := abreast.near.world.alloc (.cell none) rfl rfl 1
  have made := abreast.left.allocCell
  have made' := abreast.right.allocCell
  rw [address] at made' ⊢
  exact (abreast.yields made made' alike name).finish _

/-- A copy of what a variable holds is put into a cell. -/
theorem put (abreast : Abreast δ m₀ n₀ [] m n) (g : Guard) (c v : VarName) :
    Finished δ (m.perform g (.put c v)) (n.perform g (.put c v)) := by
  refine abreast.withCell (fun _ _ finished => finished) fun c old found found' => ?_
  rw [abreast.near.lookup]
  split
  · next i named =>
      obtain ⟨usable, usable'⟩ := abreast.lookup named
      refine abreast.putCell found found' (fun j same => ?_) (fun j same => ?_)
      · cases same
        exact usable
      · cases same
        exact usable'
  · exact abreast.unusable v

/-- A copy of what a cell holds is put into a variable. -/
theorem get (abreast : Abreast δ m₀ n₀ [] m n) (g : Guard) (name c : VarName) :
    Finished δ (m.perform g (.get name c)) (n.perform g (.get name c)) := by
  refine abreast.withCell (fun _ _ finished => finished) fun c content found found' => ?_
  cases content with
  | none => exact abreast.finish _
  | some i =>
      obtain ⟨fits, alive⟩ := abreast.left.cell_item found
      obtain ⟨fits', alive'⟩ := abreast.right.cell_item found'
      exact (abreast.assignCopy fits fits' alive alive' name).finish _

/-! ## Values -/

/-- A value without a reference needs nothing. -/
theorem assignPlain (abreast : Abreast δ m₀ n₀ extra m n) {s : Scalar ObjId} (plain : s.ref? = none)
    (name : VarName) :
    Abreast δ m₀ n₀ extra (m.assign name (.value s)) (n.assign name (.value s)) := by
  have none : (Item.value s).refs = [] := by simp [Item.refs, plain]
  have held : Abreast δ m₀ n₀ ((Item.value s).refs ++ extra) m n := by
    rw [none]
    exact abreast
  have fits (Γ : Shapes) : Item.Fits Γ (.value s) := fun r same => by
    rw [plain] at same
    cases same
  exact held.assign (fits _) (fits _) name

theorem arithmetic (abreast : Abreast δ m₀ n₀ [] m n) (name : VarName) (f : Int → Int → Int)
    (a b : Operand) : Finished δ (m.arithmetic name f a b) (n.arithmetic name f a b) := by
  refine abreast.withOperand (fun _ _ finished => finished) fun x _ _ => ?_
  refine abreast.withOperand (fun _ _ finished => finished) fun y _ _ => ?_
  split
  · next s combined =>
      have plain : s.ref? = none := by
        simp only [Scalar.combine?, Option.bind_eq_bind, Option.bind_eq_some_iff] at combined
        obtain ⟨i, -, j, -, made⟩ := combined
        cases type : x.type <;> rw [type] at made <;> cases made <;> rfl
      rw [abreast.near.world.shown]
      exact (abreast.assignPlain plain name).finish _
  · exact abreast.unusable name

theorem set (abreast : Abreast δ m₀ n₀ [] m n) (g : Guard) (name : VarName) (o : Operand) :
    Finished δ (m.perform g (.set name o)) (n.perform g (.set name o)) := by
  refine abreast.withOperand (fun _ _ finished => finished) fun s usable usable' => ?_
  dsimp only
  rw [abreast.near.world.shown]
  exact (abreast.copy usable usable' name).finish _

/-- References to host values are counted as often in both runs. -/
theorem strong (abreast : Abreast δ m₀ n₀ [] m n) (g : Guard) (o : Operand) :
    Finished δ (m.perform g (.strong o)) (n.perform g (.strong o)) := by
  refine abreast.withOperand (fun _ _ finished => finished) fun s usable _ => ?_
  cases carried : s.ref? with
  | none => exact abreast.finish _
  | some r =>
      dsimp only
      rw [abreast.near.world.strong (.inr fun e known => ?_)]
      · exact abreast.finish _
      · obtain ⟨label, payload, shape⟩ : m.world.shapes.IsReferent r := usable.fits r carried
        obtain ⟨e', known', same⟩ := World.shapes_object?.mp shape
        cases known.symm.trans known'
        obtain ⟨k, o⟩ := e
        cases o <;> simp [Object.shape] at same
        rfl

/-! ## The caller -/

theorem callerDepth (abreast : Abreast δ m₀ n₀ [] m n) (same : SameCaller m n) (name : Option VarName) :
    Finished δ (m.callerDepth name) (n.callerDepth name) := by
  have callers := abreast.near.caller? same
  unfold Machine.callerDepth
  generalize m.caller? = here at callers
  generalize n.caller? = there at callers
  cases callers with
  | none => exact abreast.finish _
  | some told =>
      dsimp only
      rw [told.1]
      split
      · exact (abreast.assignPlain rfl _).finish _
      · exact abreast.finish _

theorem callerStore (abreast : Abreast δ m₀ n₀ [] m n) (same : SameCaller m n) (g : Guard)
    (name : VarName) : Finished δ (m.perform g (.callerStore name)) (n.perform g (.callerStore name)) := by
  have callers := abreast.near.caller? same
  have item {m₀ m : Machine} (busy : Busy m₀ [] m) {a : Activation} (found : m.caller? = some a) :
      Item.Fits m.world.shapes (.store a.store) ∧
        ∀ id ∈ (Item.store a.store).refs, m.world.strong id ≠ 0 := by
    have context := busy.caller found
    refine ⟨⟨_, (busy.running a context).store⟩, fun id mem => ?_⟩
    cases List.mem_singleton.mp mem
    refine busy.world.alive (List.mem_append_right [] ?_)
    unfold owns
    rw [context]
    simp [Context.refs]
  unfold Machine.perform
  dsimp only
  cases here : m.caller? with
  | none =>
      cases there : n.caller? with
      | none => exact abreast.finish _
      | some b =>
          rw [here, there] at callers
          cases callers
  | some a =>
      cases there : n.caller? with
      | none =>
          rw [here, there] at callers
          cases callers
      | some b =>
          rw [here, there] at callers
          cases callers with
          | some told =>
              obtain ⟨fits, alive⟩ := item abreast.left here
              obtain ⟨fits', alive'⟩ := item abreast.right there
              dsimp only
              rw [told.2] at fits' alive' ⊢
              exact (abreast.assignCopy fits fits' alive alive' name).finish _

theorem callerDebug (abreast : Abreast δ m₀ n₀ [] m n) (same : SameCaller m n) (g : Guard) :
    Finished δ (m.perform g .callerDebug) (n.perform g .callerDebug) := by
  have callers := abreast.near.caller? same
  unfold Machine.perform
  dsimp only
  generalize m.caller? = here at callers
  generalize n.caller? = there at callers
  cases callers with
  | none => exact abreast.finish _
  | some told =>
      dsimp only
      rw [told.1]
      exact abreast.finish _

theorem giveBack (abreast : Abreast δ m₀ n₀ [] m n) (g : Guard) (os : List Operand) :
    Finished δ (m.perform g (.giveBack os)) (n.perform g (.giveBack os)) := by
  refine abreast.withOperands (fun _ _ finished => finished) fun ss _ _ => ?_
  exact (abreast.near.withWorld (World.Alike.retainAll _ abreast.near.world)).complete _

/-- The diagnostic form of what a variable holds. -/
theorem debug (abreast : Abreast δ m₀ n₀ [] m n) (g : Guard) (v : VarName) :
    Concludes δ (.plain (.debug v)) (m.perform g (.debug v)) (n.perform g (.debug v)) := by
  unfold Machine.perform
  dsimp only
  rw [abreast.near.lookup]
  cases found : m.lookup v with
  | none => exact (abreast.unusable v).concludes _
  | some item =>
      rw [Option.bind_some, Option.bind_some]
      have shows := abreast.near.world.debug? abreast.left.world abreast.right.world item
      generalize m.world.debug? item = here at shows
      generalize n.world.debug? item = there at shows
      cases shows with
      | none => exact (abreast.unusable v).concludes _
      | same alike => exact ((abreast.near.withWorld alike).finish _).concludes _
      | queued among alike =>
          exact ⟨(abreast.near.withWorld alike).withControl _ _, _, _, rfl, rfl,
            .reports among (.debug v _ _ _)⟩

/-! ## All actions -/

/-- Every public action ends alike in both machines. -/
theorem perform (abreast : Abreast δ m₀ n₀ [] m n) (g : Guard) {a : Action} (isPublic : a.isPublic = true)
    (callers : a.asksCaller = true → SameCaller m n) :
    Concludes δ (.plain a) (m.perform g a) (n.perform g a) := by
  have self : ∀ m' n', Finished δ m' n' → Finished δ m' n' := fun _ _ finished => finished
  have all : ∀ m' n', Finished δ m' n' → Concludes δ (.plain a) m' n' :=
    fun _ _ finished => finished.concludes _
  cases a with
  | engine name pages depth =>
      exact all _ _ (((abreast.createEngine _).assignEngine _ name).finish _)
  | store name engine => exact all _ _ (abreast.newStore name engine)
  | flush v =>
      refine abreast.withStore all fun s usable usable' => ?_
      have flushed := abreast.flush usable usable'
      rcases eq_or_ne δ .flushes with rfl | among
      · exact ⟨flushed.near.withControl _ _, _, _, rfl, rfl, .reports rfl (.flush v _ _)⟩
      · dsimp only
        have released : (n.world.flush s).lastFlush = (m.world.flush s).lastFlush :=
          flushed.near.world.lastFlush among
        rw [released]
        exact all _ _ (flushed.finish _)
  | pending v =>
      refine abreast.withStore all fun s _ _ => ?_
      rcases eq_or_ne δ .flushes with rfl | among
      · exact ⟨abreast.near.withControl _ _, _, _, rfl, rfl, .reports rfl (.pending v _ _)⟩
      · rw [abreast.near.world.pending among]
        exact all _ _ (abreast.finish _)
  | sameStore a b =>
      exact all _ _ (abreast.withStore self fun s _ _ => abreast.withStore self fun t _ _ => abreast.finish _)
  | storeOf name v =>
      exact all _ _ (abreast.withHandle self fun _ _ _ _ _ _ found found' => abreast.storeOf found found' name)
  | engineOf name v =>
      refine all _ _ (abreast.withStore self fun s _ _ => ?_)
      rw [abreast.near.world.storeConfig]
      exact (abreast.assignEngine _ name).finish _
  | interruptHandle name v =>
      exact all _ _ (abreast.withStore self fun s usable usable' =>
        abreast.interruptHandle usable usable' name)
  | interrupt v =>
      refine all _ _ (abreast.withHandle self fun _ _ h _ _ _ found _ => ?_)
      exact (abreast.near.withWorld
        (abreast.near.world.interrupt abreast.left.world abreast.right.world found)).finish _
  | memory name v type => exact all _ _ (abreast.newMemory g name v type)
  | memoryType v => exact all _ _ (abreast.withMemory self fun _ _ => abreast.finish _)
  | size v => exact all _ _ (abreast.withMemory self fun _ _ => abreast.finish _)
  | dataSize v => exact all _ _ (abreast.withMemory self fun _ _ => abreast.finish _)
  | grow v delta => exact all _ _ (abreast.withMemory self fun id mem => abreast.grow id mem delta)
  | read v offset len =>
      refine all _ _ (abreast.withMemory self fun _ mem => ?_)
      split
      · exact abreast.finish _
      · exact abreast.near.refuse g _
  | write v offset bytes times =>
      exact all _ _ (abreast.withMemory self fun id mem => abreast.writeMemory g id mem offset _)
  | poke v address value => exact all _ _ (abreast.pokeMemory g v address value)
  | data v => exact all _ _ (abreast.withMemory self fun _ _ => abreast.finish _)
  | sameData a b =>
      exact all _ _ (abreast.withMemory self fun _ _ => abreast.withMemory self fun _ _ => abreast.finish _)
  | asExtern name v => exact all _ _ (abreast.newExtern name v)
  | externKind v => exact all _ _ (abreast.externKind v)
  | intoFunc name v => exact all _ _ (abreast.externToFunc name v)
  | intoMemory name v => exact all _ _ (abreast.externToMemory name v)
  | clone name v =>
      refine all _ _ ?_
      unfold Machine.perform
      dsimp only
      rw [abreast.near.lookup]
      split
      · next i found =>
          obtain ⟨usable, usable'⟩ := abreast.lookup found
          exact (abreast.copy usable usable' name).finish _
      · exact abreast.unusable v
  | drop v =>
      obtain ⟨existed, near⟩ := abreast.erase v
      refine all _ _ ?_
      unfold Machine.perform
      dsimp only
      rw [existed]
      exact near.finish _
  | cell name => exact all _ _ (abreast.newCell name)
  | put c v => exact all _ _ (abreast.put g c v)
  | get name c => exact all _ _ (abreast.get g name c)
  | take c =>
      exact all _ _ (abreast.withCell self fun c old found found' =>
        abreast.putCell found found' (fun i same => nomatch same) fun i same => nomatch same)
  | debug v => exact abreast.debug g v
  | funcType v => exact all _ _ (abreast.showFuncType v)
  | typed name v sig => exact all _ _ (abreast.newTyped g name v sig)
  | typedFunc name v => exact all _ _ (abreast.typedFunc g name v)
  | reference name label payload => exact all _ _ (abreast.reference name label payload)
  | set name o => exact all _ _ (abreast.set g name o)
  | strong o => exact all _ _ (abreast.strong g o)
  | sameReference a b =>
      exact all _ _ (abreast.withOperand self fun _ _ _ => abreast.withOperand self fun _ _ _ => abreast.finish _)
  | equalValues a b =>
      exact all _ _ (abreast.withOperand self fun _ _ _ => abreast.withOperand self fun _ _ _ => abreast.finish _)
  | content o type name => exact all _ _ (abreast.withOperand self fun s _ _ => abreast.content s type name)
  | accessors o =>
      refine all _ _ (abreast.withOperand self fun s _ _ => ?_)
      rw [funext abreast.near.world.label]
      exact abreast.finish _
  | expectKind o kind =>
      refine all _ _ (abreast.withOperand self fun s _ _ => ?_)
      rw [abreast.near.world.shown]
      split
      · exact abreast.finish _
      · exact abreast.near.complete _
  | zeroOf kind => exact all _ _ (abreast.finish _)
  | describeFuncType type => exact all _ _ (abreast.finish _)
  | equalFuncTypes a b => exact all _ _ (abreast.finish _)
  | describeMemoryType type => exact all _ _ (abreast.finish _)
  | describeTrap message => exact all _ _ (abreast.finish _)
  | configure settings => exact all _ _ (abreast.finish _)
  | defaults => exact all _ _ (abreast.finish _)
  | typedKinds sig => exact all _ _ (abreast.finish _)
  | decodeValues sig side os =>
      refine all _ _ (abreast.withOperands self fun ss _ _ => ?_)
      dsimp only
      rw [funext abreast.near.world.shown]
      split
      · exact abreast.finish _
      · exact abreast.near.complete _
  | encodeValues sig side os =>
      refine all _ _ (abreast.withOperands self fun ss _ _ => ?_)
      rw [abreast.near.world.shownVals]
      exact abreast.finish _
  | depth name => exact all _ _ (abreast.callerDepth (callers rfl) name)
  | callerStore name => exact all _ _ (abreast.callerStore (callers rfl) g name)
  | callerDebug => exact all _ _ (abreast.callerDebug (callers rfl) g)
  | giveBack os => exact all _ _ (abreast.giveBack g os)
  | trap message => exact all _ _ (abreast.near.complete _)
  | panic f => exact all _ _ (abreast.near.complete _)
  | add name a b => exact all _ _ (abreast.arithmetic name _ a b)
  | subtract name a b => exact all _ _ (abreast.arithmetic name _ a b)
  | rawPointer name v => cases isPublic

end Abreast

end Machine

end HostEmbedding
