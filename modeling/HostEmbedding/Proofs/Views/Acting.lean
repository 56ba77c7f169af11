import HostEmbedding.Proofs.Views.Together

/-!
# Steps that end at once beside a call

Every public action does the same in both machines: what it creates stands under the same address, and it
ends with the same answer.
-/

namespace HostEmbedding

namespace Machine

variable {d : Detour} {m n m₀ n₀ : Machine} {extra : List ObjId} {item : Item} {v : VarName}

namespace Paired

theorem finish (paired : Paired d m₀ n₀ extra m n) (a : Answer) : Together d (m.finish a) (n.finish a) :=
  paired.together.finish a

theorem unusable (paired : Paired d m₀ n₀ extra m n) (v : VarName) : Together d (m.unusable v) (n.unusable v) :=
  paired.together.unusable v

theorem holds (paired : Paired d m₀ n₀ extra m n) :
    d.view.handle ∈ extra ++ m.owns ∧ d.view.owner ∈ extra ++ n.owns :=
  paired.together.keeps paired.keeps.mono

/-! ## Stores and memories -/

theorem createEngine (paired : Paired d m₀ n₀ extra m n) (config : Config) :
    Paired d m₀ n₀ extra (m.withWorld (m.world.createEngine config))
      (n.withWorld (n.world.createEngine config)) := by
  obtain ⟨gone, beside⟩ := paired.together.world
  exact paired.withWorld (paired.left.same (World.same_log _ _)) (paired.right.same (World.same_log _ _))
    (beside.log _)

theorem createStore (paired : Paired d m₀ n₀ [] m n) (name : VarName) (config : Config) :
    Together d
      (((m.withWorld (m.world.createStore config).2).assign name
        (.store (m.world.createStore config).1)).finish (.config config))
      (((n.withWorld (n.world.createStore config).2).assign name
        (.store (n.world.createStore config).1)).finish (.config config)) := by
  obtain ⟨gone, beside⟩ := paired.together.world
  obtain ⟨address, made⟩ := beside.createStore config
  have left := paired.left.world.createStore config
  have right := paired.right.world.createStore config
  rw [address] at right ⊢
  exact (paired.yields left right made name).finish _

theorem newStore (paired : Paired d m₀ n₀ [] m n) (name : VarName) (engine : Option VarName) :
    Together d (m.newStore name engine) (n.newStore name engine) := by
  unfold Machine.newStore
  cases engine with
  | none => exact (paired.createEngine .standard).createStore name .standard
  | some v =>
      dsimp only
      rw [paired.together.lookup]
      split
      · next config found => exact paired.createStore name config
      · exact paired.unusable v

theorem flush (paired : Paired d m₀ n₀ [] m n) {s : ObjId} (usable : m.Usable (.store s))
    (usable' : n.Usable (.store s)) :
    Paired d m₀ n₀ [] (m.withWorld (m.world.flush s)) (n.withWorld (n.world.flush s)) := by
  obtain ⟨gone, beside⟩ := paired.together.world
  obtain ⟨k, isStore⟩ := usable.fits
  obtain ⟨gone', flushed⟩ := beside.flush isStore paired.left.world paired.right.world paired.holds.1 paired.holds.2
  exact paired.withWorld (paired.left.flush usable) (paired.right.flush usable') flushed

theorem interruptHandle (paired : Paired d m₀ n₀ [] m n) {s : ObjId} (usable : m.Usable (.store s))
    (usable' : n.Usable (.store s)) (name : VarName) :
    Together d
      ((m.withWorld (m.world.createInterrupt s).2).assignNew name
        ((m.world.createInterrupt s).1.map .interrupt) .ok)
      ((n.withWorld (n.world.createInterrupt s).2).assignNew name
        ((n.world.createInterrupt s).1.map .interrupt) .ok) := by
  obtain ⟨gone, beside⟩ := paired.together.world
  obtain ⟨k, isStore⟩ := usable.fits
  obtain ⟨k', isStore'⟩ := usable'.fits
  have holds' := paired.right.holds usable' (List.mem_singleton_self s)
  obtain ⟨address, gone', made⟩ := beside.createInterrupt isStore paired.left.world paired.right.world holds'
    paired.holds.1 paired.holds.2
  obtain ⟨h, result, yields⟩ := paired.left.world.createInterrupt
    (paired.left.holds usable (List.mem_singleton_self s)) isStore
  obtain ⟨h', result', yields'⟩ := paired.right.world.createInterrupt holds' isStore'
  obtain rfl : h' = h := Option.some.inj (result'.symm.trans (address.trans result))
  rw [result, result']
  exact (paired.yields yields yields' made name).finish _

theorem newMemory (paired : Paired d m₀ n₀ [] m n) (g : Guard) (name v : VarName) (type : MemoryType) :
    Together d (m.newMemory g name v type) (n.newMemory g name v type) := by
  obtain ⟨gone, beside⟩ := paired.together.world
  refine paired.withStore fun s usable usable' => ?_
  obtain ⟨k, isStore⟩ := usable.fits
  obtain ⟨k', isStore'⟩ := usable'.fits
  have holds := paired.left.holds usable (List.mem_singleton_self s)
  have holds' := paired.right.holds usable' (List.mem_singleton_self s)
  obtain ⟨result, gone', made⟩ := beside.createMemory isStore paired.left.world paired.right.world holds'
    paired.holds.1 paired.holds.2 type
  rcases paired.left.world.createMemory holds isStore type with ⟨h, w, here, yields⟩ | ⟨e, w, here, -, -⟩ <;>
  rcases paired.right.world.createMemory holds' isStore' type with
    ⟨h', w', there, yields'⟩ | ⟨e', w', there, -, -⟩ <;>
  rw [here, there] at result made <;> cases result <;> rw [here, there]
  · exact (paired.yields yields yields' made name).finish _
  · exact (paired.together.withWorld made).refuse g _

theorem grow (paired : Paired d m₀ n₀ [] m n) (id : NativeId) (mem : LinearMemory) (delta : UInt32) :
    Together d ((m.withWorld (m.world.grow id mem delta).2).finish (.bool (m.world.grow id mem delta).1))
      ((n.withWorld (n.world.grow id mem delta).2).finish (.bool (n.world.grow id mem delta).1)) := by
  obtain ⟨gone, beside⟩ := paired.together.world
  obtain ⟨granted, grown⟩ := beside.grow id mem delta
  rw [granted]
  exact (paired.together.withWorld grown).finish _

theorem writeMemory (paired : Paired d m₀ n₀ [] m n) (g : Guard) (id : NativeId) (mem : LinearMemory)
    (offset : Nat) (data : HostEmbedding.Runs) :
    Together d (m.writeMemory g id mem offset data) (n.writeMemory g id mem offset data) := by
  obtain ⟨gone, beside⟩ := paired.together.world
  obtain ⟨result, changed⟩ := beside.write id mem offset data
  have written := paired.together.withWorld changed
  unfold Machine.writeMemory
  generalize m.world.write id mem offset data = here at result written
  generalize n.world.write id mem offset data = there at result written
  obtain ⟨r, w⟩ := here
  obtain ⟨r', w'⟩ := there
  cases result
  cases r with
  | ok done => exact written.finish _
  | error e => exact written.refuse g e

theorem pokeMemory (paired : Paired d m₀ n₀ [] m n) (g : Guard) (v : VarName) (address value : Operand) :
    Together d (m.pokeMemory g v address value) (n.pokeMemory g v address value) := by
  refine paired.withMemory fun id mem => ?_
  refine paired.withOperand fun a _ _ => ?_
  refine paired.withOperand fun s _ _ => ?_
  split
  · exact paired.writeMemory g id mem _ _
  · exact paired.unusable v

/-- The store of a live handle can be copied. -/
theorem storeOf (paired : Paired d m₀ n₀ [] m n) {id : ObjId} {h : Handle}
    (found : m.world.handle? id = some h) (found' : n.world.handle? id = some h) (name : VarName) :
    Together d ((m.assignCopy name (.store h.store)).finish .ok)
      ((n.assignCopy name (.store h.store)).finish .ok) := by
  have fits : Item.Fits m.world.shapes (.store h.store) := by
    obtain ⟨k, entry⟩ := World.isHandle_iff.mp (World.handle?_eq_some.mp found).1
    have handle : h.Fits m.world.shapes := paired.left.world.objects entry
    obtain ⟨s, isStore, -⟩ := handle.state
    exact ⟨s, isStore⟩
  have alive {m₀ m : Machine} (busy : Busy m₀ [] m) (found : m.world.handle? id = some h) :
      ∀ x ∈ (Item.store h.store).refs, m.world.strong x ≠ 0 := fun x mem => by
    cases List.mem_singleton.mp mem
    exact (busy.world.keeps_alive found).1
  exact (paired.assignCopy fits (alive paired.left found) (alive paired.right found') name).finish _

/-! ## Views -/

theorem newExtern (paired : Paired d m₀ n₀ [] m n) (name v : VarName) :
    Together d (m.newExtern name v) (n.newExtern name v) := by
  obtain ⟨gone, beside⟩ := paired.together.world
  refine paired.withHandle fun item id h _ _ _ found found' => ?_
  obtain ⟨address, made⟩ := beside.asExtern paired.right.world found'
  have left := paired.left.world.asExtern found
  have right := paired.right.world.asExtern found'
  dsimp only
  rw [address] at right ⊢
  exact (paired.yields left right made name).finish _

theorem externToFunc (paired : Paired d m₀ n₀ [] m n) (name v : VarName) :
    Together d (m.externToFunc name v) (n.externToFunc name v) := by
  obtain ⟨gone, beside⟩ := paired.together.world
  refine paired.withHandle fun item id h _ _ _ found found' => ?_
  have views := beside.intoFunc? paired.right.world found'
  cases here : m.world.intoFunc? id h with
  | none =>
      cases there : n.world.intoFunc? id h with
      | none => exact paired.finish _
      | some r =>
          rw [here, there] at views
          cases views
  | some r =>
      cases there : n.world.intoFunc? id h with
      | none =>
          rw [here, there] at views
          cases views
      | some r' =>
          rw [here, there] at views
          obtain ⟨f, type, w⟩ := r
          obtain ⟨f', type', w'⟩ := r'
          cases views with
          | some same =>
              obtain ⟨address, typed, made⟩ := same
              dsimp only at address typed
              subst address typed
              exact (paired.yields (paired.left.world.intoFunc? found here)
                (paired.right.world.intoFunc? found' there) made name).finish _

theorem externToMemory (paired : Paired d m₀ n₀ [] m n) (name v : VarName) :
    Together d (m.externToMemory name v) (n.externToMemory name v) := by
  obtain ⟨gone, beside⟩ := paired.together.world
  refine paired.withHandle fun item id h _ _ _ found found' => ?_
  have views := beside.intoMemory? paired.right.world found'
  cases here : m.world.intoMemory? id h with
  | none =>
      cases there : n.world.intoMemory? id h with
      | none => exact paired.finish _
      | some r =>
          rw [here, there] at views
          cases views
  | some r =>
      cases there : n.world.intoMemory? id h with
      | none =>
          rw [here, there] at views
          cases views
      | some r' =>
          rw [here, there] at views
          obtain ⟨x, w⟩ := r
          obtain ⟨x', w'⟩ := r'
          cases views with
          | some same =>
              obtain ⟨address, made⟩ := same
              dsimp only at address
              subst address
              exact (paired.yields (paired.left.world.intoMemory? found here)
                (paired.right.world.intoMemory? found' there) made name).finish _

theorem externKind (paired : Paired d m₀ n₀ [] m n) (v : VarName) :
    Together d
      (m.withHandle v fun _ _ h =>
        match m.world.externKind? h.native with
        | some k => m.finish (.text k.name)
        | none => m.unusable v)
      (n.withHandle v fun _ _ h =>
        match n.world.externKind? h.native with
        | some k => n.finish (.text k.name)
        | none => n.unusable v) := by
  obtain ⟨gone, beside⟩ := paired.together.world
  refine paired.withHandle fun item id h _ _ _ _ _ => ?_
  rw [beside.externKind?_eq]
  split
  · exact paired.finish _
  · exact paired.unusable v

/-! ## Functions -/

/-- A closure is registered under the same address. -/
theorem newFunc (paired : Paired d m₀ n₀ [] m n) (name v : VarName) {code : HostCode}
    (body : Block.isPublic code.body = true) (names : List VarName) :
    Together d (m.newFunc name v code names) (n.newFunc name v code names) := by
  refine paired.withStore fun s usable usable' => ?_
  rw [paired.together.lookup]
  split
  · exact paired.unusable v
  · next captures found =>
      have captured := paired.left.captured found
      have captured' := paired.right.captured (by rw [paired.together.lookup]; exact found)
      have alive {m₀ m : Machine} (busy : Busy m₀ [] m) (captured : ∀ p ∈ captures, m.Usable p.2) :
          ∀ id ∈ Scope.refs captures, m.world.strong id ≠ 0 := fun id mem => by
        obtain ⟨p, held, mem⟩ := List.mem_flatMap.mp mem
        exact busy.alive (captured p held) id mem
      have counted := paired.retainAll (alive paired.left captured) (alive paired.right captured')
      obtain ⟨gone, beside⟩ := counted.together.world
      have registers {m₀ m : Machine} (busy : Busy m₀ [] m) (captured : ∀ p ∈ captures, m.Usable p.2)
          (usable : m.Usable (.store s)) : (m.world.retainAll (Scope.refs captures)).shapes.Holds m.owns s ∧
            ∃ k h, (m.world.retainAll (Scope.refs captures)).shapes.IsStore s k ∧
              ((m.world.retainAll (Scope.refs captures)).register s code captures).1 = some h ∧
              World.Yields m.world ([] ++ m.owns)
                ((m.world.retainAll (Scope.refs captures)).register s code captures).2
                (.func h code.shape.funcType) := by
        obtain ⟨k, isStore⟩ := usable.fits
        have evolves := World.evolves_retainAll (Scope.refs captures) (alive busy captured)
        have holds := (busy.holds usable (List.mem_singleton_self s)).mono evolves.shapes fun _ mem => mem
        obtain ⟨h, result, yields⟩ := (busy.world.retainAll (Scope.refs captures) (alive busy captured)).register
          holds (isStore.mono evolves.shapes) body fun p held => (captured p held).fits.mono evolves.shapes
        exact ⟨holds, k, h, isStore.mono evolves.shapes, result, yields.sound, evolves.trans yields.evolves,
          yields.fits⟩
      obtain ⟨-, k, h, isStore, made, yields⟩ := registers paired.left captured usable
      obtain ⟨holds', -, h', -, made', yields'⟩ := registers paired.right captured' usable'
      obtain ⟨address, gone', registered⟩ := beside.register code captures isStore
        counted.left.world counted.right.world
        (holds'.mono (.refl _) fun _ mem => List.mem_append_right _ mem) counted.holds.1 counted.holds.2
      obtain rfl : h' = h := Option.some.inj (made'.symm.trans (address.trans made))
      have assigned := paired.yields yields yields' registered name
      generalize (m.world.retainAll (Scope.refs captures)).register s code captures = here at made assigned ⊢
      generalize (n.world.retainAll (Scope.refs captures)).register s code captures = there at made' assigned ⊢
      obtain ⟨r, w⟩ := here
      obtain ⟨r', w'⟩ := there
      cases made
      cases made'
      exact assigned.finish _

theorem showFuncType (paired : Paired d m₀ n₀ [] m n) (v : VarName) :
    Together d (m.showFuncType v) (n.showFuncType v) := by
  obtain ⟨gone, beside⟩ := paired.together.world
  unfold Machine.showFuncType
  rw [paired.together.lookup]
  split
  · next h type found =>
      have alive := paired.right.alive (paired.lookup found).2 h List.mem_cons_self
      rw [beside.handle?_of_alive alive, beside.nativeFunc?_eq]
      split
      · exact paired.finish _
      · exact paired.unusable v
  · exact paired.unusable v

theorem newTyped (paired : Paired d m₀ n₀ [] m n) (g : Guard) (name v : VarName)
    (sig : TypedSignature) : Together d (m.newTyped g name v sig) (n.newTyped g name v sig) := by
  unfold Machine.newTyped
  rw [paired.together.lookup]
  split
  · next h type found =>
      split
      · next same =>
          obtain ⟨usable, usable'⟩ := paired.lookup found
          have typed : m.Usable (.typedFunc h type sig) := ⟨⟨same, usable.fits⟩, usable.holds⟩
          have typed' : n.Usable (.typedFunc h type sig) := ⟨⟨same, usable'.fits⟩, usable'.holds⟩
          exact (paired.copy typed typed' name).finish _
      · exact paired.together.refuse g _
  · exact paired.unusable v

/-- The function under a typed view. -/
theorem typedFunc (paired : Paired d m₀ n₀ [] m n) (g : Guard) (name v : VarName) :
    Together d (m.perform g (.typedFunc name v)) (n.perform g (.typedFunc name v)) := by
  unfold Machine.perform
  dsimp only
  rw [paired.together.lookup]
  split
  · next h type sig found =>
      obtain ⟨usable, usable'⟩ := paired.lookup found
      have func : m.Usable (.func h type) := ⟨usable.fits.2, usable.holds⟩
      have func' : n.Usable (.func h type) := ⟨usable'.fits.2, usable'.holds⟩
      exact (paired.copy func func' name).finish _
  · exact paired.unusable v

/-! ## References and cells -/

theorem newReference {payload : Payload} (paired : Paired d m₀ n₀ payload.refs m n)
    (fits : ∀ i, payload = .item i → i.Fits m.world.shapes) (name : VarName) (label : String) :
    Together d (m.newReference name label payload) (n.newReference name label payload) := by
  obtain ⟨gone, beside⟩ := paired.together.world
  obtain ⟨address, made⟩ := beside.alloc (.referent label payload) 1
  obtain ⟨held, item⟩ := paired.left.allocReferent fits label
  obtain ⟨held', item'⟩ := paired.right.allocReferent (fun i same => paired.fits (fits i same)) label
  unfold Machine.newReference
  dsimp only
  rw [address] at held' item' ⊢
  have stored : Paired d m₀ n₀
      ((Item.value (.externref (some (m.world.alloc (.referent label payload) 1).1))).refs ++ [])
      (m.withWorld (m.world.alloc (.referent label payload) 1).2)
      (n.withWorld (n.world.alloc (.referent label payload) 1).2) :=
    paired.withWorld held held' made
  exact (stored.assign item name).finish _

theorem reference (paired : Paired d m₀ n₀ [] m n) (name : VarName) (label : String)
    (p : PayloadLiteral) : Together d (m.reference name label p) (n.reference name label p) := by
  have plain (payload : Payload) (none : payload.refs = []) (noItem : ∀ i, payload ≠ .item i) :
      Together d (m.newReference name label payload) (n.newReference name label payload) :=
    newReference (by rw [none]; exact paired) (fun i same => absurd same (noItem i)) name label
  have wrapped (v : VarName) :
      Together d (m.reference name label (.func v)) (n.reference name label (.func v)) := by
    unfold Machine.reference
    dsimp only
    rw [paired.together.lookup]
    split
    · next i found =>
        obtain ⟨usable, usable'⟩ := paired.lookup found
        have alive := paired.left.alive usable
        have alive' := paired.right.alive usable'
        have retained := paired.retainAll alive alive'
        rw [List.append_nil] at retained
        refine newReference retained (fun j same => ?_) name label
        cases same
        exact usable.fits.mono (World.evolves_retainAll _ alive).shapes
    · exact paired.unusable v
  cases p with
  | text s => exact plain (.text s) rfl fun i same => by cases same
  | int n => exact plain (.int n) rfl fun i same => by cases same
  | unit => exact plain .unit rfl fun i same => by cases same
  | func v => exact wrapped v
  | memory v => exact wrapped v
  | store v => exact wrapped v

theorem content (paired : Paired d m₀ n₀ [] m n) (s : Scalar ObjId) (type : PayloadType)
    (name : Option VarName) : Together d (m.content s type name) (n.content s type name) := by
  obtain ⟨gone, beside⟩ := paired.together.world
  have payloads : n.world.payload? = m.world.payload? := funext beside.payload?_eq
  unfold Machine.content
  dsimp only
  rw [payloads]
  split
  · exact paired.finish _
  · exact paired.finish _
  · exact paired.finish _
  · exact paired.finish _
  · exact paired.finish _
  · exact paired.finish _
  · next i _ _ _ found =>
      split
      · split
        · next name =>
            obtain ⟨r, -, payload⟩ := Option.bind_eq_some_iff.mp found
            obtain ⟨fits, alive⟩ := paired.left.content_item payload
            obtain ⟨-, alive'⟩ := paired.right.content_item (by rw [payloads]; exact payload)
            exact (paired.assignCopy fits alive alive' name).finish _
        · exact paired.finish _
      · exact paired.finish _
  · exact paired.finish _

theorem putCell (paired : Paired d m₀ n₀ [] m n) {c : ObjId} {old new : Option Item}
    (found : m.world.object? c = some (.cell old)) (found' : n.world.object? c = some (.cell old))
    (usable : ∀ i, new = some i → m.Usable i) (usable' : ∀ i, new = some i → n.Usable i) :
    Together d (m.putCell c old new) (n.putCell c old new) := by
  obtain ⟨gone, beside⟩ := paired.together.world
  obtain ⟨exchanged, -⟩ := paired.left.setCell found usable
  obtain ⟨exchanged', -⟩ := paired.right.setCell found' usable'
  have alive' : ∀ id ∈ new.toList.flatMap Item.refs, n.world.strong id ≠ 0 := fun id mem => by
    obtain ⟨i, held, mem⟩ := List.mem_flatMap.mp mem
    exact paired.right.alive (usable' i (Option.mem_toList.mp held)) id mem
  have retained := World.Beside.retainAll (new.toList.flatMap Item.refs) beside alive'
  have set := retained.setObject (Busy.object?_retainAll _ found)
    (show (Object.cell new).shape = (Object.cell old).shape from rfl)
  exact ((paired.together.withWorld set).releaseAll paired.keeps _ (show World.Sound _ (_ ++ ([] ++ m.owns)) from exchanged)
    (show World.Sound _ (_ ++ ([] ++ n.owns)) from exchanged')).finish _

theorem newCell (paired : Paired d m₀ n₀ [] m n) (name : VarName) :
    Together d
      (((m.withWorld (m.world.alloc (.cell none) 1).2).assign name
        (.cell (m.world.alloc (.cell none) 1).1)).finish .ok)
      (((n.withWorld (n.world.alloc (.cell none) 1).2).assign name
        (.cell (n.world.alloc (.cell none) 1).1)).finish .ok) := by
  obtain ⟨gone, beside⟩ := paired.together.world
  obtain ⟨address, made⟩ := beside.alloc (.cell none) 1
  have left := paired.left.allocCell
  have right := paired.right.allocCell
  rw [address] at right ⊢
  exact (paired.yields left right made name).finish _

/-- A copy of what a variable holds is put into a cell. -/
theorem put (paired : Paired d m₀ n₀ [] m n) (g : Guard) (c v : VarName) :
    Together d (m.perform g (.put c v)) (n.perform g (.put c v)) := by
  refine paired.withCell fun c old found found' => ?_
  rw [paired.together.lookup]
  split
  · next i named =>
      obtain ⟨usable, usable'⟩ := paired.lookup named
      refine paired.putCell found found' (fun j same => ?_) (fun j same => ?_)
      · cases same
        exact usable
      · cases same
        exact usable'
  · exact paired.unusable v

/-- A copy of what a cell holds is put into a variable. -/
theorem get (paired : Paired d m₀ n₀ [] m n) (g : Guard) (name c : VarName) :
    Together d (m.perform g (.get name c)) (n.perform g (.get name c)) := by
  refine paired.withCell fun c content found found' => ?_
  cases content with
  | none => exact paired.finish _
  | some i =>
      obtain ⟨fits, alive⟩ := paired.left.cell_item found
      obtain ⟨-, alive'⟩ := paired.right.cell_item found'
      exact (paired.assignCopy fits alive alive' name).finish _

/-! ## Values -/

theorem arithmetic (paired : Paired d m₀ n₀ [] m n) (name : VarName) (f : Int → Int → Int)
    (a b : Operand) : Together d (m.arithmetic name f a b) (n.arithmetic name f a b) := by
  refine paired.withOperand fun x _ _ => ?_
  refine paired.withOperand fun y _ _ => ?_
  split
  · next s combined =>
      have plain : s.ref? = none := by
        simp only [Scalar.combine?, Option.bind_eq_bind, Option.bind_eq_some_iff] at combined
        obtain ⟨i, -, j, -, made⟩ := combined
        cases type : x.type <;> rw [type] at made <;> cases made <;> rfl
      rw [paired.together.shown]
      have fits (Γ : Shapes) : Item.Fits Γ (.value s) := fun r carried => by
        rw [plain] at carried
        cases carried
      exact (paired.assignPlain (.value s) (by simp [Item.refs, plain]) fits name).finish _
  · exact paired.unusable name

/-- References to host values are counted as often in both machines. -/
theorem strong (paired : Paired d m₀ n₀ [] m n) (g : Guard) (o : Operand) :
    Together d (m.perform g (.strong o)) (n.perform g (.strong o)) := by
  obtain ⟨gone, beside⟩ := paired.together.world
  refine paired.withOperand fun s usable _ => ?_
  cases carried : s.ref? with
  | none => exact paired.finish _
  | some r =>
      dsimp only
      rw [beside.strong_referent paired.left.world.toBalanced (usable.fits r carried)]
      exact paired.finish _

/-! ## The caller -/

theorem callerDepth (paired : Paired d m₀ n₀ [] m n) (name : Option VarName) :
    Together d (m.callerDepth name) (n.callerDepth name) := by
  unfold Machine.callerDepth
  rw [paired.together.caller?]
  split
  · exact paired.finish _
  · next a _ =>
      split
      · exact (paired.assignPlain (.value (.i32 a.depth.toInt32)) rfl (fun _ _ carried => nomatch carried) _).finish _
      · exact paired.finish _

theorem callerStore (paired : Paired d m₀ n₀ [] m n) (g : Guard) (name : VarName) :
    Together d (m.perform g (.callerStore name)) (n.perform g (.callerStore name)) := by
  have item {m₀ m : Machine} (busy : Busy m₀ [] m) {a : Activation} (found : m.caller? = some a) :
      Item.Fits m.world.shapes (.store a.store) ∧
        ∀ id ∈ (Item.store a.store).refs, m.world.strong id ≠ 0 := by
    have context := busy.caller found
    refine ⟨⟨_, (busy.running a context).store⟩, fun id mem => ?_⟩
    cases List.mem_singleton.mp mem
    refine busy.world.alive (List.mem_append_right [] ?_)
    unfold owns
    rw [context]
    simp [Context.refs]
  unfold Machine.perform
  dsimp only
  rw [paired.together.caller?]
  split
  · next a found =>
      obtain ⟨fits, alive⟩ := item paired.left found
      obtain ⟨-, alive'⟩ := item paired.right (by rw [paired.together.caller?]; exact found)
      exact (paired.assignCopy fits alive alive' name).finish _
  · exact paired.finish _

theorem giveBack (paired : Paired d m₀ n₀ [] m n) (g : Guard) (os : List Operand) :
    Together d (m.perform g (.giveBack os)) (n.perform g (.giveBack os)) := by
  obtain ⟨gone, beside⟩ := paired.together.world
  refine paired.withOperands fun ss _ usable' => ?_
  have alive : ∀ r ∈ Scalar.refs ss, n.world.strong r ≠ 0 := fun r mem =>
    paired.right.alive_of_holds (paired.right.refs_usable usable' r mem).1
  exact (paired.together.withWorld (World.Beside.retainAll _ beside alive)).complete _

/-- The diagnostic form of what a variable holds. -/
theorem debug (paired : Paired d m₀ n₀ [] m n) (g : Guard) (v : VarName) :
    Together d (m.perform g (.debug v)) (n.perform g (.debug v)) := by
  obtain ⟨gone, beside⟩ := paired.together.world
  unfold Machine.perform
  dsimp only
  rw [paired.together.lookup]
  cases found : m.lookup v with
  | none => exact paired.unusable v
  | some item =>
      rw [Option.bind_some, Option.bind_some]
      have shows := beside.debug? item (paired.right.alive (paired.lookup found).2)
      generalize m.world.debug? item = here at shows
      generalize n.world.debug? item = there at shows
      cases shows with
      | none => exact paired.unusable v
      | some same =>
          dsimp only
          rw [same.1]
          exact (paired.together.withWorld same.2).finish _

/-! ## All actions -/

/-- Every public action ends in the same way in both machines. -/
theorem perform (paired : Paired d m₀ n₀ [] m n) (g : Guard) {a : Action} (isPublic : a.isPublic = true) :
    Together d (m.perform g a) (n.perform g a) := by
  obtain ⟨gone, beside⟩ := paired.together.world
  cases a with
  | engine name pages depth =>
      exact ((paired.createEngine _).assignPlain (.engine _) rfl (fun _ => trivial) name).finish _
  | store name engine => exact paired.newStore name engine
  | flush v =>
      refine paired.withStore fun s usable usable' => ?_
      have flushed := paired.flush usable usable'
      obtain ⟨gone', after⟩ := flushed.together.world
      have released : (n.world.flush s).lastFlush = (m.world.flush s).lastFlush :=
        (congrArg World.lastFlush after.rest).trans rfl
      dsimp only
      rw [released]
      exact flushed.finish _
  | pending v =>
      refine paired.withStore fun s _ _ => ?_
      rw [beside.pending_eq]
      exact paired.finish _
  | sameStore a b => exact paired.withStore fun s _ _ => paired.withStore fun t _ _ => paired.finish _
  | storeOf name v =>
      exact paired.withHandle fun _ _ _ _ _ _ found found' => paired.storeOf found found' name
  | engineOf name v =>
      refine paired.withStore fun s _ _ => ?_
      rw [beside.storeConfig_eq]
      exact (paired.assignPlain (.engine _) rfl (fun _ => trivial) name).finish _
  | interruptHandle name v =>
      exact paired.withStore fun s usable usable' => paired.interruptHandle usable usable' name
  | interrupt v =>
      exact paired.withHandle fun _ _ h _ _ _ _ _ => (paired.together.withWorld (beside.interrupt h)).finish _
  | memory name v type => exact paired.newMemory g name v type
  | memoryType v => exact paired.withMemory fun _ _ => paired.finish _
  | size v => exact paired.withMemory fun _ _ => paired.finish _
  | dataSize v => exact paired.withMemory fun _ _ => paired.finish _
  | grow v delta => exact paired.withMemory fun id mem => paired.grow id mem delta
  | read v offset len =>
      refine paired.withMemory fun _ mem => ?_
      split
      · exact paired.finish _
      · exact paired.together.refuse g _
  | write v offset bytes times => exact paired.withMemory fun id mem => paired.writeMemory g id mem offset _
  | poke v address value => exact paired.pokeMemory g v address value
  | data v => exact paired.withMemory fun _ _ => paired.finish _
  | sameData a b => exact paired.withMemory fun _ _ => paired.withMemory fun _ _ => paired.finish _
  | asExtern name v => exact paired.newExtern name v
  | externKind v => exact paired.externKind v
  | intoFunc name v => exact paired.externToFunc name v
  | intoMemory name v => exact paired.externToMemory name v
  | clone name v =>
      unfold Machine.perform
      dsimp only
      rw [paired.together.lookup]
      split
      · next i found =>
          obtain ⟨usable, usable'⟩ := paired.lookup found
          exact (paired.copy usable usable' name).finish _
      · exact paired.unusable v
  | drop v =>
      obtain ⟨existed, erased⟩ := paired.erase v
      unfold Machine.perform
      dsimp only
      rw [existed]
      exact erased.finish _
  | cell name => exact paired.newCell name
  | put c v => exact paired.put g c v
  | get name c => exact paired.get g name c
  | take c =>
      exact paired.withCell fun c old found found' =>
        paired.putCell found found' (fun i same => nomatch same) fun i same => nomatch same
  | debug v => exact paired.debug g v
  | funcType v => exact paired.showFuncType v
  | typed name v sig => exact paired.newTyped g name v sig
  | typedFunc name v => exact paired.typedFunc g name v
  | reference name label payload => exact paired.reference name label payload
  | set name o =>
      refine paired.withOperand fun s usable usable' => ?_
      dsimp only
      rw [beside.shown_eq]
      exact (paired.copy usable usable' name).finish _
  | strong o => exact paired.strong g o
  | sameReference a b => exact paired.withOperand fun _ _ _ => paired.withOperand fun _ _ _ => paired.finish _
  | equalValues a b => exact paired.withOperand fun _ _ _ => paired.withOperand fun _ _ _ => paired.finish _
  | content o type name => exact paired.withOperand fun s _ _ => paired.content s type name
  | accessors o =>
      refine paired.withOperand fun s _ _ => ?_
      rw [beside.label_eq]
      exact paired.finish _
  | expectKind o kind =>
      refine paired.withOperand fun s _ _ => ?_
      rw [beside.shown_eq]
      split
      · exact paired.finish _
      · exact paired.together.complete _
  | decodeValues sig side os =>
      refine paired.withOperands fun ss _ _ => ?_
      dsimp only
      rw [beside.shown_eq]
      split
      · exact paired.finish _
      · exact paired.together.complete _
  | encodeValues sig side os =>
      refine paired.withOperands fun ss _ _ => ?_
      rw [beside.shownVals_eq]
      exact paired.finish _
  | depth name => exact paired.callerDepth name
  | callerStore name => exact paired.callerStore g name
  | callerDebug =>
      unfold Machine.perform
      dsimp only
      rw [paired.together.caller?]
      split <;> exact paired.finish _
  | giveBack os => exact paired.giveBack g os
  | trap message => exact paired.together.complete _
  | panic f => exact paired.together.complete _
  | add name a b => exact paired.arithmetic name _ a b
  | subtract name a b => exact paired.arithmetic name _ a b
  | rawPointer name v => cases isPublic
  | zeroOf | describeFuncType | equalFuncTypes | describeMemoryType | describeTrap | configure | defaults
  | typedKinds => exact paired.finish _

end Paired

end Machine

end HostEmbedding
