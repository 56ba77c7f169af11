import HostEmbedding.Proofs.Machine.Variables

/-!
# Steps that end at once

Every action of the public interface starts and ends with nothing of its own: what it creates or
copies it gives to a variable, to a cell, to a closure or to its answer.
-/

namespace HostEmbedding

open World (Yields)

namespace Machine

namespace Busy

variable {m₀ m : Machine} {extra : List ObjId}

/-! ## Stores, memories and handles -/

/-- An engine is its configuration and owns nothing. -/
theorem assignEngine (busy : Busy m₀ extra m) (config : Config) (name : VarName) :
    Busy m₀ extra (m.assign name (.engine config)) := by
  have held : Busy m₀ ((Item.engine config).refs ++ extra) m := busy
  exact held.assign trivial name

theorem createStore (busy : Busy m₀ [] m) (name : VarName) (config : Config) :
    Ends m₀ (((m.withWorld (m.world.createStore config).2).assign name
      (.store (m.world.createStore config).1)).finish (.config config)) := by
  obtain ⟨made, fits⟩ := busy.yields (busy.world.createStore config)
  exact (made.assign fits name).finish _

theorem newStore (busy : Busy m₀ [] m) (name : VarName) (engine : Option VarName) :
    Ends m₀ (m.newStore name engine) := by
  unfold Machine.newStore
  cases engine with
  | none => exact (busy.same (World.same_log m.world _)).createStore name .standard
  | some v =>
      dsimp only
      split
      · next config found => exact busy.createStore name config
      · exact busy.unusable v

theorem flush (busy : Busy m₀ extra m) {s : ObjId} (usable : m.Usable (.store s)) :
    Busy m₀ extra (m.withWorld (m.world.flush s)) := by
  obtain ⟨n, isStore⟩ := usable.fits
  exact busy.withWorld (busy.world.flush isStore) (World.drains_flush _ s).evolves

/-- What the machine keeps alive is kept alive by all that is held. -/
theorem holds (_ : Busy m₀ extra m) {item : Item} (usable : m.Usable item) {id : ObjId}
    (mem : id ∈ item.refs) : m.world.shapes.Holds (extra ++ m.owns) id :=
  (usable.holds id mem).mono (.refl _) fun _ owned => List.mem_append_right extra owned

theorem interruptHandle (busy : Busy m₀ [] m) {s : ObjId} (usable : m.Usable (.store s))
    (name : VarName) :
    Ends m₀ ((m.withWorld (m.world.createInterrupt s).2).assignNew name
      ((m.world.createInterrupt s).1.map .interrupt) .ok) := by
  obtain ⟨n, isStore⟩ := usable.fits
  obtain ⟨h, result, yields⟩ := busy.world.createInterrupt
    (busy.holds usable (List.mem_singleton_self s)) isStore
  obtain ⟨made, fits⟩ := busy.yields yields
  rw [result]
  exact (made.assign fits name).finish _

theorem newMemory (busy : Busy m₀ [] m) (g : Guard) (name v : VarName) (type : MemoryType) :
    Ends m₀ (m.newMemory g name v type) := by
  refine busy.withStore (fun _ ends => ends) fun s usable => ?_
  obtain ⟨n, isStore⟩ := usable.fits
  rcases busy.world.createMemory (busy.holds usable (List.mem_singleton_self s)) isStore type with
    ⟨h, w, result, yields⟩ | ⟨e, w, result, sound, evolves⟩
  · rw [result]
    obtain ⟨made, fits⟩ := busy.yields yields
    exact (made.assign fits name).finish _
  · rw [result]
    have kept : Busy m₀ [] (m.withWorld w) := busy.withWorld sound evolves
    exact kept.refuse g e

theorem grow (busy : Busy m₀ [] m) {n : NativeId} {mem : LinearMemory}
    (found : m.world.nativeMemory? n = some mem) (delta : UInt32) :
    Busy m₀ [] (m.withWorld (m.world.grow n mem delta).2) := by
  obtain ⟨sound, evolves⟩ := busy.world.grow found delta
  exact busy.withWorld sound evolves

theorem writeMemory (busy : Busy m₀ [] m) (g : Guard) {n : NativeId} {mem : LinearMemory}
    (found : m.world.nativeMemory? n = some mem) (offset : Nat) (data : Runs) :
    Ends m₀ (m.writeMemory g n mem offset data) := by
  obtain ⟨sound, evolves⟩ := busy.world.write found offset data
  have written := busy.withWorld sound evolves
  unfold Machine.writeMemory
  split
  · next w result =>
      rw [result] at written
      exact written.finish _
  · next e w result =>
      rw [result] at written
      exact written.refuse g e

theorem pokeMemory (busy : Busy m₀ [] m) (g : Guard) (v : VarName) (address value : Operand) :
    Ends m₀ (m.pokeMemory g v address value) := by
  refine busy.withMemory (fun _ ends => ends) fun n mem found => ?_
  refine busy.withOperand (fun _ ends => ends) fun a _ => ?_
  refine busy.withOperand (fun _ ends => ends) fun s _ => ?_
  split
  · exact busy.writeMemory g found _ _
  · exact busy.unusable v

/-- The store of a live handle can be copied. -/
theorem storeOf (busy : Busy m₀ [] m) {id : ObjId} {h : Handle}
    (found : m.world.handle? id = some h) (name : VarName) :
    Ends m₀ ((m.assignCopy name (.store h.store)).finish .ok) := by
  obtain ⟨known, -⟩ := World.handle?_eq_some.mp found
  obtain ⟨k, entry⟩ := World.isHandle_iff.mp known
  have handle : h.Fits m.world.shapes := busy.world.objects entry
  obtain ⟨s, isStore, -⟩ := handle.state
  have fits : Item.Fits m.world.shapes (.store h.store) := ⟨s, isStore⟩
  refine (busy.assignCopy fits (fun id mem => ?_) name).finish _
  cases List.mem_singleton.mp mem
  exact (busy.world.keeps_alive found).1

/-! ## Views -/

theorem newExtern (busy : Busy m₀ [] m) (name v : VarName) : Ends m₀ (m.newExtern name v) := by
  refine busy.withHandle (fun _ ends => ends) fun item id h _ _ _ found => ?_
  obtain ⟨made, fits⟩ := busy.yields (busy.world.asExtern found)
  exact (made.assign fits name).finish _

theorem externToFunc (busy : Busy m₀ [] m) (name v : VarName) :
    Ends m₀ (m.externToFunc name v) := by
  refine busy.withHandle (fun _ ends => ends) fun item id h _ _ _ found => ?_
  split
  · next f type w result =>
      obtain ⟨made, fits⟩ := busy.yields (busy.world.intoFunc? found result)
      exact (made.assign fits name).finish _
  · exact busy.finish _

theorem externToMemory (busy : Busy m₀ [] m) (name v : VarName) :
    Ends m₀ (m.externToMemory name v) := by
  refine busy.withHandle (fun _ ends => ends) fun item id h _ _ _ found => ?_
  split
  · next mem w result =>
      obtain ⟨made, fits⟩ := busy.yields (busy.world.intoMemory? found result)
      exact (made.assign fits name).finish _
  · exact busy.finish _

/-! ## Functions -/

theorem captured (busy : Busy m₀ extra m) {names : List VarName} {captures : Scope}
    (found : (names.mapM fun c => (m.lookup c).map fun i => (c.base, i)) = some captures) :
    ∀ p ∈ captures, m.Usable p.2 := by
  induction names generalizing captures with
  | nil =>
      cases found
      exact fun p mem => by cases mem
  | cons c rest ih =>
      simp only [List.mapM_cons, Option.bind_eq_bind, Option.bind_eq_some_iff, Option.pure_def,
        Option.some.injEq] at found
      obtain ⟨p, first, others, rest', rfl⟩ := found
      obtain ⟨i, looked, rfl⟩ := Option.map_eq_some_iff.mp first
      intro q mem
      rcases List.mem_cons.mp mem with rfl | mem
      · exact busy.lookup looked
      · exact ih rest' q mem

/-- Registering host code with copies of its captures gives a name a new function. -/
theorem registers (busy : Busy m₀ [] m) {s : ObjId} (usable : m.Usable (.store s)) {code : HostCode}
    (body : Block.isPublic code.body = true) {names : List VarName} {captures : Scope}
    (found : (names.mapM fun c => (m.lookup c).map fun i => (c.base, i)) = some captures)
    (name : VarName) :
    ∃ h w, (m.world.retainAll (Scope.refs captures)).register s code captures = (some h, w) ∧
      Busy m₀ [] ((m.withWorld w).assign name (.func h code.shape.funcType)) := by
  have captured := busy.captured found
  have alive : ∀ id ∈ Scope.refs captures, m.world.strong id ≠ 0 := by
    intro id mem
    obtain ⟨p, held, mem⟩ := List.mem_flatMap.mp mem
    exact busy.alive (captured p held) id mem
  have retained := busy.world.retainAll (Scope.refs captures) alive
  have evolves := World.evolves_retainAll (Scope.refs captures) alive
  obtain ⟨n, isStore⟩ := usable.fits
  have fits : Scope.Fits (m.world.retainAll (Scope.refs captures)).shapes captures :=
    fun p held => (captured p held).fits.mono evolves.shapes
  obtain ⟨h, result, yields⟩ := retained.register
    ((busy.holds usable (List.mem_singleton_self s)).mono evolves.shapes fun _ mem => mem)
    (isStore.mono evolves.shapes) body fits
  have total : Yields m.world ([] ++ m.owns) _ (.func h code.shape.funcType) :=
    ⟨yields.sound, evolves.trans yields.evolves, yields.fits⟩
  obtain ⟨made, fits⟩ := busy.yields total
  exact ⟨h, _, Prod.ext result rfl, made.assign fits name⟩

/-- A new function takes copies of its captures. -/
theorem newFunc (busy : Busy m₀ [] m) (name v : VarName) {code : HostCode}
    (body : Block.isPublic code.body = true) (names : List VarName) :
    Ends m₀ (m.newFunc name v code names) := by
  refine busy.withStore (fun _ ends => ends) fun s usable => ?_
  split
  · exact busy.unusable v
  · next captures found =>
      obtain ⟨h, w, made, registered⟩ := busy.registers usable body found name
      rw [made]
      exact registered.finish _

theorem showFuncType (busy : Busy m₀ [] m) (v : VarName) : Ends m₀ (m.showFuncType v) := by
  unfold Machine.showFuncType
  split
  · split
    · exact busy.finish _
    · exact busy.unusable v
  · exact busy.unusable v

theorem newTyped (busy : Busy m₀ [] m) (g : Guard) (name v : VarName) (sig : TypedSignature) :
    Ends m₀ (m.newTyped g name v sig) := by
  unfold Machine.newTyped
  split
  · next h type found =>
      split
      · next same =>
          have usable := busy.lookup found
          have typed : m.Usable (.typedFunc h type sig) := ⟨⟨same, usable.fits⟩, usable.holds⟩
          exact (busy.copy typed name).finish _
      · exact busy.refuse g _
  · exact busy.unusable v

theorem typedFunc (busy : Busy m₀ [] m) {h : ObjId} {type : FuncType} {sig : TypedSignature}
    (usable : m.Usable (.typedFunc h type sig)) (name : VarName) :
    Ends m₀ ((m.assignCopy name (.func h type)).finish .ok) := by
  have func : m.Usable (.func h type) := ⟨usable.fits.2, usable.holds⟩
  exact (busy.copy func name).finish _

/-! ## References and cells -/

/-- A new reference takes over what its content owns. -/
theorem allocReferent {payload : Payload} (busy : Busy m₀ payload.refs m)
    (fits : ∀ i, payload = .item i → i.Fits m.world.shapes) (label : String) :
    Busy m₀ [(m.world.alloc (.referent label payload) 1).1]
        (m.withWorld (m.world.alloc (.referent label payload) 1).2) ∧
      Item.Fits (m.world.alloc (.referent label payload) 1).2.shapes
        (.value (.externref (some (m.world.alloc (.referent label payload) 1).1))) := by
  have made := busy.world.alloc (o := .referent label payload) rfl rfl
    (fun h same => by cases same) fits
  have evolves := World.evolves_alloc m.world (.referent label payload) Nat.one_ne_zero
  have known := World.shapes_alloc_self m.world (.referent label payload) 1
  refine ⟨busy.withWorld made evolves, fun x same => ?_⟩
  cases same
  exact ⟨label, payload, known⟩

theorem newReference {payload : Payload} (busy : Busy m₀ payload.refs m)
    (fits : ∀ i, payload = .item i → i.Fits m.world.shapes) (name : VarName) (label : String) :
    Ends m₀ (m.newReference name label payload) := by
  obtain ⟨held, item⟩ := busy.allocReferent fits label
  have assigned : Busy m₀ [] ((m.withWorld (m.world.alloc (.referent label payload) 1).2).assign name
      (.value (.externref (some (m.world.alloc (.referent label payload) 1).1)))) := held.assign item name
  exact assigned.finish _

theorem reference (busy : Busy m₀ [] m) (name : VarName) (label : String) (p : PayloadLiteral) :
    Ends m₀ (m.reference name label p) := by
  have plain (payload : Payload) (none : payload.refs = []) (noItem : ∀ i, payload ≠ .item i) :
      Ends m₀ (m.newReference name label payload) :=
    newReference (by rw [none]; exact busy) (fun i same => absurd same (noItem i)) name label
  have wrapped (v : VarName) : Ends m₀ (m.reference name label (.func v)) := by
    unfold Machine.reference
    dsimp only
    split
    · next i found =>
        have usable := busy.lookup found
        have alive := busy.alive usable
        have retained := busy.retainAll alive
        rw [List.append_nil] at retained
        refine newReference retained (fun j same => ?_) name label
        cases same
        exact usable.fits.mono (World.evolves_retainAll _ alive).shapes
    · exact busy.unusable v
  cases p with
  | text s => exact plain (.text s) rfl fun i same => by cases same
  | int n => exact plain (.int n) rfl fun i same => by cases same
  | unit => exact plain .unit rfl fun i same => by cases same
  | func v => exact wrapped v
  | memory v => exact wrapped v
  | store v => exact wrapped v

/-- The item inside a live reference is alive. -/
theorem content_item (busy : Busy m₀ extra m) {r : ObjId} {i : Item}
    (found : m.world.payload? r = some (.item i)) :
    i.Fits m.world.shapes ∧ ∀ id ∈ i.refs, m.world.strong id ≠ 0 := by
  unfold World.payload? at found
  split at found
  · next label payload object =>
      cases found
      obtain ⟨k, entry, alive⟩ := World.object?_eq_some.mp object
      have fits : Object.Fits m.world.shapes r (.referent label (.item i)) :=
        busy.world.objects entry
      exact ⟨fits i rfl, fun id mem => busy.world.alive_of_owned entry alive mem⟩
  · cases found

theorem content (busy : Busy m₀ [] m) (s : Scalar ObjId) (type : PayloadType)
    (name : Option VarName) : Ends m₀ (m.content s type name) := by
  unfold Machine.content
  dsimp only
  split
  · exact busy.finish _
  · exact busy.finish _
  · exact busy.finish _
  · exact busy.finish _
  · exact busy.finish _
  · exact busy.finish _
  · next i _ _ _ found =>
      split
      · split
        · next name =>
            obtain ⟨r, -, payload⟩ := Option.bind_eq_some_iff.mp found
            obtain ⟨fits, alive⟩ := busy.content_item payload
            exact (busy.assignCopy fits alive name).finish _
        · exact busy.finish _
      · exact busy.finish _
  · exact busy.finish _

/-- The item inside a live cell is alive. -/
theorem cell_item (busy : Busy m₀ extra m) {c : ObjId} {i : Item}
    (found : m.world.object? c = some (.cell (some i))) :
    i.Fits m.world.shapes ∧ ∀ id ∈ i.refs, m.world.strong id ≠ 0 := by
  obtain ⟨k, entry, alive⟩ := World.object?_eq_some.mp found
  have fits : Object.Fits m.world.shapes c (.cell (some i)) := busy.world.objects entry
  refine ⟨fits i rfl, fun id mem => busy.world.alive_of_owned entry alive ?_⟩
  simpa [Object.refs] using mem

theorem object?_retainAll {c : ObjId} {o : Object} {w : World} (ids : List ObjId)
    (found : w.object? c = some o) : (w.retainAll ids).object? c = some o := by
  induction ids generalizing w with
  | nil => exact found
  | cons id rest ih =>
      refine ih ?_
      obtain ⟨k, entry, alive⟩ := World.object?_eq_some.mp found
      refine World.object?_eq_some.mpr ?_
      unfold World.retain
      rw [World.entry?_modifyEntry, entry]
      split
      · exact ⟨k + 1, rfl, Nat.succ_ne_zero k⟩
      · exact ⟨k, rfl, alive⟩

theorem handle?_retainAll {id : ObjId} {h : Handle} {w : World} (ids : List ObjId)
    (found : w.handle? id = some h) : (w.retainAll ids).handle? id = some h := by
  obtain ⟨known, alive⟩ := World.handle?_eq_some.mp found
  obtain ⟨k, entry⟩ := World.isHandle_iff.mp known
  have counted : k ≠ 0 := by rwa [World.strong_eq entry] at alive
  have object := object?_retainAll ids (World.object?_eq_some.mpr ⟨k, entry, counted⟩)
  unfold World.handle?
  rw [object]

/-- What a cell held is held by the step once the cell holds a copy of something else. -/
theorem setCell (busy : Busy m₀ [] m) {c : ObjId} {old new : Option Item}
    (found : m.world.object? c = some (.cell old)) (usable : ∀ i, new = some i → m.Usable i) :
    ((m.world.retainAll (new.toList.flatMap Item.refs)).setObject c (.cell new)).Sound
        (old.toList.flatMap Item.refs ++ m.owns) ∧
      World.Evolves m.world
        ((m.world.retainAll (new.toList.flatMap Item.refs)).setObject c (.cell new)) := by
  have alive : ∀ id ∈ new.toList.flatMap Item.refs, m.world.strong id ≠ 0 := by
    intro id mem
    cases new with
    | none => cases mem
    | some i => exact busy.alive (usable i rfl) id (by simpa using mem)
  have retained := busy.world.retainAll _ alive
  have evolves := World.evolves_retainAll _ alive
  obtain ⟨exchanged, evolves'⟩ := retained.setCell (object?_retainAll _ found) fun i same =>
    (usable i same).fits.mono evolves.shapes
  exact ⟨exchanged, evolves.trans evolves'⟩

/-- A cell takes a copy of the new item and gives up what it held. -/
theorem putCell (busy : Busy m₀ [] m) {c : ObjId} {old new : Option Item}
    (found : m.world.object? c = some (.cell old)) (usable : ∀ i, new = some i → m.Usable i) :
    Ends m₀ (m.putCell c old new) := by
  obtain ⟨exchanged, evolves⟩ := busy.setCell found usable
  have drains := World.drains_releaseAll (old.toList.flatMap Item.refs)
    ((m.world.retainAll (new.toList.flatMap Item.refs)).setObject c (.cell new))
  exact (busy.withWorld (exchanged.releaseAll _) (evolves.trans drains.evolves)).finish _

/-- A new cell is empty. -/
theorem allocCell (busy : Busy m₀ [] m) :
    Yields m.world m.owns (m.world.alloc (.cell none) 1).2 (.cell (m.world.alloc (.cell none) 1).1) := by
  have made : (m.world.alloc (.cell none) 1).2.Sound ((m.world.alloc (.cell none) 1).1 :: m.owns) :=
    busy.world.alloc rfl rfl (fun h same => by cases same) fun i same => by cases same
  have known : (m.world.alloc (.cell none) 1).2.shapes.IsCell (m.world.alloc (.cell none) 1).1 :=
    World.shapes_alloc_self m.world (.cell none) 1
  exact ⟨made, World.evolves_alloc m.world (.cell none) Nat.one_ne_zero, known⟩

theorem newCell (busy : Busy m₀ [] m) (name : VarName) :
    Ends m₀ (((m.withWorld (m.world.alloc (.cell none) 1).2).assign name
      (.cell (m.world.alloc (.cell none) 1).1)).finish .ok) := by
  obtain ⟨held, fits⟩ := busy.yields busy.allocCell
  exact (held.assign fits name).finish _

/-! ## Values -/

/-- A value without a reference needs nothing. -/
theorem assignPlain (busy : Busy m₀ extra m) {s : Scalar ObjId} (plain : s.ref? = none)
    (name : VarName) : Busy m₀ extra (m.assign name (.value s)) := by
  have none : (Item.value s).refs = [] := by simp [Item.refs, plain]
  have held : Busy m₀ ((Item.value s).refs ++ extra) m := by
    rw [none]
    exact busy
  exact held.assign (fun r same => by rw [plain] at same; cases same) name

theorem arithmetic (busy : Busy m₀ [] m) (name : VarName) (f : Int → Int → Int) (a b : Operand) :
    Ends m₀ (m.arithmetic name f a b) := by
  refine busy.withOperand (fun _ ends => ends) fun x _ => ?_
  refine busy.withOperand (fun _ ends => ends) fun y _ => ?_
  split
  · next s combined =>
      have plain : s.ref? = none := by
        simp only [Scalar.combine?, Option.bind_eq_bind, Option.bind_eq_some_iff] at combined
        obtain ⟨i, -, j, -, made⟩ := combined
        cases type : x.type <;> rw [type] at made <;> cases made <;> rfl
      exact (busy.assignPlain plain name).finish _
  · exact busy.unusable name

theorem callerDepth (busy : Busy m₀ [] m) (name : Option VarName) :
    Ends m₀ (m.callerDepth name) := by
  unfold Machine.callerDepth
  split
  · exact busy.finish _
  · split
    · exact (busy.assignPlain rfl _).finish _
    · exact busy.finish _

theorem caller (_ : Busy m₀ extra m) {a : Activation} (found : m.caller? = some a) :
    m.context = .body a := by
  unfold Machine.caller? at found
  split at found
  · next b context =>
      split at found
      · cases found
        exact context
      · cases found
  · cases found

theorem callerStore (busy : Busy m₀ [] m) {a : Activation} (found : m.caller? = some a)
    (name : VarName) : Ends m₀ ((m.assignCopy name (.store a.store)).finish .ok) := by
  have context := busy.caller found
  have fits : Item.Fits m.world.shapes (.store a.store) := ⟨_, (busy.running a context).store⟩
  refine (busy.assignCopy fits (fun id mem => ?_) name).finish _
  cases List.mem_singleton.mp mem
  refine busy.world.alive (List.mem_append_right [] ?_)
  unfold owns
  rw [context]
  simp [Context.refs]

/-- The references of usable values. -/
theorem refs_usable (_ : Busy m₀ extra m) {ss : List (Scalar ObjId)}
    (usable : ∀ s ∈ ss, m.Usable (.value s)) :
    ∀ id ∈ Scalar.refs ss, m.world.shapes.Holds m.owns id ∧ m.world.shapes.IsReferent id := by
  intro id mem
  obtain ⟨s, held, carried⟩ := List.mem_filterMap.mp mem
  have item := usable s held
  exact ⟨item.holds id (by simp [Item.refs, carried]), item.fits id carried⟩

theorem alive_of_holds (busy : Busy m₀ extra m) {id : ObjId}
    (holds : m.world.shapes.Holds m.owns id) : m.world.strong id ≠ 0 :=
  busy.world.alive_of_holds (holds.mono (.refl _) fun _ owned => List.mem_append_right extra owned)

theorem giveBack (busy : Busy m₀ [] m) (os : List Operand) :
    Ends m₀ (m.withOperands os fun ss =>
      (m.withWorld (m.world.retainAll (Scalar.refs ss))).complete (.gaveBack ss)) := by
  refine busy.withOperands (fun _ ends => ends) fun ss _ usable => ?_
  have refs := busy.refs_usable usable
  have alive : ∀ id ∈ Scalar.refs ss, m.world.strong id ≠ 0 := fun id mem =>
    busy.alive_of_holds (refs id mem).1
  have retained := busy.retainAll alive
  rw [List.append_nil] at retained
  exact retained.complete fun r mem =>
    (refs r mem).2.mono (World.evolves_retainAll (Scalar.refs ss) alive).shapes

theorem debug (busy : Busy m₀ extra m) {i : Item} {text : String} {w : World}
    (found : m.world.debug? i = some (text, w)) : Busy m₀ extra (m.withWorld w) :=
  busy.same (World.same_debug? found)

/-! ## All actions -/

/-- Every public action ends with nothing of its own but what its completion carries. -/
theorem perform (busy : Busy m₀ [] m) (g : Guard) {a : Action} (isPublic : a.isPublic = true) :
    Ends m₀ (m.perform g a) := by
  have self : ∀ m', Ends m₀ m' → Ends m₀ m' := fun _ ends => ends
  cases a with
  | engine name pages depth =>
      exact ((busy.same (World.same_log m.world _)).assignEngine _ name).finish _
  | store name engine => exact busy.newStore name engine
  | flush v => exact busy.withStore self fun s usable => (busy.flush usable).finish _
  | pending v => exact busy.withStore self fun s _ => busy.finish _
  | sameStore a b => exact busy.withStore self fun s _ => busy.withStore self fun t _ => busy.finish _
  | storeOf name v => exact busy.withHandle self fun _ _ _ _ _ _ found => busy.storeOf found name
  | engineOf name v =>
      exact busy.withStore self fun s _ => (busy.assignEngine _ name).finish _
  | interruptHandle name v =>
      exact busy.withStore self fun s usable => busy.interruptHandle usable name
  | interrupt v =>
      refine busy.withHandle self fun _ _ h _ _ _ _ => ?_
      obtain ⟨sound, evolves⟩ := busy.world.interrupt h
      have kept : Busy m₀ [] _ := busy.withWorld sound evolves
      exact kept.finish _
  | memory name v type => exact busy.newMemory g name v type
  | memoryType v => exact busy.withMemory self fun _ _ _ => busy.finish _
  | size v => exact busy.withMemory self fun _ _ _ => busy.finish _
  | dataSize v => exact busy.withMemory self fun _ _ _ => busy.finish _
  | grow v delta => exact busy.withMemory self fun n mem found => (busy.grow found delta).finish _
  | read v offset len =>
      refine busy.withMemory self fun _ mem _ => ?_
      split
      · exact busy.finish _
      · exact busy.refuse g _
  | write v offset bytes times =>
      exact busy.withMemory self fun n mem found => busy.writeMemory g found offset _
  | poke v address value => exact busy.pokeMemory g v address value
  | data v => exact busy.withMemory self fun _ _ _ => busy.finish _
  | sameData a b =>
      exact busy.withMemory self fun _ _ _ => busy.withMemory self fun _ _ _ => busy.finish _
  | asExtern name v => exact busy.newExtern name v
  | externKind v =>
      refine busy.withHandle self fun _ _ h _ _ _ _ => ?_
      split
      · exact busy.finish _
      · exact busy.unusable v
  | intoFunc name v => exact busy.externToFunc name v
  | intoMemory name v => exact busy.externToMemory name v
  | clone name v =>
      unfold Machine.perform
      dsimp only
      split
      · next i found => exact (busy.copy (busy.lookup found) name).finish _
      · exact busy.unusable v
  | drop v => exact (busy.erase v).finish _
  | cell name => exact busy.newCell name
  | put c v =>
      refine busy.withCell self fun c old _ object => ?_
      split
      · next i found =>
          exact busy.putCell object fun j same => by cases same; exact busy.lookup found
      · exact busy.unusable v
  | get name c =>
      refine busy.withCell self fun c content _ object => ?_
      split
      · next i =>
          obtain ⟨fits, alive⟩ := busy.cell_item object
          exact (busy.assignCopy fits alive name).finish _
      · exact busy.finish _
  | take c =>
      exact busy.withCell self fun c old _ object =>
        busy.putCell object fun i same => by cases same
  | debug v =>
      unfold Machine.perform
      dsimp only
      split
      · next text w found =>
          obtain ⟨i, -, shown⟩ := Option.bind_eq_some_iff.mp found
          exact (busy.debug shown).finish _
      · exact busy.unusable v
  | funcType v => exact busy.showFuncType v
  | typed name v sig => exact busy.newTyped g name v sig
  | typedFunc name v =>
      unfold Machine.perform
      dsimp only
      split
      · next h type sig found => exact busy.typedFunc (busy.lookup found) name
      · exact busy.unusable v
  | reference name label payload => exact busy.reference name label payload
  | set name o =>
      exact busy.withOperand self fun s usable => (busy.copy usable name).finish _
  | strong o =>
      refine busy.withOperand self fun s _ => ?_
      split
      · exact busy.finish _
      · exact busy.finish _
  | sameReference a b =>
      exact busy.withOperand self fun _ _ => busy.withOperand self fun _ _ => busy.finish _
  | equalValues a b =>
      exact busy.withOperand self fun _ _ => busy.withOperand self fun _ _ => busy.finish _
  | content o type name => exact busy.withOperand self fun s _ => busy.content s type name
  | accessors o => exact busy.withOperand self fun s _ => busy.finish _
  | expectKind o kind =>
      refine busy.withOperand self fun s _ => ?_
      split
      · exact busy.finish _
      · exact busy.raise rfl
  | zeroOf kind => exact busy.finish _
  | describeFuncType type => exact busy.finish _
  | equalFuncTypes a b => exact busy.finish _
  | describeMemoryType type => exact busy.finish _
  | describeTrap message => exact busy.finish _
  | configure settings => exact busy.finish _
  | defaults => exact busy.finish _
  | typedKinds sig => exact busy.finish _
  | decodeValues sig side os =>
      refine busy.withOperands self fun ss _ _ => ?_
      dsimp only
      split
      · exact busy.finish _
      · exact busy.raise rfl
  | encodeValues sig side os => exact busy.withOperands self fun ss _ _ => busy.finish _
  | depth name => exact busy.callerDepth name
  | callerStore name =>
      unfold Machine.perform
      dsimp only
      split
      · next a found => exact busy.callerStore found name
      · exact busy.finish _
  | callerDebug =>
      unfold Machine.perform
      dsimp only
      split
      · exact busy.finish _
      · exact busy.finish _
  | giveBack os => exact busy.giveBack os
  | trap message => exact busy.raise rfl
  | panic f => exact busy.raise rfl
  | add name a b => exact busy.arithmetic name _ a b
  | subtract name a b => exact busy.arithmetic name _ a b
  | rawPointer name v => cases isPublic

end Busy

end Machine

end HostEmbedding
