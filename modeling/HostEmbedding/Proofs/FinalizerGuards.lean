import HostEmbedding.Proofs.Native.Transitions
import HostEmbedding.Proofs.Ownership.Guards

/-!
# Guards of finalizers

Each thread counts the finalizers that are running on it, whatever they have called, and the guards ask
that count. While it is not zero no memory, function or interrupt handle is created or deleted and no
store is deleted: an attempt ends the process. Outside finalizers no guard fails.

Engines have no guard, and neither has the creation of a store.
-/

namespace HostEmbedding

namespace Frame

def finalizers : List Frame → Nat
  | [] => 0
  | .thread .. :: _ => 0
  | .finalizer _ :: below => finalizers below + 1
  | _ :: below => finalizers below

/-- Every thread that waits has counted the finalizers that are running on it. -/
def Counted : List Frame → Prop
  | [] => True
  | .thread _ state :: below => state.finalizing = finalizers below ∧ Counted below
  | _ :: below => Counted below

theorem finalizers_base (stack : List Frame) : finalizers (base stack) = finalizers stack := by
  induction stack with
  | nil => rfl
  | cons f below ih => cases f <;> first | rfl | exact ih

theorem counted_base (stack : List Frame) : Counted (base stack) ↔ Counted stack := by
  induction stack with
  | nil => rfl
  | cons f below ih => cases f <;> first | rfl | exact ih

end Frame

namespace World

variable {w v : World} {n : NativeId}

/-! ## Changes of native objects -/

/-- A change of a native object that stays of its kind. -/
theorem tally_modifyNative {f : NativeEntry → NativeEntry} {kind : Native → Bool}
    (deletions : ∀ e, (f e).deletions = e.deletions)
    (kept : ∀ e, w.natives[n.index]? = some e → kind (f e).object = kind e.object) :
    (w.modifyNative n f).tally kind = w.tally kind := by
  funext x
  simp only [tally, nativeObject?, World.deletions, bodies, modifyNative, List.getElem?_map,
    Array.getElem?_toList, Array.getElem?_modify]
  split
  · next here =>
      rw [← here]
      cases found : w.natives[n.index]? with
      | none => rfl
      | some e =>
          simp only [Option.map_some, Option.filter, kept e found, deletions e, Option.getD_some]
          split <;> rfl
  · rfl

theorem abides_modifyNative {f : NativeEntry → NativeEntry}
    (deletions : ∀ e, (f e).deletions = e.deletions)
    (handled : ∀ e, w.natives[n.index]? = some e → (f e).object.isHandled = e.object.isHandled)
    (store : ∀ e, w.natives[n.index]? = some e → (f e).object.isStore = e.object.isStore) :
    Abides w (w.modifyNative n f) where
  finalizing := rfl
  aborted _ := rfl
  ended _ := id
  spares _ _ := ⟨tally_modifyNative deletions handled,
    fun x k found => by rwa [tally_modifyNative deletions store]⟩

theorem abides_modifyNativeStore (w : World) (n : NativeId) (f : NativeStore → NativeStore) :
    Abides w (w.modifyNativeStore n f) := by
  refine abides_modifyNative (fun e => ?_) (fun e _ => ?_) fun e _ => ?_
  all_goals
    obtain ⟨o, deletions, finalized, tag⟩ := e
    cases o <;> rfl

/-- Replacing a memory by a memory. -/
theorem abides_setMemory {m : LinearMemory} (found : w.nativeMemory? n = some m) (m' : LinearMemory) :
    Abides w (w.setNative n (.memory m')) := by
  have memory {e : NativeEntry} (here : w.natives[n.index]? = some e) : e.object = .memory m := by
    have object := nativeObject?_of_nativeMemory? found
    unfold nativeObject? bodies at object
    rw [List.getElem?_map, Array.getElem?_toList, here] at object
    exact Option.some.inj object
  refine abides_modifyNative (fun _ => rfl) (fun e here => ?_) fun e here => ?_
  · rw [memory here]
    rfl
  · rw [memory here]
    rfl

theorem abides_requestInterrupt (w : World) (n : NativeId) : Abides w (w.requestInterrupt n) := by
  unfold requestInterrupt
  split
  · exact abides_modifyNativeStore w _ _
  · exact .refl w

theorem abides_growNative {m : LinearMemory} (found : w.nativeMemory? n = some m) (delta : UInt32) :
    Abides w (w.growNative n m delta).2 := by
  unfold growNative
  split
  · exact abides_setMemory found _
  · exact .refl w

theorem abides_grow {m : LinearMemory} (found : w.nativeMemory? n = some m) (delta : UInt32) :
    Abides w (w.grow n m delta).2 := by
  have grown := abides_growNative found delta
  unfold grow
  split
  · next granted => rwa [granted] at grown
  · next v refused =>
      rw [refused] at grown
      exact Abides.trans grown (same_logAbout v n fun t => .refusedGrow t delta).abides

theorem abides_write {m : LinearMemory} (found : w.nativeMemory? n = some m) (offset : Nat) (data : Runs) :
    Abides w (w.write n m offset data).2 := by
  unfold write
  split
  · exact abides_setMemory found _
  · exact .refl w

theorem abides_tryEnter (w : World) (n : NativeId) (args : List (Slot ObjId)) (slots : Nat) :
    Abides w (w.tryEnter n args slots).2 := by
  unfold tryEnter
  split
  · exact .refl w
  · next f _ =>
      split
      · exact .refl w
      · split
        · exact abides_modifyNativeStore w f.store _
        · split
          · exact .refl w
          · split
            · exact .refl w
            · dsimp only
              split
              · rw [leave_count]
                exact .refl w
              · exact abides_modifyNativeStore w f.store _

/-! ## Ordinary operations -/

theorem Upkeep.abides (upkeep : Upkeep w v) : Abides w v := by
  induction upkeep with
  | refl w => exact .refl w
  | trans _ _ first second => exact first.trans second
  | same same => exact same.abides
  | events | slots | retain | alloc | setCell => exact .of_bodies rfl rfl rfl
  | release w id => exact abides_release w id
  | flush w store => exact abides_flush w store
  | guard w op => exact abides_guard w op
  | delete w op n => exact abides_delete w op n
  | deleteFunc w n => exact abides_deleteFunc w n

/-- What no handle owns may be created. -/
theorem spares_allocNative (w : World) {o : Native} (unhandled : o.isHandled = false) :
    Spares w (w.allocNative o).2 := by
  have absent : w.nativeObject? (w.allocNative o).1 = none := by
    rw [← Option.not_isSome_iff_eq_none, nativeObject?_isSome]
    exact Nat.lt_irrefl _
  constructor
  case handled =>
      funext x
      unfold tally
      rw [deletions_allocNative, nativeObject?_allocNative]
      split
      · next here => simp [here, absent, unhandled]
      · rfl
  case stores =>
      intro x k found
      unfold tally at found ⊢
      rw [deletions_allocNative, nativeObject?_allocNative, if_neg]
      · exact found
      · rintro rfl
        rw [absent] at found
        cases found

theorem Ordinary.abides {made : Native → Prop} (ordinary : Ordinary made w v) : Abides w v := by
  induction ordinary with
  | upkeep upkeep => exact upkeep.abides
  | trans _ _ first second => exact first.trans second
  | create w op => exact .of_guard (congrArg ThreadState.finalizing (thread_guard w op)) rfl
  | allocNative w _ unhandled =>
      exact ⟨⟨rfl, fun _ => rfl⟩, fun _ => id, fun _ _ => spares_allocNative w unhandled⟩

/-- What no guard protects may be deleted. -/
theorem spares_deleteNative {o : Native} (native : w.nativeObject? n = some o)
    (unhandled : o.isHandled = false) (other : o.isStore = false) : Spares w (w.deleteNative n) := by
  have known : n.index < w.natives.size := nativeObject?_isSome.mp (Option.isSome_of_mem native)
  have same (kind : Native → Bool) (apart : kind o = false) :
      (w.deleteNative n).tally kind = w.tally kind := by
    funext x
    unfold tally
    rw [nativeObject?_deleteNative, deletions_deleteNative known]
    by_cases here : x = n
    · subst here
      rw [native, Option.filter_some_neg (by simp [apart])]
      rfl
    · rw [if_neg here, Nat.add_zero]
  exact ⟨same _ unhandled, fun x k found => by rwa [same _ other]⟩

/-- A function is deleted behind its guard. -/
theorem aborted_deleteFunc (w : World) (n : NativeId) :
    (w.deleteFunc n).aborted = (w.guard .funcDelete).aborted := by
  unfold deleteFunc
  dsimp only
  split <;> rfl

end World

/-- The steps of the native interface that delete an object without a guard, with their pointer. -/
def NativeStep.frees? : NativeStep → Option (Option VarName)
  | .engineDelete p | .funcTypeDelete p | .memoryTypeDelete p | .trapDelete p => some p
  | _ => none

/-- The steps on engines and stores that have no guard. -/
def NativeStep.isUnguarded : NativeStep → Bool
  | .engineNew _ | .engineDelete _ | .storeNew _ => true
  | _ => false

namespace Machine

variable {m here : Machine}

/-! ## Steps -/

/-- The guards are abided by, with the same threads and finalizers below. -/
def Abides (m here : Machine) : Prop :=
  World.Abides m.world here.world ∧ Frame.base here.stack = Frame.base m.stack

theorem Ordinary.abides {made : Native → Prop} (ordinary : m.Ordinary made here) : m.Abides here :=
  ⟨World.Ordinary.abides ordinary.1, ordinary.2⟩

namespace Abides

theorem refl (m : Machine) : m.Abides m := ⟨.refl m.world, rfl⟩

theorem withWorld (abides : m.Abides here) {w : World} (next : World.Abides here.world w) :
    m.Abides (here.withWorld w) := ⟨abides.1.trans next, abides.2⟩

theorem trans {there : Machine} (first : m.Abides here) (second : here.Abides there) : m.Abides there :=
  ⟨first.1.trans second.1, second.2.trans first.2⟩

end Abides

theorem abides_writeMemory (g : Guard) {n : NativeId} {mem : LinearMemory}
    (found : m.world.nativeMemory? n = some mem) (offset : Nat) (data : HostEmbedding.Runs) :
    m.Abides (m.writeMemory g n mem offset data) := by
  have written := (Abides.refl m).withWorld (World.abides_write found offset data)
  unfold Machine.writeMemory
  split
  · next w result =>
      rw [result] at written
      exact written
  · next e w result =>
      rw [result] at written
      exact written.trans ((Ordinary.start (m.withWorld w)).refuse g e).abides

theorem abides_externToMemory (m : Machine) (name v : VarName) : m.Abides (m.externToMemory name v) := by
  have self := Abides.refl m
  refine of_withHandle (fun _ => self) fun i id h => ?_
  unfold World.intoMemory?
  split
  · next x w made =>
      split at made
      · next mem lock _ _ =>
          obtain ⟨rfl, rfl⟩ := Prod.mk.inj (Option.some.inj made)
          have viewed : World.Abides m.world (m.world.borrow h.native h.store (World.ownerOf id h)
            (.memory lock)).2 := .of_bodies rfl rfl rfl
          exact (self.withWorld viewed).trans ((Ordinary.start (m.withWorld _)).assign name _).abides
      · cases made
  · exact self

theorem abides_perform (m : Machine) (g : Guard) (a : Action) : m.Abides (m.perform g a) := by
  have self := Abides.refl m
  cases a with
  | interrupt =>
      refine of_withHandle (fun _ => self) fun i id h => ?_
      have logged := (World.same_logAbout m.world h.native .interruptRequested).abides
      exact self.withWorld (logged.trans (World.abides_requestInterrupt _ h.native))
  | grow v delta =>
      exact of_withMemory (fun _ => self) fun n mem named =>
        self.withWorld (World.abides_grow (nativeMemory?_of_named named) delta)
  | write =>
      exact of_withMemory (fun _ => self) fun n mem named =>
        abides_writeMemory g (nativeMemory?_of_named named) _ _
  | poke =>
      refine of_withMemory (fun _ => self) fun n mem named => of_withOperand (fun _ => self) fun a =>
        of_withOperand (fun _ => self) fun s => ?_
      split
      · exact abides_writeMemory g (nativeMemory?_of_named named) _ _
      · exact self
  | intoMemory name v => exact abides_externToMemory m name v
  | _ => exact Ordinary.abides (ordinary_perform m g trivial)

theorem abides_enter (m : Machine) (n : NativeId) (args : List (Slot ObjId)) (slots : SlotArray) :
    m.Abides (m.enter n args slots) := by
  have asked := World.abides_tryEnter m.world n args slots.count
  unfold Machine.enter
  split
  · next t w refused =>
      rw [refused] at asked
      exact ⟨asked, rfl⟩
  · next admitted w entered =>
      rw [entered] at asked
      have left {v : World} (inside : World.Abides m.world v) (store : NativeId) :
          World.Abides m.world (v.leave store) := inside.trans (World.abides_modifyNativeStore v store _)
      split
      · next code _ =>
          have shown (e : Event) : World.Abides m.world (w.emit e) :=
            asked.trans (World.Upkeep.emit w e).abides
          unfold Machine.startCallback
          dsimp only
          split
          · exact ⟨shown _, rfl⟩
          · exact ⟨left (shown _) _, rfl⟩
      · next env _ =>
          have host := asked.trans (World.Upkeep.enterHost w env admitted.func.store args admitted.depth
            slots.available).abides
          split
          · next t v gone =>
              rw [gone] at host
              exact ⟨left host _, rfl⟩
          · next a v starts =>
              rw [starts] at host
              exact ⟨host, rfl⟩

/-! ## Transitions -/

/-- The next step deletes without a guard an object whose own deletion has one: it takes it for one of
another kind. -/
def Misdeletes (m : Machine) : Prop :=
  ∃ g name s p n o, m.AtStep g (.native name s) ∧ s.frees? = some p ∧
    m.objectNamed? p = some (n, o) ∧ (o.isHandled = true ∨ o.isStore = true)

/-- What a transition does to threads, finalizers and guards. -/
inductive Passage (m here : Machine) : Prop
  | abides (abides : m.Abides here)
  | misdeletes (misdeletes : m.Misdeletes) (n : NativeId) (world : here.world = m.world.deleteNative n)
      (stack' : here.stack = m.stack)
  /-- A function is deleted whose finalizer runs steps. -/
  | finalizes (n : NativeId) (e : Event) (saved : Context) (steps : Block)
      (world : here.world = ((m.world.deleteFunc n).enterFinalizer n).emit e)
      (stack' : here.stack = .block true 0 steps :: .finalizer saved :: m.stack)
  | finalized (saved : Context) (stack : m.stack = .finalizer saved :: here.stack)
      (world : here.world = m.world.leaveFinalizer)
  | forks (saved : Context) (steps : Block) (world : here.world = { m.world with thread := .fresh })
      (stack' : here.stack = .block true 0 steps :: .thread saved m.world.thread :: m.stack)
  | joins (saved : Context) (state : ThreadState) (stack : m.stack = .thread saved state :: here.stack)
      (world : here.world = { m.world with thread := state })

theorem Deletion.passage {made : Native → Prop} (deletion : m.Deletion made here) : m.Passage here := by
  cases deletion with
  | ordinary ordinary => exact .abides ordinary.abides
  | finalizes n code same =>
      subst same
      exact .finalizes n _ _ _ rfl rfl

section

variable {g : Guard} {name : Option VarName} {s : NativeStep}

theorem passage_frees {p : Option VarName} (begins : m.AtStep g (.native name s))
    (frees : s.frees? = some p) : m.Passage (m.withPointer p m.deleteUnguarded) := by
  have self : m.Passage m := .abides (.refl m)
  refine of_withPointer_named (fun _ _ => .abides (.refl m)) (.abides (.refl m)) fun n o named => ?_
  by_cases guarded : o.isHandled = true ∨ o.isStore = true
  · exact .misdeletes ⟨g, name, s, p, n, o, begins, frees, named, guarded⟩ n rfl rfl
  · obtain ⟨unhandled, other⟩ := not_or.mp guarded
    have native := World.nativeObject?_of_native? (native?_of_named named)
    refine .abides ⟨⟨⟨rfl, fun _ => rfl⟩, fun _ => id, fun _ _ => ?_⟩, rfl⟩
    exact World.spares_deleteNative native (Bool.eq_false_iff.mpr unhandled) (Bool.eq_false_iff.mpr other)

theorem passage_native (begins : m.AtStep g (.native name s)) : m.Passage (m.native name s) := by
  have self := Abides.refl m
  cases s with
  | engineDelete | funcTypeDelete | memoryTypeDelete | trapDelete => exact passage_frees begins rfl
  | funcDelete p =>
      have deletion : m.Deletion (fun _ => False) _ := deletion_funcDelete m name p
      exact deletion.passage
  | externDelete p =>
      have deletion : m.Deletion (fun _ => False) _ := deletion_externDelete m name p
      exact deletion.passage
  | interruptRequest =>
      exact .abides (of_withObject (fun _ _ => self) fun n o _ =>
        self.withWorld (World.abides_requestInterrupt m.world n))
  | memoryGrow p delta =>
      exact .abides (of_withNativeMemory (fun _ _ => self) fun n mem named => self.withWorld
        (World.abides_growNative (World.nativeMemory?_eq_some.mpr (native?_of_named named)) delta))
  | memoryPoke =>
      exact .abides (of_withNativeMemory (fun _ _ => self) fun n mem named => self.withWorld
        (World.abides_setMemory (World.nativeMemory?_eq_some.mpr (native?_of_named named)) _))
  | _ => exact .abides (Ordinary.abides (ordinary_native m name trivial))

end

theorem passage_begin {g : Guard} {s : Step} (begins : m.AtStep g s) : m.Passage (m.begin g s) := by
  cases s with
  | plain a => exact .abides (abides_perform m g a)
  | native name s => exact passage_native begins
  | thread body => exact .forks m.context body rfl rfl
  | _ => exact .abides (Ordinary.abides (ordinary_begin m g trivial))

theorem passage_deliver (m : Machine) (c : Completion) : m.Passage (m.deliver c) := by
  by_cases inner : ∀ f ∈ m.stack.head?, f.isInner = true
  · have ordinary : m.Ordinary (fun _ => False) _ := ordinary_deliver m c inner
    exact .abides ordinary.abides
  · unfold Machine.deliver
    cases stack : m.stack with
    | nil => exact absurd (by simp [stack]) inner
    | cons f below =>
        have popped (plain : f.isCommon = true) : Frame.base below = Frame.base m.stack := by
          rw [stack]
          exact (List.dropWhile_cons_of_pos plain).symm
        cases f with
        | activation saved =>
            dsimp only
            split
            · next a _ =>
                obtain ⟨v, upkeep, left⟩ := World.Upkeep.leaveHost m.world a c
                refine .abides ⟨?_, popped rfl⟩
                show World.Abides m.world (m.world.leaveHost a c).2
                rw [left]
                exact upkeep.abides.trans (World.abides_modifyNativeStore v a.native _)
            · exact .abides ⟨.refl m.world, popped rfl⟩
        | thread saved state => exact .joins saved state stack rfl
        | finalizer saved => exact .finalized saved stack rfl
        | _ => exact absurd (by simp [stack, Frame.isInner]) inner

theorem passage_deliverEngine (m : Machine) (r : EngineResult) : m.Passage (m.deliverEngine r) := by
  by_cases called : ∃ c below, m.stack = .callback c :: below
  · obtain ⟨c, below, stack⟩ := called
    have left (w : World) : World.Abides w (w.leave c.store) :=
      World.abides_modifyNativeStore w c.store _
    have popped : Frame.base below = Frame.base m.stack := by
      rw [stack]
      rfl
    unfold Machine.deliverEngine
    rw [stack]
    cases r with
    | error t => exact .abides ⟨left m.world, popped⟩
    | ok results =>
        have shown := (World.Upkeep.emit m.world (.nested c.code.label (shownSlots results))).abides
        exact .abides ⟨shown.trans (left _), popped⟩
  · push Not at called
    have ordinary : m.Ordinary (fun _ => True) (m.deliverEngine r) :=
      ordinary_deliverEngine m (fun _ _ => trivial) called
    exact .abides ordinary.abides

theorem passage_step (m : Machine) : m.Passage m.step := by
  have self : m.Passage m := .abides (.refl m)
  cases aborted : m.world.aborted with
  | some op =>
      rw [step_aborted aborted]
      exact .abides (.refl m)
  | none =>
      cases control : m.control with
      | run =>
          by_cases block : ∃ outer index steps below, m.stack = .block outer index steps :: below
          · obtain ⟨outer, index, steps, below, stack⟩ := block
            cases steps with
            | nil =>
                unfold Machine.step
                rw [aborted, control, stack]
                refine .abides ⟨.refl m.world, ?_⟩
                rw [stack]
                rfl
            | cons first rest =>
                obtain ⟨g, s⟩ := first
                rw [step_run aborted control stack]
                exact passage_begin ⟨aborted, control, outer, index, rest, below, stack⟩
          · push Not at block
            unfold Machine.step
            rw [aborted, control]
            cases stack : m.stack with
            | nil => exact .abides (.refl m)
            | cons f below =>
                cases f with
                | block outer index steps => exact absurd stack (block outer index steps below)
                | _ => exact .abides (.refl m)
      | complete c =>
          rw [step_complete aborted control]
          exact passage_deliver m c
      | enter n args slots =>
          rw [step_enter aborted control]
          exact .abides (abides_enter m n args slots)
      | engine r =>
          rw [step_engine aborted control]
          exact passage_deliverEngine m r
      | halted ending =>
          unfold Machine.step
          rw [aborted, control]
          exact self

/-! ## The count of a thread -/

/-- The running thread counts its finalizers, and so has every thread that waits. -/
structure Counts (m : Machine) : Prop where
  running : m.world.thread.finalizing = Frame.finalizers m.stack
  waiting : Frame.Counted m.stack

theorem Counts.passage (counts : m.Counts) (passage : m.Passage here) : here.Counts := by
  obtain ⟨running, waiting⟩ := counts
  cases passage with
  | abides abides =>
      obtain ⟨abides, base⟩ := abides
      constructor
      · rw [abides.finalizing, running, ← Frame.finalizers_base, ← base, Frame.finalizers_base]
      · rwa [← Frame.counted_base, base, Frame.counted_base]
  | misdeletes _ n world stack =>
      constructor
      · rw [world, stack]
        exact running
      · rwa [stack]
  | finalizes n e saved steps world stack =>
      have kept := (World.abides_deleteFunc m.world n).finalizing
      constructor
      · rw [world, stack]
        exact congrArg (· + 1) (kept.trans running)
      · rwa [stack]
  | finalized saved stack world =>
      rw [stack] at running waiting
      constructor
      · rw [world]
        show m.world.thread.finalizing - 1 = _
        rw [running]
        rfl
      · exact waiting
  | forks saved steps world stack =>
      constructor
      · rw [world, stack]
        rfl
      · rw [stack]
        exact ⟨running, waiting⟩
  | joins saved state stack world =>
      rw [stack] at waiting
      constructor
      · rw [world]
        exact waiting.1
      · exact waiting.2

/-- Outside finalizers no guard fails. -/
theorem Passage.outside (passage : m.Passage here) (quiet : m.world.thread.finalizing = 0) :
    here.world.aborted = m.world.aborted := by
  cases passage with
  | abides abides => exact abides.1.aborted quiet
  | finalizes n e saved steps world =>
      rw [world]
      exact (World.abides_deleteFunc m.world n).aborted quiet
  | misdeletes _ n world | finalized _ _ world | forks _ _ world | joins _ _ _ world =>
      have same := congrArg World.aborted world
      exact same

/-- While a finalizer runs, nothing that a guard protects is created or deleted. -/
theorem Passage.spares (passage : m.Passage here) (busy : m.world.thread.finalizing ≠ 0)
    (minds : ¬ m.Misdeletes) (alive : here.world.aborted = none) : World.Spares m.world here.world := by
  cases passage with
  | abides abides => exact abides.1.spares busy alive
  | misdeletes misdeletes => exact absurd misdeletes minds
  | finalizes n e saved steps world =>
      rw [world] at alive
      have ended : (m.world.deleteFunc n).aborted = none := alive
      have spared := (World.abides_deleteFunc m.world n).spares busy ended
      rw [world]
      exact spared.trans (.of_bodies (World.bodies_modifyNative_of_eq _ n fun _ => ⟨rfl, rfl⟩))
  | finalized _ _ world | forks _ _ world | joins _ _ _ world =>
      rw [world]
      exact .of_bodies rfl

/-! ## Attempts -/

inductive Points (m : Machine) : Option VarName → Option NativeId → Prop
  | null : Points m none none
  | live (v : VarName) (n : NativeId) (raw : m.lookup v = some (.raw n))
      (live : (m.world.native? n).isSome = true) : Points m (some v) (some n)

theorem Points.eq {p : Option VarName} {n? : Option NativeId} (points : m.Points p n?)
    (k : Option NativeId → Machine) : m.withPointer p k = k n? := by
  cases points with
  | null => rfl
  | live v n raw live =>
      unfold Machine.withPointer
      dsimp only
      rw [raw]
      exact if_pos live

theorem points_of_named {p : Option VarName} {n : NativeId} {o : Native}
    (named : m.objectNamed? p = some (n, o)) : m.Points p (some n) := by
  have live := native?_of_named named
  unfold objectNamed? at named
  cases p with
  | none => cases named
  | some v =>
      rw [Option.bind_some] at named
      split at named
      · next k raw =>
          obtain ⟨_, _, same⟩ := Option.map_eq_some_iff.mp named
          cases same
          exact .live v n raw (Option.isSome_of_mem live)
      · cases named

inductive Attempts (m : Machine) : Step → GuardedOp → Prop
  | storeDelete {name p n?} (points : m.Points p n?) : Attempts m (.native name (.storeDelete p)) .storeDelete
  | memoryNew {name s t s? t?} (store : m.Points s s?) (type : m.Points t t?) :
      Attempts m (.native name (.memoryNew s t)) .memoryNew
  | memoryDelete {name p n?} (points : m.Points p n?) :
      Attempts m (.native name (.memoryDelete p)) .memoryDelete
  | funcNew {name s t s? t? label reply trap nested finalizes finalizer} (store : m.Points s s?)
      (type : m.Points t t?) :
      Attempts m (.nativeFunc name s t label reply trap nested finalizes finalizer) .funcNew
  | funcDelete {name p n?} (points : m.Points p n?) : Attempts m (.native name (.funcDelete p)) .funcDelete
  /-- What an extern view views is deleted behind the guard of its kind. -/
  | externFunc {name p n f} (named : m.objectNamed? p = some (n, .func f)) :
      Attempts m (.native name (.externDelete p)) .funcDelete
  | externMemory {name p n mem} (named : m.objectNamed? p = some (n, .memory mem)) :
      Attempts m (.native name (.externDelete p)) .memoryDelete
  | interruptNew {name p n?} (points : m.Points p n?) :
      Attempts m (.native name (.interruptNew p)) .interruptNew
  | interruptDelete {name p n?} (points : m.Points p n?) :
      Attempts m (.native name (.interruptDelete p)) .interruptDelete

section

variable {op : GuardedOp}

/-- What follows a guard that has failed. -/
theorem Ordinary.ended {made : Native → Prop} (ordinary : m.Ordinary made here) (failed : m.world.aborted = some op) :
    here.world.aborted = some op := ordinary.abides.1.ended op failed

theorem giveNew_ended {name : Option VarName} {o : Native} (failed : m.world.aborted = some op) :
    (m.giveNew name o).world.aborted = some op :=
  ((Ordinary.start (m.withWorld (m.world.allocNative o).2)).givePointer name _).ended failed

theorem nativeMemoryNew_ended {name : Option VarName} {s t : Option NativeId}
    (failed : (m.world.guard .memoryNew).aborted = some op) :
    (m.nativeMemoryNew name s t).world.aborted = some op := by
  have created (s : NativeId) (l : Limits) :
      ((m.world.guard .memoryNew).createNativeMemory s l).2.aborted = some op := by
    unfold World.createNativeMemory
    split
    · exact failed
    · exact failed
  unfold Machine.nativeMemoryNew
  dsimp only
  split
  · next s l _ =>
      have made := created s l
      split
      · next n w granted =>
          rw [show (m.world.guard .memoryNew).createNativeMemory s l = (some n, w) from granted] at made
          exact ((Ordinary.start (m.withWorld w)).givePointer name n).ended made
      · next w refused =>
          rw [show (m.world.guard .memoryNew).createNativeMemory s l = (none, w) from refused] at made
          exact made
  · exact failed

theorem deleteFunction_ended {n? : Option NativeId}
    (failed : (m.world.guard .funcDelete).aborted = some op) :
    (m.deleteFunction n?).world.aborted = some op := by
  cases n? with
  | none => exact failed
  | some n =>
      have deleted := (World.aborted_deleteFunc m.world n).trans failed
      unfold Machine.deleteFunction
      dsimp only
      split
      · split
        · exact deleted
        · exact deleted
      · exact deleted

theorem deleteMemoryStep_ended {n? : Option NativeId}
    (failed : (m.world.guard .memoryDelete).aborted = some op) :
    (m.deleteMemoryStep n?).world.aborted = some op := by
  cases n? <;> exact failed

theorem deleteUnguarded_ended {n? : Option NativeId} (failed : m.world.aborted = some op) :
    (m.deleteUnguarded n?).world.aborted = some op := by
  cases n? <;> exact failed

end

/-- An attempt inside a finalizer ends the process. -/
theorem Attempts.ends {g : Guard} {s : Step} {op : GuardedOp} (attempts : m.Attempts s op)
    (alive : m.world.aborted = none) (busy : m.world.thread.finalizing ≠ 0) :
    (m.begin g s).world.aborted = some op := by
  have failed : (m.world.guard op).aborted = some op := by
    rw [World.guard, if_neg busy, alive]
    rfl
  cases attempts with
  | storeDelete points | interruptDelete points =>
      unfold Machine.begin Machine.native
      dsimp only
      rw [points.eq]
      exact deleteUnguarded_ended failed
  | memoryNew store type =>
      unfold Machine.begin Machine.native
      dsimp only
      rw [store.eq, type.eq]
      exact nativeMemoryNew_ended failed
  | memoryDelete points =>
      unfold Machine.begin Machine.native
      dsimp only
      rw [points.eq]
      exact deleteMemoryStep_ended failed
  | funcNew store type =>
      unfold Machine.begin Machine.nativeFunc
      dsimp only
      rw [store.eq, type.eq]
      split
      · exact giveNew_ended failed
      · exact failed
  | funcDelete points =>
      unfold Machine.begin Machine.native
      dsimp only
      rw [points.eq]
      exact deleteFunction_ended failed
  | externFunc named =>
      unfold Machine.begin Machine.native
      dsimp only
      rw [(points_of_named named).eq]
      simp only [Option.bind_some, World.externKind?, native?_of_named named, Native.externKind?]
      exact deleteFunction_ended failed
  | externMemory named =>
      unfold Machine.begin Machine.native
      dsimp only
      rw [(points_of_named named).eq]
      simp only [Option.bind_some, World.externKind?, native?_of_named named, Native.externKind?]
      exact deleteMemoryStep_ended failed
  | interruptNew points =>
      unfold Machine.begin Machine.native
      dsimp only
      rw [points.eq]
      split
      · exact giveNew_ended failed
      · exact failed

/-- Engines are created and deleted, and stores are created, without a guard. -/
theorem aborted_unguarded {s : NativeStep} (unguarded : s.isUnguarded = true) :
    (m.native none s).world.aborted = m.world.aborted := by
  cases s with
  | engineNew config => cases config <;> rfl
  | engineDelete p =>
      refine of_withPointer (P := fun here => here.world.aborted = m.world.aborted) (fun _ _ => rfl)
        fun n? => ?_
      cases n? <;> rfl
  | storeNew p =>
      refine of_withPointer (P := fun here => here.world.aborted = m.world.aborted) (fun _ _ => rfl)
        fun n? => ?_
      split <;> rfl
  | _ => cases unguarded

/-! ## Every run -/

/-- What the guards do on a run. -/
structure FinalizerGuards (run : Nat → Machine) : Prop where
  /-- The count that the guards ask is the number of finalizers that are running on the thread. -/
  counts : ∀ k, (run k).Counts
  /-- Outside finalizers no guard fails. -/
  outside : ∀ k, (run k).world.thread.finalizing = 0 →
    (run (k + 1)).world.aborted = (run k).world.aborted
  /-- Inside a finalizer, whatever it calls, an attempt ends the process. -/
  attempts : ∀ k g s op, (run k).AtStep g s → (run k).Attempts s op →
    (run k).world.thread.finalizing ≠ 0 → (run (k + 1)).world.aborted = some op ∧
      (run (k + 2)).report? = some (.aborted op)
  /-- As long as finalizers run on the thread and the process goes on, no memory, function or interrupt
  handle is created or deleted and no store is deleted. -/
  inside : ∀ k j, (∀ i < j, (run (k + i)).world.thread.finalizing ≠ 0 ∧ ¬ (run (k + i)).Misdeletes) →
    (run (k + j)).world.aborted = none → World.Spares (run k).world (run (k + j)).world
  /-- For engines, and for the creation of a store, the process goes on. -/
  unguarded : ∀ k g s, (run k).AtStep g (.native none s) → s.isUnguarded = true →
    (run (k + 1)).world.aborted = none

theorem aborted_of_step {op : GuardedOp} (aborted : m.world.aborted = some op) :
    m.step.world.aborted = some op := by
  rw [step_aborted aborted]
  exact aborted

/-- On every run of every script, over the public interface or the native one. -/
theorem finalizerGuards_after (level : Option LogLevel) (script : Block) :
    FinalizerGuards (after level script) := by
  have steps := after_succ level script
  constructor
  case counts =>
      intro k
      induction k with
      | zero => exact ⟨rfl, trivial⟩
      | succ k ih =>
          rw [steps]
          exact ih.passage (passage_step _)
  case outside =>
      intro k quiet
      rw [steps]
      exact (passage_step _).outside quiet
  case attempts =>
      intro k g s op begins attempts busy
      have ended : (after level script (k + 1)).world.aborted = some op := by
        rw [steps, begins.step_eq]
        exact attempts.ends begins.alive busy
      refine ⟨ended, ?_⟩
      rw [steps, step_aborted ended]
      unfold Machine.report?
      dsimp only
      rw [ended]
  case inside =>
      intro k j
      induction j with
      | zero => exact fun _ _ => .of_bodies rfl
      | succ j ih =>
          intro within alive
          have before : (after level script (k + j)).world.aborted = none := by
            by_contra failed
            obtain ⟨op, failed⟩ := Option.ne_none_iff_exists'.mp failed
            rw [← Nat.add_assoc, steps, aborted_of_step failed] at alive
            cases alive
          have spared := ih (fun i less => within i (Nat.lt_succ_of_lt less)) before
          obtain ⟨busy, minds⟩ := within j (Nat.lt_succ_self j)
          rw [← Nat.add_assoc, steps] at alive ⊢
          exact spared.trans ((passage_step _).spares busy minds alive)
  case unguarded =>
      intro k g s begins unguarded
      rw [steps, begins.step_eq]
      exact (aborted_unguarded unguarded).trans begins.alive

/-- A native function is registered in a store and deleted; its finalizer runs some steps. -/
def deletedWith (finalizer : Block) : Block :=
  [(⟨false, false⟩, .native (some (.scoped "e")) (.engineNew (some ⟨4, 4⟩))),
    (⟨false, false⟩, .native (some (.scoped "s")) (.storeNew (some (.scoped "e")))),
    (⟨false, false⟩, .native (some (.scoped "t")) (.funcTypeNew (.elements []) (.elements []))),
    (⟨false, false⟩, .nativeFunc (some (.scoped "f")) (some (.scoped "s")) (some (.scoped "t")) "f" .echo
      none none true finalizer),
    (⟨false, false⟩, .native none (.funcDelete (some (.scoped "f"))))]

/-- Deleting the store in the finalizer ends the process. -/
example : (after none (deletedWith
      [(⟨false, false⟩, .native none (.storeDelete (some (.scoped "s"))))]) 10).world.aborted =
    some .storeDelete := by decide +kernel

/-- Creating a store in it does not: the store is there while the finalizer runs. -/
example : let m := after none (deletedWith
      [(⟨false, false⟩, .native none (.storeNew (some (.scoped "e"))))]) 10
    m.world.thread.finalizing = 1 ∧ m.world.aborted = none ∧ (m.world.nativeStore? ⟨4⟩).isSome := by
  decide +kernel

end Machine

end HostEmbedding
