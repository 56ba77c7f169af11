import HostEmbedding.Proofs.Slots.Steps

/-!
# Steps that begin on another stack

A step that begins ends at once, or puts frames on the stack: a call with its slot, a call of a raw
pointer, a block under a branch or a loop, or a finalizer. On another stack and over other slots it
puts the same ones there. Only a thread takes the slots with it.
-/

namespace HostEmbedding.Machine

/-- What a step that begins can put on the stack and before the slots, and what goes on from there. -/
inductive Opening (ctx : Context) : Context → Control → List Frame → List (Option Fault) → Prop
  | call (c : HostCall) (n : NativeId) (args : List (Slot ObjId)) (slots : SlotArray) :
      Opening ctx ctx (.enter n args slots) [.hostCall c] [none]
  | nativeCall (name : Option VarName) (n : NativeId) (args : List (Slot ObjId)) (slots : SlotArray) :
      Opening ctx ctx (.enter n args slots) [.nativeCall name] []
  | branch (taken : Bool) (steps : Block) :
      Opening ctx ctx .run [.block false 0 steps, .branch taken] []
  | loop (left : Nat) (steps : Block) :
      Opening ctx ctx .run [.block false 0 steps, .loop left steps] []
  | finalizer (label : String) (steps : Block) :
      Opening ctx (.finalizer label) .run [.block true 0 steps, .finalizer ctx] []

/-- A step has put frames on the stack and slots before the slots. -/
structure Opened (m here : Machine) (new : List Frame) (slots : List (Option Fault)) : Prop where
  stack : here.stack = new ++ m.stack
  frames : here.world.thread.frames = slots ++ m.world.thread.frames
  opening : Opening m.context here.context here.control new slots

/-- How a step begins, here and on another stack. -/
inductive Begins (m : Machine) (s : List Frame) (xs : List (Option Fault)) (here there : Machine) : Prop
  | ends (finishes : Finishes m s xs here there)
  | opens (new : List Frame) (slots : List (Option Fault)) (opened : Opened m here new slots)
      (same : there = here.onto (new ++ s) (slots ++ xs))

variable {m here there : Machine} {s : List Frame} {xs : List (Option Fault)}

theorem begins_stuck (m : Machine) (s : List Frame) (xs : List (Option Fault)) (a : Answer) :
    Begins m s xs (m.finish a) ((m.onto s xs).finish a) :=
  .ends (finishes_stuck m s xs a)

/-- What does not see the slots keeps them. -/
theorem frames_of_blind {W : World → World} {w : World}
    (blind : ∀ xs, W (w.withSlots xs) = (W w).withSlots xs) :
    (W w).thread.frames = w.thread.frames := by
  have same := blind w.thread.frames
  rw [World.withSlots_frames] at same
  rw [same]
  rfl

/-! ## The native interface -/

theorem Blind.givePointer (blind : Blind m s xs here there) (name : Option VarName) (n : NativeId) :
    Begins m s xs (here.givePointer name n) (there.givePointer name n) := by
  unfold Machine.givePointer
  split
  · exact .ends ((blind.assign _ _).finish _)
  · exact .ends (blind.finish _)

theorem Blind.giveNew (blind : Blind m s xs here there) (name : Option VarName) (o : Native) :
    Begins m s xs (here.giveNew name o) (there.giveNew name o) := by
  have made : there.world.allocNative o =
      ((here.world.allocNative o).1, (here.world.allocNative o).2.withSlots xs) := by
    rw [blind.same, onto_world, World.allocNative_withSlots]
  unfold Machine.giveNew
  rw [made]
  exact (blind.world rfl).givePointer name _

theorem begins_giveSame (m : Machine) (name p : Option VarName) :
    Begins m s xs (m.giveSame name p) ((m.onto s xs).giveSame name p) := by
  refine withPointer_onto (begins_stuck m s xs) fun n? => ?_
  cases n? with
  | none => exact begins_stuck m s xs _
  | some n => exact (blind_self m s xs).givePointer name n

theorem Blind.deleteUnguarded (blind : Blind m s xs here there) (p : Option NativeId) :
    Begins m s xs (here.deleteUnguarded p) (there.deleteUnguarded p) := by
  cases p with
  | none => exact .ends (blind.finish _)
  | some n =>
      refine .ends ((blind.world ?_).finish _)
      rw [blind.same, onto_world, World.deleteNative_withSlots]

theorem begins_deleteMemoryStep (m : Machine) (p : Option NativeId) :
    Begins m s xs (m.deleteMemoryStep p) ((m.onto s xs).deleteMemoryStep p) := by
  cases p with
  | none => exact .ends (((blind_self m s xs).world (World.guard_withSlots _ xs _)).finish _)
  | some n => exact .ends (((blind_self m s xs).world (World.deleteMemory_withSlots _ xs n)).finish _)

/-- Deleting a function can start the finalizer of a native callback. -/
theorem begins_deleteFunction (m : Machine) (p : Option NativeId) :
    Begins m s xs (m.deleteFunction p) ((m.onto s xs).deleteFunction p) := by
  cases p with
  | none => exact .ends (((blind_self m s xs).world (World.guard_withSlots _ xs _)).finish _)
  | some n =>
      have deleted := (blind_self m s xs).world (World.deleteFunc_withSlots m.world xs n)
      have kept : (m.world.deleteFunc n).thread.frames = m.world.thread.frames :=
        frames_of_blind (W := fun w => w.deleteFunc n) fun xs => World.deleteFunc_withSlots m.world xs n
      unfold Machine.deleteFunction
      simp only [onto_world, World.nativeFunc?_withSlots]
      split
      · next code _ =>
          split
          · refine .opens [_, _] [] ⟨rfl, kept, .finalizer code.label _⟩ ?_
            rw [World.deleteFunc_withSlots]
            rfl
          · exact .ends (deleted.finish _)
      · exact .ends (deleted.finish _)

theorem begins_nativeMemoryNew (m : Machine) (name : Option VarName) (store type : Option NativeId) :
    Begins m s xs (m.nativeMemoryNew name store type)
      ((m.onto s xs).nativeMemoryNew name store type) := by
  have guarded := (blind_self m s xs).world (World.guard_withSlots m.world xs .memoryNew)
  have native : (World.native? ((m.onto s xs).withWorld ((m.onto s xs).world.guard .memoryNew)).world) =
      (m.withWorld (m.world.guard .memoryNew)).world.native? := by
    funext n
    show ((m.world.withSlots xs).guard .memoryNew).native? n = _
    rw [World.guard_withSlots]
    rfl
  unfold Machine.nativeMemoryNew
  dsimp only
  rw [native]
  split
  · next n limits _ =>
      have made : ((m.onto s xs).withWorld ((m.onto s xs).world.guard .memoryNew)).world.createNativeMemory
          n limits = (((m.world.guard .memoryNew).createNativeMemory n limits).1,
            ((m.world.guard .memoryNew).createNativeMemory n limits).2.withSlots xs) := by
        show ((m.world.withSlots xs).guard .memoryNew).createNativeMemory n limits = _
        rw [World.guard_withSlots, World.createNativeMemory_withSlots]
      have here : (m.withWorld (m.world.guard .memoryNew)).world.createNativeMemory n limits =
          (m.world.guard .memoryNew).createNativeMemory n limits := rfl
      rw [made, here]
      obtain ⟨created, w⟩ := (m.world.guard .memoryNew).createNativeMemory n limits
      cases created with
      | some n => exact ((blind_self m s xs).world rfl).givePointer name n
      | none => exact .ends (((blind_self m s xs).world rfl).finish _)
  · exact .ends (guarded.finish _)

/-- A step of the native interface sees neither the stack nor the slots. -/
theorem begins_native (m : Machine) (name : Option VarName) (step : NativeStep) :
    Begins m s xs (m.native name step) ((m.onto s xs).native name step) := by
  have self := blind_self m s xs
  have stuck := begins_stuck m s xs
  have native : (m.onto s xs).world.native? = m.world.native? := rfl
  have kind : (m.onto s xs).world.externKind? = m.world.externKind? := rfl
  cases step with
  | engineNew config =>
      cases config with
      | none => exact stuck _
      | some config => exact self.giveNew name _
  | engineDelete | funcTypeDelete | memoryTypeDelete | trapDelete =>
      exact withPointer_onto stuck fun n? => self.deleteUnguarded n?
  | storeNew =>
      unfold Machine.native
      refine withPointer_onto stuck fun n? => ?_
      rw [native]
      split
      · exact self.giveNew name _
      · exact stuck _
  | storeDelete =>
      exact withPointer_onto stuck fun n? =>
        (self.world (World.guard_withSlots _ xs _)).deleteUnguarded n?
  | funcTypeNew params results =>
      unfold Machine.native
      dsimp only
      split
      · exact self.giveNew name _
      · exact stuck _
  | funcTypeParams | funcTypeResults | trapCode =>
      refine withObject_onto stuck fun n o => ?_
      cases o <;> exact stuck _
  | memoryTypeNew limits =>
      cases limits with
      | none => exact stuck _
      | some l =>
          unfold Machine.native
          dsimp only
          split
          · exact stuck _
          · exact self.giveNew name _
  | memoryTypeLimits =>
      refine withObject_onto stuck fun n o => ?_
      cases o <;> exact stuck _
  | memoryNew =>
      exact withPointer_onto stuck fun store => withPointer_onto stuck fun type =>
        begins_nativeMemoryNew m name store type
  | memoryType => exact withNativeMemory_onto stuck fun n mem => self.giveNew name _
  | memoryData | memoryDataSize | memorySize => exact withNativeMemory_onto stuck fun n mem => stuck _
  | memoryGrow p delta =>
      refine withNativeMemory_onto stuck fun n mem => ?_
      rw [onto_world, World.growNative_withSlots]
      exact .ends ((self.world rfl).finish _)
  | memoryAsExtern | funcAsExtern => exact begins_giveSame m name _
  | memoryDelete => exact withPointer_onto stuck fun n? => begins_deleteMemoryStep m n?
  | memoryPoke => exact withNativeMemory_onto stuck fun n mem => .ends ((self.world rfl).finish _)
  | externKind =>
      refine withObject_onto stuck fun n o => ?_
      split
      · exact stuck _
      · exact stuck _
  | externAsFunc | externAsMemory =>
      refine withObject_onto stuck fun n o => ?_
      split
      · exact self.givePointer name n
      · exact stuck _
  | externDelete =>
      unfold Machine.native
      refine withPointer_onto stuck fun n? => ?_
      rw [kind]
      split
      · exact begins_deleteFunction m n?
      · exact begins_deleteMemoryStep m n?
      · exact stuck _
  | funcType => exact withNativeFunc_onto stuck fun n f => self.giveNew name _
  | funcParamArity | funcResultArity => exact withNativeFunc_onto stuck fun n f => stuck _
  | funcDelete => exact withPointer_onto stuck fun n? => begins_deleteFunction m n?
  | interruptNew =>
      unfold Machine.native
      refine withPointer_onto stuck fun n? => ?_
      have guarded := self.world (World.guard_withSlots m.world xs .interruptNew)
      cases n? with
      | none => exact .ends (guarded.finish _)
      | some n => exact guarded.giveNew name _
  | interruptRequest =>
      exact withObject_onto stuck fun n o =>
        .ends ((self.world (World.requestInterrupt_withSlots _ xs n)).finish _)
  | interruptDelete =>
      exact withPointer_onto stuck fun n? =>
        (self.world (World.guard_withSlots _ xs _)).deleteUnguarded n?
  | trapNew => exact withPointer_onto stuck fun n? => self.giveNew name _
  | trapMessage =>
      unfold Machine.native
      refine withPointer_onto stuck fun n? => ?_
      rw [native]
      split
      · exact stuck _
      · exact stuck _
  | slotText | blankSlot | constants => exact stuck _

theorem begins_nativeFunc (m : Machine) (name store type : Option VarName) (code : NativeCode) :
    Begins m s xs (m.nativeFunc name store type code)
      ((m.onto s xs).nativeFunc name store type code) := by
  have stuck := begins_stuck m s xs
  have guarded := (blind_self m s xs).world (World.guard_withSlots m.world xs .funcNew)
  have native : (World.native? ((m.onto s xs).withWorld ((m.onto s xs).world.guard .funcNew)).world) =
      (m.withWorld (m.world.guard .funcNew)).world.native? := by
    funext n
    show ((m.world.withSlots xs).guard .funcNew).native? n = _
    rw [World.guard_withSlots]
    rfl
  refine withPointer_onto stuck fun store? => withPointer_onto stuck fun type? => ?_
  dsimp only
  rw [native]
  split
  · exact guarded.giveNew name _
  · exact .ends (guarded.finish _)

theorem begins_nativeCall (m : Machine) (name func : Option VarName) (args : RawArray (Slot Empty))
    (slots : SlotArray) :
    Begins m s xs (m.nativeCall name func args slots) ((m.onto s xs).nativeCall name func args slots) :=
  withNativeFunc_onto (begins_stuck m s xs) fun n _ =>
    .opens [.nativeCall name] [] ⟨rfl, rfl, .nativeCall name n _ slots⟩ rfl

/-! ## Calls -/

/-- How a call begins, here and on another stack: it is over at once, or it has opened its frame and its
slot. -/
inductive BeginsCall (m : Machine) (s : List Frame) (xs : List (Option Fault)) (here there : Machine) :
    Prop
  | ends (finishes : Finishes m s xs here there)
  | opens (c : HostCall) (n : NativeId) (args : List (Slot ObjId)) (slots : SlotArray)
      (stack : here.stack = .hostCall c :: m.stack)
      (frames : here.world.thread.frames = none :: m.world.thread.frames)
      (context : here.context = m.context) (control : here.control = .enter n args slots)
      (same : there = here.onto (.hostCall c :: s) (none :: xs))

theorem BeginsCall.begins (begins : BeginsCall m s xs here there) : Begins m s xs here there := by
  cases begins with
  | ends finishes => exact .ends finishes
  | opens c n args slots stack frames context control same =>
      refine .opens [.hostCall c] [none] ⟨stack, frames, ?_⟩ same
      rw [context, control]
      exact .call c n args slots

theorem beginsCall_stuck (m : Machine) (s : List Frame) (xs : List (Option Fault)) (a : Answer) :
    BeginsCall m s xs (m.finish a) ((m.onto s xs).finish a) :=
  .ends (finishes_stuck m s xs a)

theorem Blind.startCall (blind : Blind m s xs here there) (stack : here.stack = m.stack)
    (frames : here.world.thread.frames = m.world.thread.frames) (context : here.context = m.context)
    (native : NativeId) (store : ObjId) (c : CallRequest) :
    BeginsCall m s xs (here.startCall native store c) (there.startCall native store c) := by
  have flushed : there.world.flush store = (here.world.flush store).withSlots xs := by
    rw [blind.same, onto_world, World.flush_withSlots]
  unfold Machine.startCall
  dsimp only
  rw [flushed]
  split
  · exact .ends ((blind.world (World.releaseAll_withSlots xs _ _)).complete _)
  · have kept : ((here.world.flush store).encodeArgs c.args).2.thread.frames =
        m.world.thread.frames :=
      (frames_of_blind (W := fun w => ((w.flush store).encodeArgs c.args).2) fun xs => by
        rw [World.flush_withSlots, World.encodeArgs_withSlots]).trans frames
    refine .opens ⟨c, c.args.map Slot.ofVal⟩ _ _ _ (congrArg _ stack) (congrArg _ kept) context rfl ?_
    rw [World.encodeArgs_withSlots, blind.same]
    rfl

/-- A call whose callee is known begins with counting what it holds. -/
theorem beginsCall_request (m : Machine) (s : List Frame) (xs : List (Option Fault)) (id : ObjId)
    (h : Handle) (args : List Operand) (request : List (Val ObjId) → CallRequest) :
    let called (n : Machine) := n.withOperands args fun ss =>
      (n.withWorld ((n.world.retain id).retainAll (Val.refs (TypeList.encode ss)))).startCall h.native
        h.store (request (TypeList.encode ss))
    BeginsCall m s xs (called m) (called (m.onto s xs)) := by
  refine withOperands_onto (beginsCall_stuck m s xs) fun ss => ?_
  have counted := (blind_self m s xs).world (World.retainAll_withSlots xs
    (Val.refs (TypeList.encode ss)) (m.world.retain id))
  exact counted.startCall rfl (frames_of_blind (W := fun w => (w.retain id).retainAll _)
    fun xs => World.retainAll_withSlots xs _ (m.world.retain id)) rfl _ _ _

theorem beginsCall_call (m : Machine) (v : VarName) (args : List Operand) (bind : List VarName) :
    BeginsCall m s xs (m.call v args bind) ((m.onto s xs).call v args bind) := by
  refine withHandle_onto (beginsCall_stuck m s xs) fun item id h => ?_
  split
  · exact beginsCall_request m s xs id h args fun vals => ⟨id, _, vals, bind, none⟩
  · exact beginsCall_stuck m s xs _

theorem beginsCall_typedCall (m : Machine) (v : VarName) (args : List Operand) (bind : List VarName) :
    BeginsCall m s xs (m.typedCall v args bind) ((m.onto s xs).typedCall v args bind) := by
  refine withHandle_onto (beginsCall_stuck m s xs) fun item id h => ?_
  split
  · exact beginsCall_request m s xs id h args fun vals => ⟨id, _, vals, bind, some _⟩
  · exact beginsCall_stuck m s xs _

/-! ## All steps -/

theorem begins_branch (m : Machine) (a : Operand) (op : Comparison) (b : Operand) (yes no : Block) :
    Begins m s xs (m.branch a op b yes no) ((m.onto s xs).branch a op b yes no) := by
  refine withOperand_onto (begins_stuck m s xs) fun x =>
    withOperand_onto (begins_stuck m s xs) fun y => ?_
  split
  · exact .opens [_, _] [] ⟨rfl, rfl, .branch _ _⟩ rfl
  · exact begins_stuck m s xs _

theorem begins_loop (m : Machine) (n : Nat) (body : Block) :
    Begins m s xs (m.loop n body) ((m.onto s xs).loop n body) := by
  cases n with
  | zero => exact begins_stuck m s xs _
  | succ n => exact .opens [_, _] [] ⟨rfl, rfl, .loop n body⟩ rfl

/-- Every step but one that starts a thread begins on any stack and over any slots as it does here. -/
theorem begins_begin (m : Machine) (g : Guard) {step : Step} (plain : ∀ body, step ≠ .thread body) :
    Begins m s xs (m.begin g step) ((m.onto s xs).begin g step) := by
  cases step with
  | plain a => exact .ends (finishes_perform m g a)
  | func name store shape label quiet captures body =>
      exact .ends (finishes_newFunc m name store _ captures)
  | call f args bind => exact (beginsCall_call m f args bind).begins
  | typedCall f args bind => exact (beginsCall_typedCall m f args bind).begins
  | branch a op b yes no => exact begins_branch m a op b yes no
  | loop n body => exact begins_loop m n body
  | thread body => exact absurd rfl (plain body)
  | native name step => exact begins_native m name step
  | nativeFunc name store type => exact begins_nativeFunc m name store type _
  | nativeCall name f args slots => exact begins_nativeCall m name f args slots

/-! ## One beginning for all stacks -/

theorem Opening.not_ended {ctx ctx' : Context} {control : Control} {new : List Frame}
    {slots : List (Option Fault)} (opening : Opening ctx ctx' control new slots) (c : Completion) :
    control ≠ .complete c := by
  cases opening <;> exact nofun

theorem Opened.unique {new new' : List Frame} {slots slots' : List (Option Fault)}
    (first : Opened m here new slots) (second : Opened m here new' slots') :
    new = new' ∧ slots = slots' :=
  ⟨List.append_cancel_right (first.stack.symm.trans second.stack),
    List.append_cancel_right (first.frames.symm.trans second.frames)⟩

end HostEmbedding.Machine
