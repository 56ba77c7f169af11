import HostEmbedding.Proofs.CallbackOffers
import HostEmbedding.Proofs.Interrupts
import HostEmbedding.Proofs.Machine.Callbacks

/-!
# Decisions of the gate

A call that enters the engine is refused for the first reason that applies to it, and nothing comes of it
but its trap; only a pending interrupt that was the reason is taken. If no reason applies, the callback of
the function runs once, and the call is answered with what it returned.
-/

namespace HostEmbedding

/-! ## Reasons -/

inductive Refusal where
  | interrupt
  | count
  | kind (index : Nat)
  | depth
  deriving DecidableEq

def WrongKind (codes : List UInt8) (args : List (Slot ObjId)) (i : Nat) : Prop :=
  ∃ a code, args[i]? = some a ∧ codes[i]? = some code ∧ a.code ≠ code

namespace Refusal

inductive Before : Refusal → Refusal → Prop
  | interrupt {r : Refusal} (other : r ≠ .interrupt) : Before .interrupt r
  | countKind (i : Nat) : Before .count (.kind i)
  | countDepth : Before .count .depth
  | kind {i j : Nat} (less : i < j) : Before (.kind i) (.kind j)
  | kindDepth (i : Nat) : Before (.kind i) .depth

inductive Applies (f : NativeFunc) (s : NativeStore) (args : List (Slot ObjId)) (slots : Nat) :
    Refusal → Prop
  | interrupt (pending : s.interrupt = true) : Applies f s args slots .interrupt
  | count (differ : args.length ≠ f.type.params.length ∨ slots ≠ f.type.results.length) :
      Applies f s args slots .count
  | kind {i : Nat} (wrong : WrongKind f.type.params args i) : Applies f s args slots (.kind i)
  | depth (exhausted : s.config.maxCallDepth ≤ s.depth) : Applies f s args slots .depth

structure First (f : NativeFunc) (s : NativeStore) (args : List (Slot ObjId)) (slots : Nat) (r : Refusal) :
    Prop where
  applies : Applies f s args slots r
  before : ∀ r', Applies f s args slots r' → r' = r ∨ r.Before r'

def trap (f : NativeFunc) (args : List (Slot ObjId)) (slots : Nat) : Refusal → NativeTrap
  | .interrupt => .ofCode .interrupt
  | .count => .wrongArity f.type.params.length f.type.results.length args.length slots
  | .kind i => .wrongKind i
  | .depth => .ofCode .stackOverflow

/-- A refusal leaves the world as it is, but takes an interrupt that was the reason. -/
def leaves (w : World) (store : NativeId) : Refusal → World
  | .interrupt => w.modifyNativeStore store fun s => { s with interrupt := false }
  | _ => w

variable {f : NativeFunc} {s : NativeStore} {args : List (Slot ObjId)} {slots : Nat} {r r' : Refusal}

theorem Before.asymm (before : r.Before r') : ¬ r'.Before r := by
  intro after
  cases before with
  | interrupt other =>
      cases after
      exact other rfl
  | kind less =>
      cases after with
      | kind more => exact absurd more (Nat.lt_asymm less)
  | countKind | countDepth | kindDepth => cases after

theorem First.unique (first : First f s args slots r) (second : First f s args slots r') : r = r' := by
  rcases first.before r' second.applies with same | less
  · exact same.symm
  · exact (second.before r first.applies).resolve_right less.asymm

/-- The trap of a call tells the reason, and which argument it is about. -/
theorem trap_injective (same : r.trap f args slots = r'.trap f args slots) : r = r' := by
  have codes : NativeTrap.ofCode .interrupt ≠ .ofCode .stackOverflow := by decide
  -- The messages about a count and about a kind differ at the first letter after the preamble.
  have apart (params results passed slots i : Nat) :
      NativeTrap.wrongArity params results passed slots ≠ .wrongKind i := by
    intro same
    have letter := congrArg (fun t => t.message.toList[11]?) same
    simp only [NativeTrap.wrongArity, NativeTrap.wrongKind, NativeTrap.ofMessage, String.toList_append,
      List.append_assoc] at letter
    exact absurd (Option.some.inj letter) (by decide)
  cases r with
  | interrupt =>
      cases r' with
      | interrupt => rfl
      | depth => exact absurd same codes
      | count | kind => exact nomatch congrArg NativeTrap.code same
  | count =>
      cases r' with
      | count => rfl
      | kind i => exact absurd same (apart _ _ _ _ i)
      | interrupt | depth => exact nomatch congrArg NativeTrap.code same
  | kind i =>
      cases r' with
      | kind j =>
          have text := congrArg NativeTrap.message same
          simp only [trap, NativeTrap.wrongKind, NativeTrap.ofMessage, String.append_left_inj,
            String.append_right_inj] at text
          rw [Nat.repr_injective text]
      | count => exact absurd same.symm (apart _ _ _ _ i)
      | interrupt | depth => exact nomatch congrArg NativeTrap.code same
  | depth =>
      cases r' with
      | depth => rfl
      | interrupt => exact absurd same.symm codes
      | count | kind => exact nomatch congrArg NativeTrap.code same

end Refusal

/-! ## The checks in order -/

/-- The position that is found is the first one of a wrong kind. -/
theorem firstWrongKind_spec (codes : List UInt8) (args : List (Slot ObjId)) :
    match firstWrongKind codes args with
    | some i => WrongKind codes args i ∧ ∀ j < i, ¬ WrongKind codes args j
    | none => ∀ i, ¬ WrongKind codes args i := by
  induction codes generalizing args with
  | nil =>
      rintro i ⟨a, code, -, declared, -⟩
      cases declared
  | cons c codes ih =>
      cases args with
      | nil =>
          rintro i ⟨a, code, passed, -⟩
          cases passed
      | cons a args =>
          have head : WrongKind (c :: codes) (a :: args) 0 ↔ a.code ≠ c := by
            simp [WrongKind]
          have tail (i : Nat) : WrongKind (c :: codes) (a :: args) (i + 1) ↔ WrongKind codes args i :=
            Iff.rfl
          unfold firstWrongKind
          by_cases right : a.code = c
          · rw [if_pos right]
            have later := ih args
            cases found : firstWrongKind codes args with
            | some i =>
                rw [found] at later
                refine ⟨later.1, fun j less => ?_⟩
                cases j with
                | zero => exact fun wrong => head.mp wrong right
                | succ j => exact later.2 j (Nat.lt_of_succ_lt_succ less)
            | none =>
                rw [found] at later
                rintro (_ | i)
                · exact fun wrong => head.mp wrong right
                · exact later i
          · rw [if_neg right]
            exact ⟨head.mpr right, fun j less => absurd less (Nat.not_lt_zero j)⟩

namespace NativeFunc

variable {f : NativeFunc} {s : NativeStore} {args : List (Slot ObjId)} {slots : Nat}

def reason? (f : NativeFunc) (s : NativeStore) (args : List (Slot ObjId)) (slots : Nat) : Option Refusal :=
  if s.interrupt then some .interrupt
  else if args.length ≠ f.type.params.length ∨ slots ≠ f.type.results.length then some .count
  else match firstWrongKind f.type.params args with
    | some i => some (.kind i)
    | none => if s.config.maxCallDepth ≤ s.depth then some .depth else none

/-- The reason that is found is the first one that applies. -/
theorem reason?_spec (f : NativeFunc) (s : NativeStore) (args : List (Slot ObjId)) (slots : Nat) :
    match f.reason? s args slots with
    | some r => Refusal.First f s args slots r
    | none => ∀ r, ¬ Refusal.Applies f s args slots r := by
  have kinds := firstWrongKind_spec f.type.params args
  unfold reason?
  by_cases pending : s.interrupt = true
  · rw [if_pos pending]
    exact ⟨.interrupt pending, fun r' _ => or_iff_not_imp_left.mpr .interrupt⟩
  rw [if_neg pending]
  by_cases differ : args.length ≠ f.type.params.length ∨ slots ≠ f.type.results.length
  · rw [if_pos differ]
    refine ⟨.count differ, fun r' applies => ?_⟩
    cases applies with
    | interrupt raised => exact absurd raised pending
    | count => exact .inl rfl
    | kind => exact .inr (.countKind _)
    | depth => exact .inr .countDepth
  rw [if_neg differ]
  cases found : firstWrongKind f.type.params args with
  | some i =>
      rw [found] at kinds
      refine ⟨.kind kinds.1, fun r' applies => ?_⟩
      cases applies with
      | interrupt raised => exact absurd raised pending
      | count other => exact absurd other differ
      | @kind j wrong =>
          rcases Nat.lt_trichotomy i j with less | rfl | more
          · exact .inr (.kind less)
          · exact .inl rfl
          · exact absurd wrong (kinds.2 j more)
      | depth => exact .inr (.kindDepth i)
  | none =>
      rw [found] at kinds
      dsimp only
      by_cases exhausted : s.config.maxCallDepth ≤ s.depth
      · rw [if_pos exhausted]
        refine ⟨.depth exhausted, fun r' applies => ?_⟩
        cases applies with
        | interrupt raised => exact absurd raised pending
        | count other => exact absurd other differ
        | kind wrong => exact absurd wrong (kinds _)
        | depth => exact .inl rfl
      · rw [if_neg exhausted]
        intro r applies
        cases applies with
        | interrupt raised => exact pending raised
        | count other => exact differ other
        | kind wrong => exact kinds _ wrong
        | depth full => exact exhausted full

theorem reason?_of_first {r : Refusal} (first : Refusal.First f s args slots r) :
    f.reason? s args slots = some r := by
  have spec := f.reason?_spec s args slots
  cases found : f.reason? s args slots with
  | some r' =>
      rw [found] at spec
      rw [spec.unique first]
  | none =>
      rw [found] at spec
      exact absurd first.applies (spec r)

/-- Where no reason applies, the store is not interrupted and does not refuse the call. -/
theorem admitted_of_none (none : ∀ r, ¬ Refusal.Applies f s args slots r) :
    s.interrupt = false ∧ f.refusal? s args slots = Option.none := by
  have arity : ¬ (args.length ≠ f.type.params.length ∨ slots ≠ f.type.results.length) := fun differ =>
    none _ (.count differ)
  have kinds := firstWrongKind_spec f.type.params args
  refine ⟨Bool.eq_false_of_not_eq_true fun pending => none _ (.interrupt pending), ?_⟩
  unfold refusal?
  rw [if_neg arity]
  cases found : firstWrongKind f.type.params args with
  | some i =>
      rw [found] at kinds
      exact absurd (.kind kinds.1) (none (.kind i))
  | none => exact if_neg fun exhausted => none _ (.depth exhausted)

end NativeFunc

/-- The gate refuses a call for the reason that it finds, and otherwise counts it in its store. -/
theorem World.Reaches.tryEnter_eq {w : World} {n : NativeId} {f : NativeFunc} {s : NativeStore}
    (reaches : w.Reaches n f s) (args : List (Slot ObjId)) (slots : Nat) : w.tryEnter n args slots =
      match f.reason? s args slots with
      | some r => (.error (r.trap f args slots), r.leaves w f.store)
      | none => (.ok ⟨f, s.depth + 1⟩, w.count f.store) := by
  rw [reaches.tryEnter]
  unfold NativeFunc.reason? NativeFunc.refusal?
  by_cases pending : s.interrupt = true
  · rw [if_pos pending, if_pos pending]
    rfl
  rw [if_neg pending, if_neg pending]
  by_cases differ : args.length ≠ f.type.params.length ∨ slots ≠ f.type.results.length
  · rw [if_pos differ, if_pos differ]
    rfl
  rw [if_neg differ, if_neg differ]
  cases firstWrongKind f.type.params args with
  | some i => rfl
  | none =>
      dsimp only
      by_cases exhausted : s.config.maxCallDepth ≤ s.depth
      · rw [if_pos exhausted, if_pos exhausted]
        rfl
      · rw [if_neg exhausted, if_neg exhausted]

/-! ## Refusals -/

namespace Refusal

variable (w : World) (store : NativeId) (r : Refusal)

theorem leaves_heap : (r.leaves w store).heap = w.heap := by
  cases r <;> rfl

theorem leaves_events : (r.leaves w store).events = w.events := by
  cases r <;> rfl

theorem leaves_thread : (r.leaves w store).thread = w.thread := by
  cases r <;> rfl

/-- A refusal changes no native object, but the flag of the store if it was the reason. -/
theorem leaves_native (x : NativeId) : (r.leaves w store).nativeObject? x =
    if r = .interrupt ∧ x = store then (w.nativeObject? x).map (fun
      | .store s => .store { s with interrupt := false }
      | o => o)
    else w.nativeObject? x := by
  cases r with
  | interrupt =>
      refine (World.nativeObject?_modifyNativeStore w store _ x).trans ?_
      by_cases here : x = store
      · subst here
        exact (if_pos rfl).trans (if_pos ⟨rfl, rfl⟩).symm
      · exact (if_neg here).trans (if_neg fun both => here both.2).symm
  | count | kind | depth => exact (if_neg fun both => nomatch both.1).symm

theorem leaves_depthOf : (r.leaves w store).depthOf = w.depthOf := by
  funext x
  unfold World.depthOf
  rw [leaves_native]
  split
  · cases w.nativeObject? x with
    | none => rfl
    | some o => cases o <;> rfl
  · rfl

end Refusal

namespace Machine

variable {m : Machine} {n : NativeId} {args : List (Slot ObjId)} {slots : SlotArray} {f : NativeFunc}
variable {s : NativeStore}

/-- A call is refused for a reason: its trap is the answer, and nothing else is left of the call. -/
structure RefusedFor (m : Machine) (f : NativeFunc) (args : List (Slot ObjId)) (slots : SlotArray)
    (r : Refusal) (next : Machine) : Prop where
  /-- The answer is a trap, so no result slot is written. -/
  answer : next.control = .engine (.error (r.trap f args slots.count))
  /-- No host code has started: what runs is what has called, and nothing was shown. -/
  context : next.context = m.context
  stack : next.stack = m.stack
  globals : next.globals = m.globals
  events : next.world.events = m.world.events
  thread : next.world.thread = m.world.thread
  /-- Every object is as it was, the arguments among them, with the same count. -/
  heap : next.world.heap = m.world.heap
  strong : ∀ id, next.world.strong id = m.world.strong id
  /-- No call is counted. -/
  depth : ∀ store, next.world.depthOf store = m.world.depthOf store
  /-- The flag of a store is as it was, unless it was the reason, when it is lowered. -/
  flag : ∀ store st, m.world.nativeObject? store = some (.store st) →
    next.world.nativeObject? store = some (.store
      { st with interrupt := if r = .interrupt ∧ store = f.store then false else st.interrupt })
  /-- No other native object has changed. -/
  natives : ∀ x o, m.world.nativeObject? x = some o → (∀ st, o ≠ .store st) →
    next.world.nativeObject? x = some o

/-- What is known of a call that is refused. -/
theorem refusedFor_leaves (m : Machine) (f : NativeFunc) (args : List (Slot ObjId)) (slots : SlotArray)
    (r : Refusal) : RefusedFor m f args slots r
      ((m.withWorld (r.leaves m.world f.store)).refused (r.trap f args slots.count)) where
  answer := rfl
  context := rfl
  stack := rfl
  globals := rfl
  events := r.leaves_events m.world f.store
  thread := r.leaves_thread m.world f.store
  heap := r.leaves_heap m.world f.store
  strong id := by
    have heap : ((m.withWorld (r.leaves m.world f.store)).refused
        (r.trap f args slots.count)).world.heap = m.world.heap := r.leaves_heap m.world f.store
    unfold World.strong World.entry?
    rw [heap]
  depth store := congrFun (r.leaves_depthOf m.world f.store) store
  flag store st found := by
    refine (r.leaves_native m.world f.store store).trans ?_
    rw [found]
    split <;> rfl
  natives x o found other := by
    refine (r.leaves_native m.world f.store x).trans ?_
    rw [found]
    cases o with
    | store st => exact absurd rfl (other st)
    | _ => split <;> rfl

theorem EntersEngine.refusedFor (enters : m.EntersEngine n args slots f s) {r : Refusal}
    (first : Refusal.First f s args slots.count r) : RefusedFor m f args slots r m.step := by
  have refused : m.enter n args slots =
      (m.withWorld (r.leaves m.world f.store)).refused (r.trap f args slots.count) := by
    unfold Machine.enter
    rw [enters.reaches.tryEnter_eq, NativeFunc.reason?_of_first first]
    rfl
  rw [step_enter enters.alive enters.control, refused]
  exact refusedFor_leaves m f args slots r

/-! ## Callbacks -/

end Machine

namespace World

variable {w : World} {env : ObjId}

/-- The closure that host code runs from and its code, as long as it is attached and its store is there. -/
def hostCode? (w : World) (env : ObjId) : Option (ObjId × HostCode) :=
  match w.entry? env with
  | some ⟨_, .env callback _ store⟩ =>
      if w.strong store = 0 then none else callback.bind fun c => (w.closure? c).map fun p => (c, p.1)
  | _ => none

/-- Counting an object that is alive once more changes no closure. -/
theorem closure?_retain_of_alive {x : ObjId} (alive : w.strong x ≠ 0) (c : ObjId) :
    (w.retain x).closure? c = w.closure? c := by
  have object : (w.retain x).object? c = w.object? c := by
    unfold World.strong at alive
    unfold World.object? World.retain
    rw [entry?_modifyEntry]
    by_cases here : c = x
    · subst here
      cases entry : w.entry? c with
      | none => simp
      | some e =>
          rw [entry] at alive
          simp [alive]
    · simp [here]
  unfold World.closure?
  rw [object]

/-- Host code that is there starts, and otherwise the callback returns a trap. -/
theorem enterHost_hostCode (w : World) (env : ObjId) (native : NativeId) (args : List (Slot ObjId))
    (depth : UInt32) (slots : Nat) :
    match w.hostCode? env with
    | some (c, code) => ∃ a v, w.enterHost env native args depth slots = (.ok a, v) ∧
        a.closure = c ∧ a.code = code
    | none => ∃ t v, w.enterHost env native args depth slots = (.error t, v) := by
  unfold hostCode? World.enterHost
  cases w.entry? env with
  | none => exact ⟨_, _, rfl⟩
  | some e =>
      obtain ⟨k, o⟩ := e
      cases o with
      | env callback type store =>
          dsimp only
          by_cases dead : w.strong store = 0
          · rw [if_pos dead, if_pos dead]
            exact ⟨_, _, rfl⟩
          · rw [if_neg dead, if_neg dead]
            simp only [closure?_retain_of_alive dead]
            cases callback.bind fun c => (w.closure? c).map fun p => (c, p.1) with
            | none => exact ⟨_, _, rfl⟩
            | some p =>
                dsimp only
                split
                · exact ⟨_, _, rfl, rfl, rfl⟩
                · exact ⟨_, _, rfl, rfl, rfl⟩
      | _ => exact ⟨_, _, rfl⟩

end World

namespace Machine

variable {m : Machine} {n : NativeId} {args : List (Slot ObjId)} {slots : SlotArray} {f : NativeFunc}
variable {s : NativeStore}

structure CallAnswered (m : Machine) (r : EngineResult) (next : Machine) : Prop where
  control : next.control = .engine r
  stack : next.stack = m.stack

/-- The call that was made in a state is in a host body, which has some steps to run. -/
structure InBody (m : Machine) (f : NativeFunc) (s : NativeStore) (args : List (Slot ObjId))
    (slots : SlotArray) (env : ObjId) (a : Activation) (body : Block) (next : Machine) : Prop where
  callback : f.callback = .host env
  code : m.world.hostCode? env = some (a.closure, a.code)
  native : a.native = f.store
  depth : a.depth = s.depth + 1
  given : Given a args slots
  context : next.context = .body a
  stack : next.stack = .block true 0 body :: .activation m.context :: m.stack

/-- An admitted call enters the callback of its function. -/
inductive Admits (m : Machine) (f : NativeFunc) (s : NativeStore) (args : List (Slot ObjId))
    (slots : SlotArray) (next : Machine) : Prop
  /-- The body of a host function starts. -/
  | body (env : ObjId) (a : Activation) (inBody : InBody m f s args slots env a a.code.body next)
      (ss : List (Scalar ObjId)) (decoded : a.code.shape.decode a.params = .ok ss)
      (control : next.control = .run)
  /-- The arguments cannot be decoded for the code of the function, and its body panics at once. -/
  | panics (env : ObjId) (a : Activation) (inBody : InBody m f s args slots env a [] next)
      (fault : Fault) (refused : a.code.shape.decode a.params = .error fault)
      (control : next.control = .complete (.panicked fault))
  /-- The host code of the function is gone, and its callback returns a trap itself. -/
  | gone (env : ObjId) (callback : f.callback = .host env) (code : m.world.hostCode? env = none)
      (message : String) (inert : World.Inert m.world next.world)
      (answers : CallAnswered m (.error (.ofMessage message)) next)
  /-- A native callback shows that it was called, and calls on. -/
  | callsOn (code : NativeCode) (callback : f.callback = .native code)
      (shown : next.world.events = callbackEvent code (s.depth + 1) args slots.available :: m.world.events)
      (control : ∃ callee results, next.control = .enter callee args ⟨results, false⟩)
      (stack : next.stack = .callback ⟨code, f.store, args, slots.available⟩ :: m.stack)
  /-- A native callback shows that it was called, and has returned. -/
  | replied (code : NativeCode) (callback : f.callback = .native code)
      (shown : next.world.events = callbackEvent code (s.depth + 1) args slots.available :: m.world.events)
      (answers : CallAnswered m (replyOf ⟨code, f.store, args, slots.available⟩) next)

/-- An admitted call of a host function runs the code that is there. -/
theorem enter_hostCode (reaches : m.world.Reaches n f s) (calm : s.interrupt = false)
    (admitted : f.refusal? s args slots.count = none) {env : ObjId} (callback : f.callback = .host env) :
    match m.world.hostCode? env with
    | some (c, code) => ∃ a, (m.enter n args slots).context = .body a ∧
        (m.enter n args slots).control = startOf a ∧ a.closure = c ∧ a.code = code
    | none => ∃ t, (m.enter n args slots).control = .engine (.error t) := by
  have code : (m.world.count f.store).hostCode? env = m.world.hostCode? env := rfl
  have spec := (m.world.count f.store).enterHost_hostCode env f.store args (s.depth + 1) slots.available
  unfold Machine.enter
  rw [reaches.tryEnter, calm, if_neg Bool.false_ne_true, admitted]
  dsimp only
  rw [callback]
  dsimp only
  rw [code] at spec
  cases found : m.world.hostCode? env with
  | none =>
      rw [found] at spec
      obtain ⟨t, v, gone⟩ := spec
      rw [gone]
      exact ⟨t, rfl⟩
  | some p =>
      rw [found] at spec
      obtain ⟨a, v, started, closure, code⟩ := spec
      rw [started]
      exact ⟨a, rfl, rfl, closure, code⟩

theorem EntersEngine.admits (enters : m.EntersEngine n args slots f s)
    (none : ∀ r, ¬ Refusal.Applies f s args slots.count r) : Admits m f s args slots m.step := by
  obtain ⟨calm, admitted⟩ := NativeFunc.admitted_of_none none
  have entry := m.entry n args slots
  rw [step_enter enters.alive enters.control]
  generalize entered : m.enter n args slots = next at entry ⊢
  cases entry with
  | missing none t same => exact absurd enters.reaches (none f s)
  | interrupted f' s' reaches pending same =>
      obtain ⟨rfl, rfl⟩ := enters.reaches.unique reaches
      cases pending.symm.trans calm
  | refused f' s' reaches calm t refusal same =>
      obtain ⟨rfl, rfl⟩ := enters.reaches.unique reaches
      cases refusal.symm.trans admitted
  | released f' s' reaches calm admitted env callback message w inert same =>
      obtain ⟨rfl, rfl⟩ := enters.reaches.unique reaches
      have code := enter_hostCode (m := m) reaches calm admitted callback
      rw [entered, same] at code
      rw [same]
      cases found : m.world.hostCode? env with
      | none => exact .gone env callback found message inert ⟨rfl, rfl⟩
      | some p =>
          rw [found] at code
          obtain ⟨a, -, control, -⟩ := code
          exact absurd control.symm (startOf_ne_engine a _)
  | replied f' s' reaches calm admitted code callback same =>
      obtain ⟨rfl, rfl⟩ := enters.reaches.unique reaches
      rw [same]
      exact .replied code callback rfl ⟨rfl, rfl⟩
  | callsOn f' s' reaches calm admitted code callback callee results same =>
      obtain ⟨rfl, rfl⟩ := enters.reaches.unique reaches
      rw [same]
      exact .callsOn code callback rfl ⟨callee, results, rfl⟩ rfl
  | starts f' s' reaches calm admitted env callback a w starts same =>
      obtain ⟨rfl, rfl⟩ := enters.reaches.unique reaches
      have control : (m.enter n args slots).control = startOf a := by rw [entered, same]
      have context : (m.enter n args slots).context = .body a := by rw [entered, same]
      have given := given_enter control context
      have code := enter_hostCode (m := m) reaches calm admitted callback
      rw [control, context] at code
      cases found : m.world.hostCode? env with
      | none =>
          rw [found] at code
          obtain ⟨t, answer⟩ := code
          exact absurd answer (startOf_ne_engine a _)
      | some p =>
          obtain ⟨c, code'⟩ := p
          rw [found] at code
          obtain ⟨b, body, -, rfl, rfl⟩ := code
          cases body
          have inBody : InBody m f s args slots env a a.steps next :=
            ⟨callback, found, starts.native, starts.depth, given, by rw [same], by rw [same]⟩
          have begins : next.control = startOf a := by rw [same]
          unfold startOf at begins
          unfold Activation.steps at inBody
          cases decoded : a.code.shape.decode a.params with
          | ok ss =>
              rw [decoded] at inBody begins
              exact .body env a inBody ss decoded begins
          | error fault =>
              rw [decoded] at inBody begins
              exact .panics env a inBody fault decoded begins

/-! ## Every run -/

/-- What the gate decides on a call that enters the engine, whatever the state. -/
structure Decides (m : Machine) : Prop where
  /-- There is one first reason that applies, or none applies at all. -/
  reasons : ∀ f s args slots, (∃! r, Refusal.First f s args slots r) ∨
    ∀ r, ¬ Refusal.Applies f s args slots r
  /-- The trap tells which one it is. -/
  told : ∀ f args slots, Function.Injective (Refusal.trap f args slots)
  /-- For that reason the call is refused. -/
  refused : ∀ n args slots f s r, m.EntersEngine n args slots f s →
    Refusal.First f s args slots.count r → RefusedFor m f args slots r m.step
  /-- Otherwise the callback of the function is entered. -/
  admitted : ∀ n args slots f s, m.EntersEngine n args slots f s →
    (∀ r, ¬ Refusal.Applies f s args slots.count r) → Admits m f s args slots m.step

theorem decides (m : Machine) : m.Decides where
  reasons f s args slots := by
    have spec := f.reason?_spec s args slots
    cases found : f.reason? s args slots with
    | some r =>
        rw [found] at spec
        exact .inl ⟨r, spec, fun r' first => first.unique spec⟩
    | none =>
        rw [found] at spec
        exact .inr spec
  told _ _ _ _ _ := Refusal.trap_injective
  refused _ _ _ _ _ _ enters := enters.refusedFor
  admitted _ _ _ _ _ enters := enters.admits

/-- What a call by pointer tells its step: the slots that were written, or a trap and no slots. -/
def toldOf : EngineResult → Answer
  | .ok written => .slots (shownSlots written)
  | .error t => .nativeTrap t

/-- How the calls of a run that are admitted are answered. -/
structure GateDecisions (run : Nat → Machine) : Prop where
  /-- A host body that was entered stays on the stack until it ends, and with the next transition its call
  is answered with what it delivers. -/
  body : ∀ k n args slots a body, (run k).control = .enter n args slots →
    (run (k + 1)).context = .body a →
    (run (k + 1)).stack = .block true 0 body :: .activation (run k).context :: (run k).stack →
    Until run (k + 1) (.activation (run k).context :: (run k).stack) fun i => ∃ locals how,
      (run i).BodyEnds { a with locals := locals } (run k).context (run k).stack how ∧
        CallAnswered (run k) ((run i).world.leaveHost { a with locals := locals } how).1 (run (i + 1)) ∧
        (run (i + 1)).context = (run k).context
  /-- A native callback that calls on stays on the stack until its own call has been answered. Then it
  returns the trap of that call, or its reply, and its call is answered with that. -/
  callback : ∀ k n args slots c, (run k).control = .enter n args slots →
    (run (k + 1)).stack = .callback c :: (run k).stack →
    Until run (k + 1) (.callback c :: (run k).stack) fun i => ∃ r,
      (run i).CallbackEnds c (run k).stack r ∧ CallAnswered (run k) (c.returns r) (run (i + 1))
  /-- A step that calls a function by pointer enters the engine, with no arguments if their array is
  null. -/
  asks : ∀ k g name p args slots n f, (run k).AtStep g (.nativeCall name p args slots) →
    (run k).objectNamed? p = some (n, .func f) → run (k + 1) = { run k with
      stack := .nativeCall name :: (run k).stack
      control := .enter n (args.toList.map (Slot.map Empty.elim)) slots }
  /-- It ends with the slots that the engine answers with, or with the trap and no slots. -/
  ends : ∀ k name below r, (run k).world.aborted = none → (run k).control = .engine r →
    (run k).stack = .nativeCall name :: below →
    (run (k + 1)).stack = below ∧ (run (k + 1)).control = .complete (.done (toldOf r))

/-- A step that calls a function by pointer. -/
theorem AtStep.nativeCall {g : Guard} {name p : Option VarName} {args : RawArray (Slot Empty)}
    (begins : m.AtStep g (.nativeCall name p args slots)) (named : m.objectNamed? p = some (n, .func f)) :
    m.step = { m with
      stack := .nativeCall name :: m.stack
      control := .enter n (args.toList.map (Slot.map Empty.elim)) slots } := by
  rw [begins.step_eq]
  show m.nativeCall name p args slots = _
  unfold Machine.nativeCall Machine.withNativeFunc
  rw [withObject_of_named named]

/-- The end of a call by pointer. -/
theorem step_nativeCall_engine {name : Option VarName} {below : List Frame} {r : EngineResult}
    (alive : m.world.aborted = none) (control : m.control = .engine r)
    (stack : m.stack = .nativeCall name :: below) :
    m.step.stack = below ∧ m.step.control = .complete (.done (toldOf r)) := by
  cases r with
  | error t => exact step_nativeCall alive control stack
  | ok written =>
      rw [step_engine alive control, deliverEngine_nativeCall stack]
      exact ⟨rfl, rfl⟩

/-- In every state of every run of every script, over the public interface or the native one, and in any
other state, the gate decides so, and on every run admitted calls are answered so. -/
theorem gateDecisions_after (level : Option LogLevel) (script : Block) :
    (∀ m : Machine, m.Decides) ∧ GateDecisions (after level script) := by
  refine ⟨decides, ?_⟩
  have steps := after_succ level script
  have inOrder := inOrder_after level script
  constructor
  case body =>
      intro k n args slots a body control context stack
      refine (body_until steps inOrder context stack).mono fun i ⟨locals, how, ends⟩ => ?_
      have step := ends.step_eq
      rw [← steps] at step
      exact ⟨locals, how, ends, ⟨by rw [step], by rw [step]⟩, by rw [step]⟩
  case callback =>
      intro k n args slots c control stack
      refine (callback_until steps inOrder stack).mono fun i ⟨r, ends⟩ => ?_
      obtain ⟨answer, rest, -⟩ := ends.step
      rw [← steps] at answer rest
      exact ⟨r, ends, answer, rest⟩
  case asks =>
      intro k g name p args slots n f begins named
      rw [steps]
      exact begins.nativeCall named
  case ends =>
      intro k name below r alive control stack
      rw [steps]
      exact step_nativeCall_engine alive control stack

end Machine

end HostEmbedding
