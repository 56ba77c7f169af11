import HostEmbedding.Proofs.CallDepth

/-!
# What a callback is offered

The gate compares the arguments of a call with the declared kinds, and the number of result slots that the
caller states with the declared number. A callback that is entered reads arguments of the declared kinds,
but the slots it may write are none if the caller's array is null, whatever number was stated.
-/

namespace HostEmbedding

/-! ## The checks of the gate -/

/-- No argument is of a wrong kind if each is of the declared one, in order. -/
theorem firstWrongKind_eq_none {codes : List UInt8} {args : List (Slot ObjId)}
    (count : args.length = codes.length) :
    firstWrongKind codes args = none ↔ args.map Slot.code = codes := by
  induction codes generalizing args with
  | nil =>
      obtain rfl := List.eq_nil_of_length_eq_zero count
      exact ⟨fun _ => rfl, fun _ => rfl⟩
  | cons c codes ih =>
      cases args with
      | nil => cases count
      | cons a args =>
          have later := ih (Nat.succ.inj count)
          unfold firstWrongKind
          rw [List.map_cons, List.cons.injEq, ← later]
          split
          · next same => simp [same]
          · next differ => simp [differ]

/-- What a callback of a function is entered with: arguments of the declared kinds, in order, and as many
result slots as are declared, unless the caller's array is null. -/
structure NativeFunc.Offered (f : NativeFunc) (args : List (Slot ObjId)) (slots : SlotArray) : Prop where
  kinds : args.map Slot.code = f.type.params
  stated : slots.count = f.type.results.length
  available : slots.available = if slots.isNull then 0 else f.type.results.length

namespace NativeFunc

variable {f : NativeFunc} {s : NativeStore} {args : List (Slot ObjId)} {slots : SlotArray}

theorem Offered.count (offered : f.Offered args slots) : args.length = f.type.params.length := by
  rw [← offered.kinds, List.length_map]

/-- A call is admitted exactly if its arguments and the stated number of slots are the declared ones and
the store has room for it. -/
theorem refusal?_eq_none :
    f.refusal? s args slots.count = none ↔ f.Offered args slots ∧ s.depth < s.config.maxCallDepth := by
  constructor
  · intro admitted
    refine ⟨?_, Machine.not_exhausted admitted⟩
    obtain ⟨count, stated⟩ := f.arity_of_admitted admitted
    unfold refusal? at admitted
    rw [if_neg (by simp [count, stated])] at admitted
    split at admitted
    · cases admitted
    · next kinds =>
        refine ⟨(firstWrongKind_eq_none count).mp kinds, stated, ?_⟩
        rw [SlotArray.available, stated]
  · rintro ⟨offered, room⟩
    unfold refusal?
    rw [if_neg (by simp [offered.count, offered.stated]),
      (firstWrongKind_eq_none offered.count).mpr offered.kinds]
    exact if_neg (UInt32.not_le.mpr room)

end NativeFunc

/-! ## The parameters of a body -/

/-- Host code that starts is given the arguments, read at the kinds of its parameters, and the number of
slots. -/
theorem World.enterHost_offer {w v : World} {env : ObjId} {native : NativeId} {args : List (Slot ObjId)}
    {depth : UInt32} {slots : Nat} {a : Activation}
    (started : w.enterHost env native args depth slots = (.ok a, v)) :
    a.params = (a.type.params.zip args).map (fun p => p.2.read p.1) ∧ a.slots = slots := by
  unfold World.enterHost at started
  split at started
  · split at started
    · cases started
    · dsimp only at started
      split at started
      · cases started
      · split at started
        · cases started
          exact ⟨rfl, rfl⟩
        · cases started
          exact ⟨rfl, rfl⟩
  · cases started

namespace Machine

variable {m : Machine} {n : NativeId} {args : List (Slot ObjId)} {slots : SlotArray} {f : NativeFunc}
variable {a : Activation}

/-- A body that starts has the arguments, read at the kinds of its parameters, and may write the slots that
are available. -/
structure Given (a : Activation) (args : List (Slot ObjId)) (slots : SlotArray) : Prop where
  params : a.params = (a.type.params.zip args).map fun p => p.2.read p.1
  slots : a.slots = slots.available

/-- The body that entering the engine starts is given what the call passes. -/
theorem given_enter (control : (m.enter n args slots).control = startOf a)
    (context : (m.enter n args slots).context = .body a) : Given a args slots := by
  unfold Machine.enter at control context
  split at control
  · exact absurd control.symm (startOf_ne_engine a _)
  · next admitted w entered =>
      split at control
      · unfold Machine.startCallback at control
        dsimp only at control
        split at control
        · exact absurd control.symm (startOf_ne_enter a _ _ _)
        · exact absurd control.symm (startOf_ne_engine a _)
      · next env callback =>
          split at control
          · exact absurd control.symm (startOf_ne_engine a _)
          · next b v started =>
              simp only [entered, callback, started] at context
              cases context
              obtain ⟨params, offered⟩ := World.enterHost_offer started
              exact ⟨params, offered⟩

/-! ## Entering the engine -/

/-- A call is refused with a trap. Nothing has run and nothing is left of it, except that a pending
interrupt is taken. -/
structure Refuses (m next : Machine) : Prop where
  answer : ∃ t, next.control = .engine (.error t)
  context : next.context = m.context
  stack : next.stack = m.stack
  world : World.Inert m.world next.world ∨ ∃ store, next.world =
    m.world.modifyNativeStore store fun s => { s with interrupt := false }

/-- A callback is entered with what the call passes: a host body starts, or a native callback shows that it
was called. -/
inductive Enlists (m : Machine) (f : NativeFunc) (args : List (Slot ObjId)) (slots : SlotArray)
    (next : Machine) : Prop
  | host (a : Activation) (context : next.context = .body a)
      (stack : next.stack = .block true 0 a.steps :: .activation m.context :: m.stack)
      (given : Given a args slots)
  | native (code : NativeCode) (callback : f.callback = .native code) (depth : UInt32)
      (shown : next.world.events = callbackEvent code depth args slots.available :: m.world.events)

/-- An entry into the engine is refused, or a callback is entered with what its function declares. -/
theorem refuses_or_enlists (m : Machine) (n : NativeId) (args : List (Slot ObjId)) (slots : SlotArray) :
    Refuses m (m.enter n args slots) ∨
      ∃ f s, m.world.Reaches n f s ∧ f.Offered args slots ∧ Enlists m f args slots (m.enter n args slots) := by
  have entry := m.entry n args slots
  generalize entered : m.enter n args slots = next at entry
  cases entry with
  | missing none t same =>
      rw [same]
      exact .inl ⟨⟨t, rfl⟩, rfl, rfl, .inl (.refl m.world)⟩
  | interrupted f s reaches pending same =>
      rw [same]
      exact .inl ⟨⟨_, rfl⟩, rfl, rfl, .inr ⟨f.store, rfl⟩⟩
  | refused f s reaches calm t refusal same =>
      rw [same]
      exact .inl ⟨⟨t, rfl⟩, rfl, rfl, .inl (.refl m.world)⟩
  | released f s reaches calm admitted env callback message w inert same =>
      rw [same]
      exact .inl ⟨⟨_, rfl⟩, rfl, rfl, .inl inert⟩
  | replied f s reaches calm admitted code callback same =>
      refine .inr ⟨f, s, reaches, (NativeFunc.refusal?_eq_none.mp admitted).1, ?_⟩
      rw [same]
      exact .native code callback (s.depth + 1) rfl
  | callsOn f s reaches calm admitted code callback callee results same =>
      refine .inr ⟨f, s, reaches, (NativeFunc.refusal?_eq_none.mp admitted).1, ?_⟩
      rw [same]
      exact .native code callback (s.depth + 1) rfl
  | starts f s reaches calm admitted env callback a w starts same =>
      have context : next.context = .body a := by rw [same]
      have control : next.control = startOf a := by rw [same]
      have stack : next.stack = .block true 0 a.steps :: .activation m.context :: m.stack := by
        rw [same]
      rw [← entered] at context control
      have given := given_enter control context
      rw [entered] at context
      exact .inr ⟨f, s, reaches, (NativeFunc.refusal?_eq_none.mp admitted).1, .host a context stack given⟩

/-- A host body that starts was entered with what its function declares. -/
theorem Enters.offers {s : NativeStore} {env : ObjId} (enters : m.Enters a n f s env)
    (begins : m.step.context = .body a) :
    ∃ args slots, m.control = .enter n args slots ∧ f.Offered args slots ∧ Given a args slots := by
  obtain ⟨args, slots, control⟩ := enters.control
  refine ⟨args, slots, control, ?_⟩
  have deed := enters.deed
  rw [deed_of_alive enters.alive, control] at deed
  change m.entryDeed n args slots = _ at deed
  rw [step_enter enters.alive control] at begins
  have entry := m.entry n args slots
  generalize entered : m.enter n args slots = next at entry begins
  cases entry with
  | starts f' s' reaches calm admitted env callback b w starts same =>
      obtain ⟨rfl, rfl⟩ := enters.reaches.unique reaches
      rw [same] at begins
      cases begins
      have running : (m.enter n args slots).control = startOf a := by rw [entered, same]
      have begins : (m.enter n args slots).context = .body a := by rw [entered, same]
      exact ⟨(NativeFunc.refusal?_eq_none.mp admitted).1, given_enter running begins⟩
  | callsOn f' s' reaches calm admitted code callback =>
      obtain ⟨rfl, rfl⟩ := enters.reaches.unique reaches
      cases callback.symm.trans enters.callback
  | missing none => exact absurd enters.reaches (none f s)
  | interrupted f' s' reaches pending =>
      rw [entryDeed_of_pending reaches pending] at deed
      cases deed
  | refused f' s' reaches calm t refusal same | released f' s' reaches calm _ _ _ _ _ _ same
  | replied f' s' reaches calm _ _ _ same =>
      rw [entryDeed_of_calm reaches calm, entered, same] at deed
      cases deed

/-! ## Every run -/

/-- What the callbacks of a run are offered. -/
structure CallbackOffers (run : Nat → Machine) : Prop where
  /-- An entry into the engine is refused before anything runs, or it enters the callback of a function
  with arguments of the declared kinds, in order. It may write as many results as are declared, but none
  if the array of the caller is null. -/
  entries : ∀ k n args slots, (run k).world.aborted = none → (run k).control = .enter n args slots →
    Refuses (run k) (run (k + 1)) ∨ ∃ f s, (run k).world.Reaches n f s ∧ f.Offered args slots ∧
      Enlists (run k) f args slots (run (k + 1))
  /-- A call that passes anything else is refused. -/
  refused : ∀ k n args slots, (run k).world.aborted = none → (run k).control = .enter n args slots →
    (∀ f s, (run k).world.Reaches n f s → ¬ f.Offered args slots) → Refuses (run k) (run (k + 1))
  /-- Every host body that runs has been entered in this way, and still has what it was given. -/
  bodies : ∀ i a, (run i).context = .body a → ∃ k n args slots f s, k < i ∧
    (run k).control = .enter n args slots ∧ (run k).world.Reaches n f s ∧ f.Offered args slots ∧
      Given a args slots

/-- On every run of every script, over the public interface or the native one. -/
theorem callbackOffers_after (level : Option LogLevel) (script : Block) :
    CallbackOffers (after level script) := by
  have steps := after_succ level script
  have entries (k : Nat) (n : NativeId) (args : List (Slot ObjId)) (slots : SlotArray)
      (alive : (after level script k).world.aborted = none)
      (control : (after level script k).control = .enter n args slots) :
      Refuses (after level script k) (after level script (k + 1)) ∨
        ∃ f s, (after level script k).world.Reaches n f s ∧ f.Offered args slots ∧
          Enlists (after level script k) f args slots (after level script (k + 1)) := by
    rw [steps, step_enter alive control]
    exact refuses_or_enlists _ n args slots
  constructor
  case entries => exact entries
  case refused =>
      intro k n args slots alive control other
      rcases entries k n args slots alive control with refuses | ⟨f, s, reaches, offered, -⟩
      · exact refuses
      · exact absurd offered (other f s reaches)
  case bodies =>
      intro i a context
      have idle (saved : Context) (below : List Frame) :
          ¬ .activation saved :: below <:+ (after level script 0).stack := by
        intro stands
        obtain same | stands := List.suffix_cons_iff.mp stands
        · cases same
        · cases List.suffix_nil.mp stands
      obtain ⟨n, k, b, locals, rfl, running, rfl⟩ :=
        body_started steps (inOrder_after level script) idle context
      obtain ⟨callee, f, s, env, enters⟩ := running.enters
      have begins := running.begins
      rw [steps] at begins
      obtain ⟨args, slots, control, offered, given⟩ := enters.offers begins
      exact ⟨n, callee, args, slots, f, s, by omega, control, enters.reaches, offered, given.params,
        given.slots⟩

/-- A function with a result is called with one slot stated and a null array. -/
def nullResults : Block :=
  [(⟨false, false⟩, .plain (.store (.scoped "s") none)),
    (⟨false, false⟩, .func (.scoped "f") (.scoped "s") (.generic ⟨[], [.i32]⟩) "f" false []
      [(⟨false, false⟩, .plain (.giveBack [.literal (.i32 7)]))]),
    (⟨false, false⟩, .plain (.rawPointer (.scoped "q") (.scoped "f"))),
    (⟨false, false⟩, .nativeCall none (some (.scoped "q")) (.elements []) ⟨1, true⟩)]

/-- Its body runs without a slot to write, and only then does the call fail. -/
example : (∃ a, (after none nullResults 8).context = .body a ∧ a.slots = 0) ∧
    (after none nullResults 11).control = .engine (.error (answerTo (.wrongSlotCount 0 1) none)) :=
  ⟨⟨_, rfl, rfl⟩, rfl⟩

end Machine

end HostEmbedding
