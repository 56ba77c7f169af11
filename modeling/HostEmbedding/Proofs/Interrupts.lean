import HostEmbedding.Proofs.Native.Transitions
import HostEmbedding.Proofs.Public

/-!
# Interrupts

An interrupt that is requested of a store stays pending until the engine is next entered for one of its
functions, and that entry is refused. However many requests were made before it, one entry takes them
all, and whatever else happens leaves them pending.
-/

namespace HostEmbedding

/-! ## Requests and entries -/

/-- The trap of an interrupt is none of the other refusals. -/
theorem NativeFunc.refusal?_ne_interrupt {f : NativeFunc} {s : NativeStore} {args : List (Slot ObjId)}
    {slots : Nat} {t : NativeTrap} (refusal : f.refusal? s args slots = some t) :
    t ≠ .ofCode .interrupt := by
  rintro rfl
  unfold NativeFunc.refusal? at refusal
  split at refusal
  · cases congrArg NativeTrap.code (Option.some.inj refusal)
  · split at refusal
    · cases congrArg NativeTrap.code (Option.some.inj refusal)
    · split at refusal
      · exact absurd (congrArg NativeTrap.code (Option.some.inj refusal)) (by decide)
      · cases refusal

namespace World

variable {w v : World} {d : Deed} {n : NativeId} {made : Native → Prop}

/-- What a deed makes of the interrupt of a store. -/
theorem Becomes.interrupt (becomes : Becomes made d w v) {s t : NativeStore}
    (before : w.nativeObject? n = some (.store s)) (after : v.nativeObject? n = some (.store t)) :
    t.interrupt = if d = .interrupt n then true else if d = .take n then false else s.interrupt := by
  have known := becomes.known n _ before
  rw [after] at known
  by_cases target : d.target? = some n
  · rw [Deed.on_target target] at known
    cases known
    cases d with
    | idle => cases target
    | _ =>
        cases target
        simp [Deed.onStore]
  · rw [Deed.on_other target] at known
    cases known
    rw [if_neg, if_neg]
    · rintro rfl
      exact target rfl
    · rintro rfl
      exact target rfl

end World

namespace Machine

variable {m : Machine} {store : NativeId}

inductive Interrupts (m : Machine) (store : NativeId) : Prop
  | handle (g : Guard) (v : VarName) (begins : m.AtStep g (.plain (.interrupt v))) (id : ObjId)
      (h : Handle) (named : m.handleNamed? v = some (id, h))
      (native : m.world.native? h.native = some (.interrupt store))
  | pointer (g : Guard) (name p : Option VarName) (begins : m.AtStep g (.native name (.interruptRequest p)))
      (n : NativeId) (named : m.objectNamed? p = some (n, .interrupt store))

/-- The next transition makes a native handle that interrupts a store, for a handle of the store or for its
pointer. -/
inductive MakesInterrupt (m : Machine) (store : NativeId) : Prop
  | handle (g : Guard) (name v : VarName) (begins : m.AtStep g (.plain (.interruptHandle name v)))
      (s : ObjId) (held : m.lookup v = some (.store s)) (native : m.world.storeNative? s = some store)
  | pointer (g : Guard) (name p : Option VarName) (begins : m.AtStep g (.native name (.interruptNew p)))
      (o : Native) (named : m.objectNamed? p = some (store, o))

theorem Added.makesInterrupt (added : m.Added (.interrupt store)) : m.MakesInterrupt store := by
  cases added with
  | step g s begins adds =>
      cases adds with
      | interrupt name v s n held native => exact .handle g name v begins s held native
      | interruptNew name p n o named => exact .pointer g name p begins o named
  | trap t control same => cases same

structure EntersEngine (m : Machine) (n : NativeId) (args : List (Slot ObjId)) (slots : SlotArray)
    (f : NativeFunc) (s : NativeStore) : Prop where
  alive : m.world.aborted = none
  control : m.control = .enter n args slots
  reaches : m.world.Reaches n f s

def EntersStore (m : Machine) (store : NativeId) : Prop :=
  ∃ n args slots f s, m.EntersEngine n args slots f s ∧ f.store = store

theorem deed_interrupt_iff : m.deed = .interrupt store ↔ m.Interrupts store := by
  constructor
  · intro deed
    obtain ⟨g, s, begins, same⟩ := m.atStep_of_direct (by rw [deed]; trivial) (by rw [deed]; nofun)
    have does := m.stepDoes s
    rw [same, deed] at does
    cases does with
    | interrupt v id h store named native => exact .handle g v begins id h named native
    | interruptRequest name p n store named => exact .pointer g name p begins n named
  · intro interrupts
    cases interrupts with
    | handle g v begins id h named native =>
        rw [begins.deed]
        show m.actionDeed (.interrupt v) = _
        simp only [actionDeed, named]
        exact World.interruptDeed_of_native native
    | pointer g name p begins n named =>
        rw [begins.deed]
        show m.nativeDeed (.interruptRequest p) = _
        simp only [nativeDeed, named]
        exact World.interruptDeed_of_native (native?_of_named named)

/-- Only an entry takes an interrupt. -/
theorem entersStore_of_take (deed : m.deed = .take store) : m.EntersStore store := by
  have does := m.does_deed
  rw [deed] at does
  cases does with
  | begins g s begins same =>
      have direct := stepDeed_direct m s
      rw [← same] at direct
      cases direct
  | takes alive n args slots f s control reaches same =>
      cases same
      exact ⟨n, args, slots, f, s, ⟨alive, control, reaches⟩, rfl⟩
  | idle same | enters _ _ _ _ _ _ _ _ _ same | leaves _ _ _ _ _ _ _ same => cases same
  | replies _ _ _ _ _ same => cases same

namespace EntersEngine

variable {n : NativeId} {args : List (Slot ObjId)} {slots : SlotArray} {f : NativeFunc} {s : NativeStore}
variable (enters : m.EntersEngine n args slots f s)

include enters

theorem not_interrupts (store : NativeId) : ¬ m.Interrupts store := by
  intro interrupts
  cases interrupts with
  | handle g v begins => cases enters.control.symm.trans begins.control
  | pointer g name p begins => cases enters.control.symm.trans begins.control

/-- An entry that finds an interrupt takes it. -/
theorem takes (pending : s.interrupt = true) : m.deed = .take f.store := by
  rw [deed_of_alive enters.alive, enters.control]
  exact entryDeed_of_pending enters.reaches pending

/-- An entry that finds an interrupt is refused, and nothing else comes of it. -/
theorem refused (pending : s.interrupt = true) :
    m.step = (m.withWorld (m.world.modifyNativeStore f.store
      fun s => { s with interrupt := false })).refused (.ofCode .interrupt) := by
  rw [step_enter enters.alive enters.control]
  unfold Machine.enter
  rw [enters.reaches.tryEnter, if_pos pending]
  rfl

/-- An entry is refused with the trap of an interrupt exactly when it finds one. -/
theorem refused_iff :
    m.step.control = .engine (.error (.ofCode .interrupt)) ↔ s.interrupt = true := by
  rw [step_enter enters.alive enters.control]
  cases m.entry n args slots with
  | missing none t same => exact absurd enters.reaches (none f s)
  | interrupted f' s' reaches pending same =>
      obtain ⟨rfl, rfl⟩ := enters.reaches.unique reaches
      rw [same]
      exact ⟨fun _ => pending, fun _ => rfl⟩
  | refused f' s' reaches calm t refusal same =>
      obtain ⟨rfl, rfl⟩ := enters.reaches.unique reaches
      rw [same, calm]
      refine ⟨fun answer => ?_, nofun⟩
      cases answer
      exact absurd rfl (NativeFunc.refusal?_ne_interrupt refusal)
  | released f' s' reaches calm admitted env callback message w inert same =>
      obtain ⟨rfl, rfl⟩ := enters.reaches.unique reaches
      rw [same, calm]
      exact ⟨nofun, nofun⟩
  | replied f' s' reaches calm admitted code callback same =>
      obtain ⟨rfl, rfl⟩ := enters.reaches.unique reaches
      rw [same, calm]
      exact ⟨fun answer => absurd (Control.engine.inj answer) (replyOf_ne_code _), nofun⟩
  | callsOn f' s' reaches calm admitted code callback callee results same =>
      obtain ⟨rfl, rfl⟩ := enters.reaches.unique reaches
      rw [same, calm]
      exact ⟨nofun, nofun⟩
  | starts f' s' reaches calm admitted env callback a w starts same =>
      obtain ⟨rfl, rfl⟩ := enters.reaches.unique reaches
      rw [same, calm]
      exact ⟨fun answer => absurd answer (startOf_ne_engine a _), nofun⟩

end EntersEngine

/-- A transition leaves an interrupt pending if it requests one, or if one was pending before and it
does not enter the engine for the store. -/
theorem interrupt_step {s t : NativeStore} (before : m.world.nativeObject? store = some (.store s))
    (after : m.step.world.nativeObject? store = some (.store t)) :
    t.interrupt = true ↔ m.Interrupts store ∨ s.interrupt = true ∧ ¬ m.EntersStore store := by
  rw [m.becomes_step.interrupt before after]
  by_cases requested : m.deed = .interrupt store
  · rw [if_pos requested]
    exact ⟨fun _ => .inl (deed_interrupt_iff.mp requested), fun _ => rfl⟩
  · rw [if_neg requested]
    have none : ¬ m.Interrupts store := fun interrupts => requested (deed_interrupt_iff.mpr interrupts)
    by_cases taken : m.deed = .take store
    · rw [if_pos taken]
      constructor
      · nofun
      · rintro (interrupts | ⟨-, apart⟩)
        · exact absurd interrupts none
        · exact absurd (entersStore_of_take taken) apart
    · rw [if_neg taken]
      constructor
      · intro pending
        refine .inr ⟨pending, ?_⟩
        rintro ⟨n, args, slots, f, u, enters, rfl⟩
        have found := World.nativeObject?_of_nativeStore? enters.reaches.store
        obtain rfl : u = s := Native.store.inj (Option.some.inj (found.symm.trans before))
        exact taken (enters.takes pending)
      · rintro (interrupts | ⟨pending, -⟩)
        · exact absurd interrupts none
        · exact pending

/-! ## Pending interrupts -/

/-- An interrupt of a store was requested since the store was created, and the engine has not been
entered for one of its functions since. -/
def Pending (run : Nat → Machine) (k : Nat) (store : NativeId) : Prop :=
  ∃ j < k, (∃ s, (run j).world.nativeObject? store = some (.store s)) ∧ (run j).Interrupts store ∧
    ∀ i, j < i → i < k → ¬ (run i).EntersStore store

variable {run : Nat → Machine}

/-- One more transition: it requests an interrupt itself, or one was pending that it does not take. -/
theorem pending_succ {k : Nat} : Pending run (k + 1) store ↔
    ((∃ s, (run k).world.nativeObject? store = some (.store s)) ∧ (run k).Interrupts store) ∨
      Pending run k store ∧ ¬ (run k).EntersStore store := by
  constructor
  · rintro ⟨j, less, created, interrupts, calm⟩
    rcases Nat.lt_or_eq_of_le (Nat.le_of_lt_succ less) with before | rfl
    · exact .inr ⟨⟨j, before, created, interrupts, fun i after within => calm i after (by omega)⟩,
        calm k before (Nat.lt_succ_self k)⟩
    · exact .inl ⟨created, interrupts⟩
  · rintro (⟨created, interrupts⟩ | ⟨⟨j, less, created, interrupts, calm⟩, kept⟩)
    · exact ⟨k, Nat.lt_succ_self k, created, interrupts, fun i after within => by omega⟩
    · refine ⟨j, by omega, created, interrupts, fun i after within => ?_⟩
      rcases Nat.lt_or_eq_of_le (Nat.le_of_lt_succ within) with before | rfl
      · exact calm i after before
      · exact kept

section

variable (steps : ∀ n, run (n + 1) = (run n).step)

include steps

/-- A store that exists is there from then on. -/
theorem store_persists {j k : Nat} (le : j ≤ k)
    (before : ∃ s, (run j).world.nativeObject? store = some (.store s)) :
    ∃ s, (run k).world.nativeObject? store = some (.store s) := by
  induction k, le using Nat.le_induction with
  | base => exact before
  | succ k _ ih =>
      obtain ⟨s, found⟩ := ih
      have known := (becomes_step (run k)).known store _ found
      rw [← steps] at known
      unfold Deed.on at known
      split at known
      · exact ⟨_, known⟩
      · exact ⟨s, known⟩

/-- A store is interrupted exactly while an interrupt is pending. -/
theorem interrupt_iff (idle : (run 0).world.nativeObject? store = none) {k : Nat} {s : NativeStore}
    (found : (run k).world.nativeObject? store = some (.store s)) :
    s.interrupt = true ↔ Pending run k store := by
  induction k generalizing s with
  | zero => cases idle.symm.trans found
  | succ k ih =>
      rw [pending_succ]
      have becomes := becomes_step (run k)
      rw [steps] at found
      cases before : (run k).world.nativeObject? store with
      | none =>
          -- The store is created by this transition, so nothing can have been requested of it before.
          have fresh := (becomes.added store _ before found).fresh
          have absent (there : ∃ s, (run k).world.nativeObject? store = some (.store s)) : False := by
            obtain ⟨s, there⟩ := there
            cases before.symm.trans there
          rw [fresh.1]
          constructor
          · nofun
          · rintro (⟨⟨s, there⟩, -⟩ | ⟨⟨j, less, there, -⟩, -⟩)
            · cases there
            · exact (absent (store_persists steps (Nat.le_of_lt less) there)).elim
      | some o =>
          obtain ⟨t, rfl, -⟩ := Deed.store_on
            (Option.some.inj ((becomes.known store o before).symm.trans found))
          rw [interrupt_step before found, ih before]
          exact ⟨Or.imp_left fun interrupts => ⟨⟨t, rfl⟩, interrupts⟩, Or.imp_left And.right⟩

end

/-! ## Every run -/

/-- How interrupts take effect on a run. -/
structure InterruptsOnce (run : Nat → Machine) : Prop where
  /-- A native handle interrupts the store that it was made for. -/
  created : ∀ k n store, (run k).world.nativeObject? n = none →
    (run (k + 1)).world.nativeObject? n = some (.interrupt store) → (run k).MakesInterrupt store
  /-- It never interrupts another one. -/
  kept : ∀ j k n store, j ≤ k → (run j).world.nativeObject? n = some (.interrupt store) →
    (run k).world.nativeObject? n = some (.interrupt store)
  /-- An entry is refused with the trap of an interrupt exactly when an interrupt of the store was
  requested since the store was created and since the last entry. -/
  decided : ∀ k n args slots f s, (run k).EntersEngine n args slots f s →
    ((run (k + 1)).control = .engine (.error (.ofCode .interrupt)) ↔ Pending run k f.store)
  /-- That entry lowers the flag of the store and is refused before any other check; nothing runs. -/
  refused : ∀ k n args slots f s, (run k).EntersEngine n args slots f s → Pending run k f.store →
    run (k + 1) = ((run k).withWorld ((run k).world.modifyNativeStore f.store
      fun s => { s with interrupt := false })).refused (.ofCode .interrupt)
  /-- The first entry after a request is refused, whatever else happens in between. -/
  next : ∀ j k n args slots f s, j < k → (run j).Interrupts f.store →
    (∃ s, (run j).world.nativeObject? f.store = some (.store s)) →
    (∀ i, j < i → i < k → ¬ (run i).EntersStore f.store) → (run k).EntersEngine n args slots f s →
    (run (k + 1)).control = .engine (.error (.ofCode .interrupt))
  /-- The entry after that is not refused so, unless an interrupt is requested between the two. -/
  once : ∀ i k n args slots f s, i < k → (run i).EntersStore f.store →
    (∀ j, i < j → j < k → ¬ (run j).Interrupts f.store) → (run k).EntersEngine n args slots f s →
    (run (k + 1)).control ≠ .engine (.error (.ofCode .interrupt))
  /-- Only requests and entries concern the flag of a store. -/
  apart : ∀ k store s t, (run k).world.nativeObject? store = some (.store s) →
    (run (k + 1)).world.nativeObject? store = some (.store t) →
    ¬ (run k).Interrupts store → ¬ (run k).EntersStore store → t.interrupt = s.interrupt

/-- On every run of every script, over the public interface or the native one. -/
theorem interruptsOnce_after (level : Option LogLevel) (script : Block) :
    InterruptsOnce (after level script) := by
  have steps := after_succ level script
  have flag {k : Nat} {store : NativeId} {s : NativeStore} :=
    interrupt_iff (s := s) steps (show (after level script 0).world.nativeObject? store = none from rfl)
      (k := k)
  have decided {k : Nat} {n : NativeId} {args : List (Slot ObjId)} {slots : SlotArray} {f : NativeFunc}
      {s : NativeStore} (enters : (after level script k).EntersEngine n args slots f s) :
      (after level script (k + 1)).control = .engine (.error (.ofCode .interrupt)) ↔
        Pending (after level script) k f.store := by
    rw [steps, enters.refused_iff, flag (World.nativeObject?_of_nativeStore? enters.reaches.store)]
  constructor
  case created =>
      intro k n store absent found
      exact ((becomes_step _).added n _ absent (steps k ▸ found)).makesInterrupt
  case kept =>
      intro j k n store le found
      exact settled_persists (o := .interrupt store) steps trivial le found
  case decided =>
      intro k n args slots f s enters
      exact decided enters
  case refused =>
      intro k n args slots f s enters pending
      rw [steps]
      exact enters.refused
        ((flag (World.nativeObject?_of_nativeStore? enters.reaches.store)).mpr pending)
  case next =>
      intro j k n args slots f s less interrupts created calm enters
      exact (decided enters).mpr ⟨j, less, created, interrupts, calm⟩
  case once =>
      intro i k n args slots f s less entered quiet enters refused
      obtain ⟨j, before, -, interrupts, calm⟩ := (decided enters).mp refused
      rcases Nat.lt_trichotomy i j with after | rfl | earlier
      · exact quiet j after before interrupts
      · obtain ⟨_, _, _, _, _, enters, -⟩ := entered
        exact enters.not_interrupts _ interrupts
      · exact calm i earlier less entered
  case apart =>
      intro k store s t before after quiet calm
      rw [steps] at after
      have same := interrupt_step before after
      rw [Bool.eq_iff_iff, same]
      exact ⟨fun kept => (kept.resolve_left quiet).1, fun pending => .inr ⟨pending, calm⟩⟩

/-- A function that is called twice after two requests. -/
def interruptedTwice : Block :=
  [(⟨false, false⟩, .plain (.engine (.scoped "e") none none)),
    (⟨false, false⟩, .plain (.store (.scoped "s") (some (.scoped "e")))),
    (⟨false, false⟩, .func (.scoped "f") (.scoped "s") (.generic ⟨[], []⟩) "f" false [] []),
    (⟨false, false⟩, .plain (.interruptHandle (.scoped "i") (.scoped "s"))),
    (⟨false, false⟩, .plain (.interrupt (.scoped "i"))),
    (⟨false, false⟩, .plain (.interrupt (.scoped "i"))),
    (⟨true, false⟩, .call (.scoped "f") [] []),
    (⟨false, false⟩, .call (.scoped "f") [] [])]

/-- The first call takes both requests, and the second one runs. -/
example : (after none interruptedTwice 14).control = .engine (.error (.ofCode .interrupt)) ∧
    (after none interruptedTwice 20).control = .engine (.ok []) :=
  ⟨rfl, rfl⟩

end Machine

end HostEmbedding
