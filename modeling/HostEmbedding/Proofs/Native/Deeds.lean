import HostEmbedding.Proofs.Call.Callable

/-!
# What is done to native objects

Native objects are only ever added. What is done to one that exists is one of a few deeds: a store is
interrupted, entered or left, and a memory grows or is written to. Everything else leaves the objects
as they are, and so do deletions, which are counted apart from the object.
-/

namespace HostEmbedding

/-- What is done to the native objects that exist. -/
inductive Deed where
  | idle
  /-- An interrupt of a store is requested. -/
  | interrupt (store : NativeId)
  /-- A call that a store refuses takes its interrupt. -/
  | take (store : NativeId)
  | enter (store : NativeId)
  | leave (store : NativeId)
  /-- A memory is asked to grow. -/
  | grow (memory : NativeId) (delta : UInt32)
  /-- Bytes are written into a memory, inside its bounds or not at all. -/
  | write (memory : NativeId) (offset : Nat) (data : Runs)
  /-- Bytes are written through the data pointer of a memory. -/
  | poke (memory : NativeId) (offset : Nat) (data : Runs)
  deriving DecidableEq

/-- An object that nothing is done to. -/
def Native.Settled : Native → Prop
  | .store _ | .memory _ => False
  | _ => True

namespace Deed

def target? : Deed → Option NativeId
  | .idle => none
  | .interrupt n | .take n | .enter n | .leave n | .grow n _ | .write n .. | .poke n .. => some n

def onStore : Deed → NativeStore → NativeStore
  | .interrupt _, s => { s with interrupt := true }
  | .take _, s => { s with interrupt := false }
  | .enter _, s => { s with depth := s.depth + 1 }
  | .leave _, s => { s with depth := s.depth - 1 }
  | _, s => s

def onMemory : Deed → LinearMemory → LinearMemory
  | .grow _ delta, m => (m.grow? delta).getD m
  | .write _ offset data, m => (m.write? offset data).getD m
  | .poke _ offset data, m => m.overwrite offset data
  | _, m => m

def act (d : Deed) : Native → Native
  | .store s => .store (d.onStore s)
  | .memory m => .memory (d.onMemory m)
  | o => o

def on (d : Deed) (n : NativeId) (o : Native) : Native := if d.target? = some n then d.act o else o

@[simp]
theorem on_idle (n : NativeId) (o : Native) : idle.on n o = o := rfl

theorem on_other {d : Deed} {n : NativeId} (apart : d.target? ≠ some n) (o : Native) : d.on n o = o :=
  if_neg apart

theorem on_target {d : Deed} {n : NativeId} (target : d.target? = some n) (o : Native) :
    d.on n o = d.act o := if_pos target

theorem config_onStore (d : Deed) (s : NativeStore) : (d.onStore s).config = s.config := by
  cases d <;> rfl

/-- What a deed makes of an object is a store with the configuration that it had. -/
theorem store_on {d : Deed} {n : NativeId} {o : Native} {s : NativeStore}
    (same : d.on n o = .store s) : ∃ t, o = .store t ∧ s.config = t.config := by
  unfold on at same
  split at same
  · cases o with
    | store t =>
        cases same
        exact ⟨t, rfl, d.config_onStore t⟩
    | _ => cases same
  · exact ⟨s, same, rfl⟩

/-- Only stores and memories are changed. -/
theorem on_settled (d : Deed) (n : NativeId) {o : Native} (settled : o.Settled) : d.on n o = o := by
  unfold on
  split
  · cases o with
    | store | memory => cases settled
    | _ => rfl
  · rfl

end Deed

namespace World

/-- A world comes from another by nothing that is done to native objects, and none is added. Host
objects keep their addresses, and no closure is attached to an environment that was there. -/
structure Inert (w v : World) : Prop where
  natives : v.nativeObject? = w.nativeObject?
  entries : ∀ id, ( w.entry? id).isSome → ( v.entry? id).isSome
  attached : ∀ e c, ( w.entry? e).isSome → v.attached? e = some c → w.attached? e = some c

/-- A world comes from another by one deed, and native objects that are made so can be added. -/
structure Becomes (made : Native → Prop) (d : Deed) (w v : World) : Prop where
  known : ∀ n o, w.nativeObject? n = some o → v.nativeObject? n = some (d.on n o)
  added : ∀ n o, w.nativeObject? n = none → v.nativeObject? n = some o → made o
  entries : ∀ id, ( w.entry? id).isSome → ( v.entry? id).isSome
  attached : ∀ e c, ( w.entry? e).isSome → v.attached? e = some c → w.attached? e = some c

variable {w v u : World} {d : Deed} {made : Native → Prop}

/-! ## One after another -/

namespace Inert

theorem refl (w : World) : Inert w w := ⟨rfl, fun _ => id, fun _ _ _ => id⟩

theorem trans (first : Inert w v) (second : Inert v u) : Inert w u where
  natives := second.natives.trans first.natives
  entries id known := second.entries id (first.entries id known)
  attached e c known holds :=
    first.attached e c known (second.attached e c (first.entries e known) holds)

theorem becomes (inert : Inert w v) : Becomes made .idle w v where
  known n o found := by rwa [inert.natives]
  added n o absent found := by
    rw [inert.natives, absent] at found
    cases found
  entries := inert.entries
  attached := inert.attached

end Inert

namespace Becomes

theorem refl (w : World) : Becomes made .idle w w := (Inert.refl w).becomes

theorem mono {made' : Native → Prop} (becomes : Becomes made d w v) (more : ∀ o, made o → made' o) :
    Becomes made' d w v where
  known := becomes.known
  added n o absent found := more o (becomes.added n o absent found)
  entries := becomes.entries
  attached := becomes.attached

/-- Nothing is done after a deed. -/
theorem trans (first : Becomes made d w v) (second : Becomes made .idle v u) : Becomes made d w u where
  known n o found := second.known n _ (first.known n o found)
  added n o absent found := by
    cases between : v.nativeObject? n with
    | none => exact second.added n o between found
    | some p =>
        have kept := second.known n p between
        rw [found] at kept
        cases kept
        exact first.added n p absent between
  entries id known := second.entries id (first.entries id known)
  attached e c known holds :=
    first.attached e c known (second.attached e c (first.entries e known) holds)

/-- A deed is done after something inert. -/
theorem after (becomes : Becomes made d v u) (inert : Inert w v) : Becomes made d w u where
  known n o found := becomes.known n o (by rwa [inert.natives])
  added n o absent found := becomes.added n o (by rwa [inert.natives]) found
  entries id known := becomes.entries id (inert.entries id known)
  attached e c known holds :=
    inert.attached e c known (becomes.attached e c (inert.entries e known) holds)

end Becomes

/-! ## What is inert -/

/-- Releasing work leaves the addresses of host objects alone. -/
theorem Drains.entry?_isSome (drains : Drains w v) (id : ObjId) :
    ( v.entry? id).isSome = ( w.entry? id).isSome := by
  have same : ( v.entry? id).map (fun e => e.object.shape) =
      ( w.entry? id).map fun e => e.object.shape :=
    congrArg (fun Γ => Γ.object? id) drains.shapes
  simpa only [Option.isSome_map] using congrArg Option.isSome same

theorem Drains.inert (drains : Drains w v) : Inert w v where
  natives := drains.natives
  entries id known := by rwa [drains.entry?_isSome]
  attached _ _ _ holds := drains.attached holds

theorem Same.inert (same : Same w v) : Inert w v := same.drains.inert

/-- Neither the heap nor the native objects have changed. -/
theorem inert_of_tables (heap : v.heap = w.heap) (bodies : v.bodies = w.bodies) : Inert w v where
  natives := by
    funext n
    simp only [nativeObject?, bodies]
  entries id known := by rwa [entry?_of_heap heap]
  attached e c known holds := by rwa [attached?_of_heap heap] at holds

theorem inert_alloc (w : World) (o : Object) (strong : Nat) : Inert w (w.alloc o strong).2 := by
  have apart {id : ObjId} (known : ( w.entry? id).isSome) : id ≠ (w.alloc o strong).1 := by
    rintro rfl
    rw [entry?_alloc_self] at known
    cases known
  have kept {id : ObjId} (known : ( w.entry? id).isSome) :
      World.entry? (w.alloc o strong).2 id = w.entry? id := by
    rw [entry?_alloc, if_neg (apart known)]
  constructor
  case natives => rfl
  case entries =>
      intro id known
      rwa [kept known]
  case attached =>
      intro e c known holds
      rwa [attached?_eq, kept known, ← attached?_eq] at holds

/-- A change of an entry that attaches no closure. -/
theorem inert_modifyEntry {id : ObjId} {g : Entry → Entry}
    (attaches : ∀ e, w.entry? id = some e → ∀ c, closureOf (g e).object = some c →
      closureOf e.object = some c) : Inert w (w.modifyEntry id g) where
  natives := rfl
  entries x known := by
    rw [entry?_modifyEntry]
    split
    · rwa [Option.isSome_map]
    · exact known
  attached _ _ _ holds := attached?_of_modifyEntry attaches holds

theorem inert_retain (w : World) (id : ObjId) : Inert w (w.retain id) :=
  inert_modifyEntry fun _ _ _ holds => holds

theorem inert_retainAll (w : World) (ids : List ObjId) : Inert w (w.retainAll ids) := by
  induction ids generalizing w with
  | nil => exact .refl w
  | cons id rest ih => exact (inert_retain w id).trans (ih (w.retain id))

theorem inert_setCell (w : World) (id : ObjId) (content : Option Item) :
    Inert w (w.setObject id (.cell content)) :=
  inert_modifyEntry fun _ _ _ holds => nomatch holds

/-- What is held on a thread and the slots of its calls have no part in the tables. -/
theorem inert_modifyThread (w : World) (f : ThreadState → ThreadState) : Inert w (w.modifyThread f) :=
  inert_of_tables rfl rfl

/-! ## Native objects -/

/-- The object at an address after the entry of a native object is changed. -/
theorem nativeObject?_modifyNative (w : World) (n : NativeId) {f : NativeEntry → NativeEntry}
    {g : Native → Native} (acts : ∀ e, (f e).object = g e.object ∧ (f e).deletions = e.deletions)
    (x : NativeId) : (w.modifyNative n f).nativeObject? x =
      if x = n then (w.nativeObject? n).map g else w.nativeObject? x := by
  obtain ⟨i⟩ := n
  obtain ⟨j⟩ := x
  have bodies : (w.modifyNative ⟨i⟩ f).bodies = w.bodies.modify i fun b => (g b.1, b.2) :=
    bodies_modifyNative ⟨i⟩ fun e => by rw [(acts e).1, (acts e).2]
  simp only [nativeObject?, bodies, List.getElem?_modify, NativeId.mk.injEq, eq_comm (a := i)]
  split
  · next same =>
      subst same
      cases w.bodies[j]? <;> rfl
  · cases w.bodies[j]? <;> rfl

/-- Changing a native object is a deed done to it. -/
theorem becomes_modifyNative {n : NativeId} {f : NativeEntry → NativeEntry} {g : Native → Native}
    (acts : ∀ e, (f e).object = g e.object ∧ (f e).deletions = e.deletions)
    (target : d.target? = some n) (same : ∀ o, w.nativeObject? n = some o → g o = d.act o) :
    Becomes made d w (w.modifyNative n f) where
  known x o found := by
    rw [nativeObject?_modifyNative w n acts x]
    split
    · next here =>
        subst here
        rw [found, Option.map_some, same o found, Deed.on_target target]
    · next apart =>
        rw [found, Deed.on_other]
        rw [target]
        exact fun here => apart (Option.some.inj here).symm
  added x o absent found := by
    rw [nativeObject?_modifyNative w n acts x] at found
    split at found
    · next here =>
        subst here
        rw [absent] at found
        cases found
    · rw [absent] at found
      cases found
  entries _ := id
  attached _ _ _ := id

/-- Changing a native store is a deed that is done to stores alone. -/
theorem becomes_modifyNativeStore {n : NativeId} {f : NativeStore → NativeStore}
    (target : d.target? = some n) (stores : ∀ s, d.onStore s = f s) (memories : ∀ m, d.onMemory m = m) :
    Becomes made d w (w.modifyNativeStore n f) := by
  refine becomes_modifyNative (g := d.act) (fun e => ?_) target fun _ _ => rfl
  obtain ⟨o, deletions, finalized, tag⟩ := e
  cases o with
  | store s => exact ⟨congrArg _ (stores s).symm, rfl⟩
  | memory m => exact ⟨congrArg _ (memories m).symm, rfl⟩
  | _ => exact ⟨rfl, rfl⟩

theorem becomes_take (w : World) (n : NativeId) : Becomes made (.take n) w
    (w.modifyNativeStore n fun s => { s with interrupt := false }) :=
  becomes_modifyNativeStore rfl (fun _ => rfl) fun _ => rfl

theorem becomes_count (w : World) (n : NativeId) : Becomes made (.enter n) w (w.count n) :=
  becomes_modifyNativeStore rfl (fun _ => rfl) fun _ => rfl

theorem becomes_leave (w : World) (n : NativeId) : Becomes made (.leave n) w (w.leave n) :=
  becomes_modifyNativeStore rfl (fun _ => rfl) fun _ => rfl

/-- A finalizer starts. -/
theorem inert_enterFinalizer (w : World) (n : NativeId) : Inert w (w.enterFinalizer n) :=
  inert_of_tables rfl (bodies_modifyNative_of_eq w n fun _ => ⟨rfl, rfl⟩)

/-- Adding a native object. -/
theorem becomes_allocNative (w : World) {o : Native} (new : made o) :
    Becomes made .idle w (w.allocNative o).2 where
  known n p found := by
    rw [nativeObject?_allocNative, if_neg]
    · exact found
    · rintro rfl
      have known := nativeObject?_isSome.mp (Option.isSome_of_mem found)
      exact Nat.lt_irrefl _ known
  added n p absent found := by
    rw [nativeObject?_allocNative] at found
    split at found
    · cases found
      exact new
    · cases absent.symm.trans found
  entries _ := id
  attached _ _ _ := id

/-! ## Stores, memories and functions -/

def interrupts? (w : World) (n : NativeId) : Option NativeId :=
  match w.native? n with
  | some (.interrupt s) => some s
  | _ => none

def interruptDeed (w : World) (n : NativeId) : Deed :=
  match w.interrupts? n with
  | some s => .interrupt s
  | none => .idle

/-- A request through a native handle interrupts the store that it was made for. -/
theorem interruptDeed_of_native {n store : NativeId} (native : w.native? n = some (.interrupt store)) :
    w.interruptDeed n = .interrupt store := by
  unfold interruptDeed interrupts?
  rw [native]

theorem interruptDeed_cases (w : World) (n : NativeId) : w.interruptDeed n = .idle ∨
    ∃ store, w.native? n = some (.interrupt store) ∧ w.interruptDeed n = .interrupt store := by
  unfold interruptDeed interrupts?
  split
  · next s found =>
      split at found
      · next store native =>
          cases found
          exact .inr ⟨s, native, rfl⟩
      · cases found
  · exact .inl rfl

theorem becomes_requestInterrupt (w : World) (n : NativeId) :
    Becomes made (w.interruptDeed n) w (w.requestInterrupt n) := by
  unfold interruptDeed interrupts? requestInterrupt
  cases w.native? n with
  | none => exact .refl w
  | some o =>
      cases o with
      | interrupt s => exact becomes_modifyNativeStore rfl (fun _ => rfl) fun _ => rfl
      | _ => exact .refl w

theorem becomes_interrupt (w : World) (h : Handle) :
    Becomes made (w.interruptDeed h.native) w (w.interrupt h) := by
  have logged := same_logAbout w h.native .interruptRequested
  have same : (w.logAbout h.native .interruptRequested).interruptDeed h.native =
      w.interruptDeed h.native := by
    unfold interruptDeed interrupts?
    rw [native?_eq, native?_eq, logged.nativeObject?, logged.deletions]
  rw [← same]
  exact (becomes_requestInterrupt _ _).after logged.inert

theorem inert_borrow (w : World) (n : NativeId) (store owner : ObjId) (state : HandleState) :
    Inert w (w.borrow n store owner state).2 :=
  (inert_retain w store).trans ((inert_retain _ owner).trans (inert_alloc _ _ _))

/-! ## Memories -/

/-- The content of a memory is the object at its address. -/
theorem nativeObject?_of_nativeMemory? {n : NativeId} {m : LinearMemory}
    (found : w.nativeMemory? n = some m) : w.nativeObject? n = some (.memory m) :=
  nativeObject?_of_native? (nativeMemory?_eq_some.mp found)

/-- A deed that leaves the only object it is done to as it is. -/
theorem becomes_self {n : NativeId} {m : LinearMemory} (target : d.target? = some n)
    (found : w.nativeMemory? n = some m) (same : d.onMemory m = m) : Becomes made d w w where
  known x o here := by
    by_cases at_ : n = x
    · subst at_
      cases (nativeObject?_of_nativeMemory? found).symm.trans here
      rw [Deed.on_target target, here]
      exact congrArg _ (congrArg _ same.symm)
    · rw [Deed.on_other, here]
      rw [target]
      exact fun same => at_ (Option.some.inj same)
  added x o absent here := by cases absent.symm.trans here
  entries _ := id
  attached _ _ _ := id

/-- Replacing a memory by what a deed makes of it. -/
theorem becomes_setMemory {n : NativeId} {m m' : LinearMemory} (target : d.target? = some n)
    (found : w.nativeMemory? n = some m) (same : d.onMemory m = m') :
    Becomes made d w (w.setNative n (.memory m')) := by
  refine becomes_modifyNative (g := fun _ => .memory m') (fun _ => ⟨rfl, rfl⟩) target fun o here => ?_
  cases (nativeObject?_of_nativeMemory? found).symm.trans here
  exact congrArg _ same.symm

theorem becomes_growNative {n : NativeId} {m : LinearMemory} (found : w.nativeMemory? n = some m)
    (delta : UInt32) : Becomes made (.grow n delta) w (w.growNative n m delta).2 := by
  have acts : (Deed.grow n delta).onMemory m = (m.grow? delta).getD m := rfl
  unfold growNative
  cases grown : m.grow? delta with
  | none =>
      rw [grown] at acts
      exact becomes_self rfl found acts
  | some m' =>
      rw [grown] at acts
      exact becomes_setMemory rfl found acts

theorem becomes_grow {n : NativeId} {m : LinearMemory} (found : w.nativeMemory? n = some m)
    (delta : UInt32) : Becomes made (.grow n delta) w (w.grow n m delta).2 := by
  have grown : Becomes made _ _ _ := becomes_growNative found delta
  unfold grow
  split
  · next granted => rwa [granted] at grown
  · next v refused =>
      rw [refused] at grown
      exact grown.trans (same_logAbout v n fun t => .refusedGrow t delta).inert.becomes

theorem becomes_write {n : NativeId} {m : LinearMemory} (found : w.nativeMemory? n = some m)
    (offset : Nat) (data : Runs) : Becomes made (.write n offset data) w (w.write n m offset data).2 := by
  have acts : (Deed.write n offset data).onMemory m = (m.write? offset data).getD m := rfl
  unfold write
  cases written : m.write? offset data with
  | none =>
      rw [written] at acts
      exact becomes_self rfl found acts
  | some m' =>
      rw [written] at acts
      exact becomes_setMemory rfl found acts

theorem becomes_poke {n : NativeId} {m : LinearMemory} (found : w.nativeMemory? n = some m)
    (offset : Nat) (data : Runs) :
    Becomes made (.poke n offset data) w (w.setNative n (.memory (m.overwrite offset data))) :=
  becomes_setMemory rfl found rfl

end World

end HostEmbedding
