import HostEmbedding.Script.Answer

/-!
# The world

Everything that operations read and change: the heap of counted host objects, the table of native
objects, the state of the running thread, and what has been shown so far. Objects and natives are
only ever added; a dropped object keeps a count of zero and a deleted native keeps its deletions.
-/

namespace HostEmbedding

/-- What belongs to one thread: the slot of each call into the engine, innermost first, where a panic
can be parked; the environments that finalizers handed back; and how many finalizers are running. -/
structure ThreadState where
  frames : List (Option Fault)
  retired : List ObjId
  finalizing : Nat

def ThreadState.fresh : ThreadState := ⟨[], [], 0⟩

/-- The state that operations act on. -/
structure World where
  heap : Array Entry
  natives : Array NativeEntry
  thread : ThreadState
  level : Option LogLevel
  /-- What happened, the latest first. -/
  events : List Event
  /-- How many natives have been shown. -/
  tags : Nat
  /-- How many access locks have been made. -/
  locks : Nat
  /-- How many natives the flush that ended last released. -/
  lastFlush : Nat
  /-- The guarded operation that a finalizer attempted, which ends the process. -/
  aborted : Option GuardedOp

namespace World

/-- A world in which nothing exists. -/
def empty (level : Option LogLevel) : World where
  heap := #[]
  natives := #[]
  thread := .fresh
  level := level
  events := []
  tags := 0
  locks := 0
  lastFlush := 0
  aborted := none

/-! ## Host objects -/

def entry? (w : World) (id : ObjId) : Option Entry := w.heap[id.index]?

/-- The number of counted references to an object; zero when it was dropped. -/
def strong (w : World) (id : ObjId) : Nat :=
  match w.entry? id with
  | some e => e.strong
  | none => 0

def object? (w : World) (id : ObjId) : Option Object :=
  match w.entry? id with
  | some e => if e.strong = 0 then none else some e.object
  | none => none

def handle? (w : World) (id : ObjId) : Option Handle :=
  match w.object? id with
  | some (.handle h) => some h
  | _ => none

def closure? (w : World) (id : ObjId) : Option (HostCode × Scope) :=
  match w.object? id with
  | some (.closure code captures) => some (code, captures)
  | _ => none

def payload? (w : World) (id : ObjId) : Option Payload :=
  match w.object? id with
  | some (.referent _ payload) => some payload
  | _ => none

/-- The queues of the store at an address, alive or not. -/
def pending (w : World) (store : ObjId) : Pending :=
  match w.entry? store with
  | some ⟨_, .store _ _ p⟩ => p
  | _ => {}

/-- The native object of the store at an address, alive or not. -/
def storeNative? (w : World) (store : ObjId) : Option NativeId :=
  match w.entry? store with
  | some ⟨_, .store n _ _⟩ => some n
  | _ => none

def storeConfig (w : World) (store : ObjId) : Config :=
  match w.entry? store with
  | some ⟨_, .store _ c _⟩ => c
  | _ => .standard

def label (w : World) (id : ObjId) : String :=
  match w.entry? id with
  | some ⟨_, .referent l _⟩ => l
  | _ => ""

def modifyEntry (w : World) (id : ObjId) (f : Entry → Entry) : World :=
  { w with heap := w.heap.modify id.index f }

/-- Replace the object at an address, its count kept. -/
def setObject (w : World) (id : ObjId) (o : Object) : World :=
  w.modifyEntry id fun e => { e with object := o }

def alloc (w : World) (o : Object) (strong : Nat) : ObjId × World :=
  (⟨w.heap.size⟩, { w with heap := w.heap.push ⟨strong, o⟩ })

def retain (w : World) (id : ObjId) : World :=
  w.modifyEntry id fun e => { e with strong := e.strong + 1 }

def retainAll (w : World) (ids : List ObjId) : World := ids.foldl retain w

def modifyPending (w : World) (store : ObjId) (f : Pending → Pending) : World :=
  w.modifyEntry store fun e =>
    match e.object with
    | .store n c p => { e with object := .store n c (f p) }
    | _ => e

/-! ## Native objects -/

/-- The native object at an address, while it has not been deleted. -/
def native? (w : World) (n : NativeId) : Option Native :=
  match w.natives[n.index]? with
  | some e => if e.isLive then some e.object else none
  | none => none

def nativeStore? (w : World) (n : NativeId) : Option NativeStore :=
  match w.native? n with
  | some (.store s) => some s
  | _ => none

def nativeFunc? (w : World) (n : NativeId) : Option NativeFunc :=
  match w.native? n with
  | some (.func f) => some f
  | _ => none

def nativeMemory? (w : World) (n : NativeId) : Option LinearMemory :=
  match w.native? n with
  | some (.memory m) => some m
  | _ => none

def externKind? (w : World) (n : NativeId) : Option ExternKind := (w.native? n).bind Native.externKind?

def modifyNative (w : World) (n : NativeId) (f : NativeEntry → NativeEntry) : World :=
  { w with natives := w.natives.modify n.index f }

/-- Replace a native object, its record kept. -/
def setNative (w : World) (n : NativeId) (o : Native) : World :=
  w.modifyNative n fun e => { e with object := o }

def allocNative (w : World) (o : Native) : NativeId × World :=
  (⟨w.natives.size⟩, { w with natives := w.natives.push ⟨o, 0, 0, none⟩ })

/-- Change a native store; deleted ones too, as their interrupt flag stays. -/
def modifyNativeStore (w : World) (n : NativeId) (f : NativeStore → NativeStore) : World :=
  w.modifyNative n fun e =>
    match e.object with
    | .store s => { e with object := .store (f s) }
    | _ => e

/-- Record that a guarded operation was attempted; while a finalizer runs the process ends. -/
def guard (w : World) (op : GuardedOp) : World :=
  if w.thread.finalizing = 0 then w
  else { w with aborted := some (w.aborted.getD op) }

def deleteNative (w : World) (n : NativeId) : World :=
  w.modifyNative n fun e => { e with deletions := e.deletions + 1 }

/-! ## What is shown -/

def emit (w : World) (e : Event) : World := { w with events := e :: w.events }

/-- Record a log record if its level is asked for. -/
def log (w : World) (r : LogRecord) : World :=
  match w.level with
  | some l => if r.level.rank ≤ l.rank then w.emit (.log r) else w
  | none => w

/-- The number a native object is shown under; the first time it gets the next free one. -/
def tag (w : World) (n : NativeId) : Nat × World :=
  match (w.natives[n.index]?).bind NativeEntry.tag with
  | some t => (t, w)
  | none =>
      (w.tags + 1, { w.modifyNative n (fun e => { e with tag := some (w.tags + 1) }) with
        tags := w.tags + 1 })

def logAbout (w : World) (n : NativeId) (r : Nat → LogRecord) : World :=
  let (t, w) := w.tag n
  w.log (r t)

def shown (w : World) (s : Scalar ObjId) : Shown := s.map w.label

def shownVals (w : World) (vs : List (Val ObjId)) : List Shown :=
  vs.map fun v => w.shown (.ofVal v)

/-! ## Threads -/

def modifyThread (w : World) (f : ThreadState → ThreadState) : World :=
  { w with thread := f w.thread }

def enterFinalizer (w : World) (n : NativeId) : World :=
  (w.modifyNative n fun e => { e with finalized := e.finalized + 1 }).modifyThread fun t =>
    { t with finalizing := t.finalizing + 1 }

def leaveFinalizer (w : World) : World :=
  w.modifyThread fun t => { t with finalizing := t.finalizing - 1 }

/-- Hand an environment back until the engine has returned. -/
def retire (w : World) (env : ObjId) : World :=
  w.modifyThread fun t => { t with retired := t.retired ++ [env] }

end World

end HostEmbedding
