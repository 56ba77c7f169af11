import HostEmbedding.World.Basic

/-!
# Releasing

Dropping a counted reference can drop its object, and with it what the object owns: depth first, in
a fixed order. The last owning handle of a native object never deletes it; it detaches the closure of
a function and queues the pointer in its store. A flush deletes what is queued, and the last reference
to a store flushes it and deletes it.

The work is a list of tasks. `perform` does one task and gives the tasks that come before the rest,
and `drain` repeats that; `effort` bounds the number of tasks that can follow.
-/

namespace HostEmbedding

inductive Task where
  /-- Drop one counted reference. -/
  | ref (id : ObjId)
  /-- Queue the native object of an owning handle. -/
  | queue (h : Handle)
  /-- Release the next batch of a store, `total` objects having been released before. -/
  | flush (store : ObjId) (total : Nat)
  /-- Drop the retired environments after a batch; `again` says whether anything was released. -/
  | sweep (store : ObjId) (total : Nat) (again : Bool)
  /-- Delete the native side of a store. -/
  | deleteStore (native : NativeId)

namespace World

/-- Delete a memory. -/
def deleteMemory (w : World) (n : NativeId) : World := (w.guard .memoryDelete).deleteNative n

def deleteInterrupt (w : World) (n : NativeId) : World :=
  (w.guard .interruptDelete).deleteNative n

/-- Delete a function. The finalizer of host code hands the environment back; that of a native
callback is left to the caller. -/
def deleteFunc (w : World) (n : NativeId) : World :=
  let callback? := (w.nativeFunc? n).map NativeFunc.callback
  let w := (w.guard .funcDelete).deleteNative n
  match callback? with
  | some (.host env) => ((w.enterFinalizer n).retire env).leaveFinalizer
  | _ => w

def deleteExtern (w : World) (n : NativeId) : World :=
  match w.externKind? n with
  | some .func => w.deleteFunc n
  | some .memory => w.deleteMemory n
  | none => w

def releaseNative (w : World) (kind : HandleState) (n : NativeId) : World :=
  let w := w.logAbout n (.releasing kind.kindName)
  match kind with
  | .memory _ => w.deleteMemory n
  | .interrupt => w.deleteInterrupt n
  | .view => w.deleteExtern n
  | .func _ => w.deleteFunc n

def releaseQueue (w : World) (kind : HandleState) (ns : List NativeId) : World :=
  ns.foldl (fun w n => w.releaseNative kind n) w

/-- Delete a batch: memories, extern views, interrupt handles, functions. -/
def releaseBatch (w : World) (p : Pending) : World :=
  let w := w.releaseQueue (.memory 0) p.memories
  let w := w.releaseQueue .view p.externs
  let w := w.releaseQueue .interrupt p.interrupts
  w.releaseQueue (.func none) p.funcs

/-- Take the closure out of an environment: the reference that is to be dropped, if there was one. -/
def detach (w : World) (env : ObjId) : List Task × World :=
  match w.entry? env with
  | some ⟨_, .env (some c) type store⟩ => ([.ref c], w.setObject env (.env none type store))
  | _ => ([], w)

/-- What remains to be done when the count of an object has reached zero. -/
def dispose (w : World) (id : ObjId) : Object → List Task × World
  | .store native _ _ => ([.flush id 0, .deleteStore native], w)
  | .handle h =>
      if h.isOwning then
        let (tasks, w) := match h.state.env? with
          | some env => w.detach env
          | none => ([], w)
        (tasks ++ .queue h :: h.refs.map .ref, w)
      else (h.refs.map .ref, w)
  | .closure code captures => (captures.refs.map .ref, w.emit (.closureDropped code.label))
  | .referent label payload => (payload.refs.map .ref, w.emit (.dropped label))
  | o => (o.refs.map .ref, w)

/-- Do one task; the tasks that come before the rest, and the world after it. -/
def perform (w : World) : Task → List Task × World
  | .ref id =>
      match w.entry? id with
      | none => ([], w)
      | some ⟨0, _⟩ => ([], w)
      | some ⟨1, o⟩ => (w.modifyEntry id fun e => { e with strong := 0 }).dispose id o
      | some ⟨n + 2, _⟩ => ([], w.modifyEntry id fun e => { e with strong := n + 1 })
  | .queue h =>
      let w := w.modifyPending h.store fun p => p.push h.native h.state
      ([], w.logAbout h.native (.deferred h.state.kindName))
  | .flush store total =>
      let batch := w.pending store
      let w := (w.modifyPending store fun _ => {}).releaseBatch batch
      ([.sweep store (total + batch.size) (batch.size ≠ 0)], w)
  | .sweep store total again =>
      match w.thread.retired with
      | [] =>
          if again then ([.flush store total], w)
          else
            let w := if total = 0 then w else w.log (.released total)
            ([], { w with lastFlush := total })
      | envs =>
          (envs.map .ref ++ [.sweep store total true],
            w.modifyThread fun t => { t with retired := [] })
  | .deleteStore native =>
      let w := (w.guard .storeDelete).deleteNative native
      ([], w.logAbout native .deletedStore)

/-- Do tasks in order, the tasks that one brings up before the rest, until none is left or the fuel is
spent; the tasks that are left, and the world. -/
def drain : Nat → List Task → World → List Task × World
  | _, [], w => ([], w)
  | 0, ts, w => (ts, w)
  | fuel + 1, t :: ts, w =>
      let (first, w) := w.perform t
      drain fuel (first ++ ts) w

/-- The cost of a task: more than what it can bring up, less what it takes from the world. -/
def taskEffort : Task → Nat
  | .ref _ => 1
  | .queue _ => 9
  | .flush .. => 3
  | .sweep _ _ again => if again then 4 else 2
  | .deleteStore _ => 1

/-- What an entry can still bring up. -/
def entryEffort (e : Entry) : Nat :=
  match e with
  | ⟨0, .store _ _ p⟩ => 8 * p.size
  | ⟨0, _⟩ => 0
  | ⟨_, .store _ _ p⟩ => 8 * p.size + 12
  | ⟨_, o⟩ => o.refs.length + 12

/-- A bound on the number of tasks that a list of tasks can bring up. -/
def effort (w : World) (tasks : List Task) : Nat :=
  tasks.foldl (fun n t => n + taskEffort t) 0 + w.heap.foldl (fun n e => n + entryEffort e) 0 +
    4 * w.thread.retired.length

/-- Do tasks in order to their end. -/
def complete (w : World) (tasks : List Task) : World :=
  if tasks.isEmpty then w else (drain (w.effort tasks) tasks w).2

def release (w : World) (id : ObjId) : World :=
  let (tasks, w) := w.perform (.ref id)
  w.complete tasks

def releaseAll (w : World) (ids : List ObjId) : World := ids.foldl release w

/-- Release everything queued in a store, and what that queues in turn. -/
def flush (w : World) (store : ObjId) : World := w.complete [.flush store 0]

end World

end HostEmbedding
