import HostEmbedding.World.Basic

/-!
# Parking panics

A panic must not unwind through the engine. Each host call into the engine has a slot on its thread;
the first panic that reaches the engine below it is parked in the innermost slot, and the engine
returns a sentinel trap in its place. A panic that cannot be parked becomes an ordinary trap.
-/

namespace HostEmbedding.World

/-- Open the slot of a host call. -/
def pushFrame (w : World) : World := w.modifyThread fun t => { t with frames := none :: t.frames }

/-- Close the innermost slot and take what was parked in it. -/
def popFrame (w : World) : Option Fault × World :=
  match w.thread.frames with
  | [] => (none, w)
  | slot :: rest => (slot, w.modifyThread fun t => { t with frames := rest })

/-- The trap that a panic turns into on its way through the engine. -/
def park (w : World) (f : Fault) : NativeTrap × World :=
  match w.thread.frames with
  | none :: rest => (.sentinel, w.modifyThread fun t => { t with frames := some f :: rest })
  | some _ :: _ => (.unparked f, w.log (.unparked .occupied f.message))
  | [] => (.unparked f, w.log (.unparked .noFrame f.message))

end HostEmbedding.World
