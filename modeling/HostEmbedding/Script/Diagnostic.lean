import HostEmbedding.Host.Memory

/-!
# Diagnostic text

The diagnostic form of what a variable holds. A native object is shown by its number, which it gets
here if it was never shown before; the address of a reference is not shown.
-/

namespace HostEmbedding

namespace Diagnostic

def record (name : String) (fields : List (String × String)) : String :=
  name ++ " \x7b " ++
    FuncType.separated ", " (fields.map fun f => f.1 ++ ": " ++ f.2) ++ " \x7d"

def value : Val ObjId → String
  | .i32 v => "I32(" ++ toString v.toInt ++ ")"
  | .i64 v => "I64(" ++ toString v.toInt ++ ")"
  | .f32 b => "F32(" ++ toString b.toNat ++ ")"
  | .f64 b => "F64(" ++ toString b.toNat ++ ")"
  | .externref none => "ExternRef(None)"
  | .externref (some _) => "ExternRef(Some(ExternRef(#ref)))"

end Diagnostic

namespace World

open Diagnostic

def debugHandle (w : World) (h : Handle) : String × World :=
  let (t, w) := w.tag h.native
  (record "Handle" [("kind", "\"" ++ h.state.kindName ++ "\""), ("ptr", LogRecord.tagText t),
    ("owning", toString h.isOwning)], w)

def debugFunc (w : World) (h : Handle) (type : FuncType) : String × World :=
  let (s, w) := w.debugHandle h
  (record "Func" [("ty", type.debugText), ("handle", s)], w)

/-- The diagnostic form of an item; none for one that has no such form. -/
def debug? (w : World) : Item → Option (String × World)
  | .engine c => some (record "Engine" [("config", c.debugText)], w)
  | .store s =>
      (w.storeNative? s).map fun n =>
        let (t, w) := w.tag n
        (record "Store" [("ptr", LogRecord.tagText t), ("pending", toString (w.pending s).size)], w)
  | .memory id =>
      (w.handle? id).bind fun h =>
        (w.nativeMemory? h.native).map fun m =>
          let (s, w) := w.debugHandle h
          (record "Memory" [("size", toString m.pages.toNat), ("handle", s)], w)
  | .func id type => (w.handle? id).map fun h => w.debugFunc h type
  | .view id =>
      (w.handle? id).bind fun h =>
        (w.externKind? h.native).map fun k =>
          let (s, w) := w.debugHandle h
          (record "Extern" [("kind", k.name), ("handle", s)], w)
  | .interrupt id =>
      (w.handle? id).map fun h =>
        let (s, w) := w.debugHandle h
        ("InterruptHandle(" ++ s ++ ")", w)
  | .typedFunc id type _ =>
      (w.handle? id).map fun h =>
        let (s, w) := w.debugFunc h type
        (record "TypedFunc" [("func", s)], w)
  | .value s => some (Diagnostic.value s.toVal, w)
  | .cell _ => none
  | .raw _ => none

end World

end HostEmbedding
