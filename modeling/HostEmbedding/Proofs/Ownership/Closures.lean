import HostEmbedding.Proofs.Ownership.Flushing
import HostEmbedding.Proofs.Ownership.Graph

/-!
# Closures

A closure is attached to its environment as long as a handle on its function lives. The end of the
owning handle takes it out: then the closure is dropped next, unless a body runs it, and a running body
has a handle on the function. Nothing else ever drops a closure, so a flush, which drops environments
only, never does.
-/

namespace HostEmbedding

@[simp]
theorem ObjId.env_inj {c d : ObjId} : c.env = d.env ↔ c = d := by
  obtain ⟨i⟩ := c
  obtain ⟨j⟩ := d
  simp [ObjId.env]

def Shapes.Calls (Γ : Shapes) (f c : ObjId) : Prop :=
  ∃ h s t, Γ.IsHandle f h ∧ Γ.native? h.native = some (.func ⟨s, t, .host c.env⟩)

/-! ## What holds a closure -/

section

variable {Γ : Shapes} {c : ObjId} {code : HostCode} {captures : Scope}

theorem Shapes.IsStore.plain {n : NativeId} (isStore : Γ.IsStore c n) :
    ¬ Γ.IsClosure c code captures := by
  intro isClosure
  obtain ⟨config, known⟩ := isStore
  cases isClosure.symm.trans known

theorem Shapes.IsHandle.plain {h : Handle} (known : Γ.IsHandle c h) : ¬ Γ.IsClosure c code captures := by
  intro isClosure
  cases isClosure.symm.trans known

theorem Shapes.IsEnv.plain {type : FuncType} {s : ObjId} (isEnv : Γ.IsEnv c type s) :
    ¬ Γ.IsClosure c code captures := by
  intro isClosure
  cases isClosure.symm.trans isEnv

theorem Shapes.IsReferent.plain (isReferent : Γ.IsReferent c) : ¬ Γ.IsClosure c code captures := by
  intro isClosure
  obtain ⟨label, payload, known⟩ := isReferent
  cases isClosure.symm.trans known

theorem Shapes.IsCell.plain (isCell : Γ.IsCell c) : ¬ Γ.IsClosure c code captures := by
  intro isClosure
  cases isClosure.symm.trans isCell

/-- Variables hold no closures. -/
theorem Item.Fits.plain {i : Item} (fits : i.Fits Γ) (mem : c ∈ i.refs) :
    ¬ Γ.IsClosure c code captures := by
  have handle {id : ObjId} (here : c ∈ [id]) (known : ∃ h, Γ.IsHandle id h) :
      ¬ Γ.IsClosure c code captures := by
    obtain rfl := List.mem_singleton.mp here
    obtain ⟨h, known⟩ := known
    exact known.plain
  cases i with
  | engine config => cases mem
  | raw n => cases mem
  | store s =>
      obtain rfl := List.mem_singleton.mp mem
      obtain ⟨n, isStore⟩ := fits
      exact isStore.plain
  | memory id =>
      obtain ⟨h, lock, known, -⟩ := fits
      exact handle mem ⟨h, known⟩
  | func id type =>
      obtain ⟨h, env, f, known, -⟩ := fits
      exact handle mem ⟨h, known⟩
  | typedFunc id type sig =>
      obtain ⟨-, h, env, f, known, -⟩ := fits
      exact handle mem ⟨h, known⟩
  | view id =>
      obtain ⟨h, known, -⟩ := fits
      exact handle mem ⟨h, known⟩
  | interrupt id =>
      obtain ⟨h, known, -⟩ := fits
      exact handle mem ⟨h, known⟩
  | value s => exact (fits c (Option.mem_toList.mp mem)).plain
  | cell id =>
      obtain rfl := List.mem_singleton.mp mem
      exact Shapes.IsCell.plain fits

theorem Scope.Fits.plain {s : Scope} (fits : s.Fits Γ) (mem : c ∈ s.refs) :
    ¬ Γ.IsClosure c code captures := by
  obtain ⟨p, listed, mem⟩ := List.mem_flatMap.mp mem
  exact (fits p listed).plain mem

/-- Handles hold no closures. -/
theorem Handle.Fits.plain {h : Handle} (fits : h.Fits Γ) (mem : c ∈ h.refs) :
    ¬ Γ.IsClosure c code captures := by
  obtain ⟨s, isStore, state⟩ := fits.state
  simp only [Handle.refs, List.mem_cons, List.mem_append, Option.mem_toList] at mem
  rcases mem with rfl | owner | env
  · exact isStore.plain
  · obtain ⟨k, known, -⟩ := fits.owner c owner
    exact known.plain
  · cases kind : h.state with
    | func held =>
        rw [kind] at env state
        obtain ⟨e, type, -, isEnv, same⟩ := state
        have here : held = some c := env
        rw [here] at same
        split at same
        · cases same
          exact isEnv.plain
        · cases same
    | _ => rw [kind] at env; cases env

/-- Only an environment holds a closure. -/
theorem Object.Fits.closureOf {id : ObjId} {o : Object} (fits : o.Fits Γ id) (mem : c ∈ o.refs)
    (isClosure : Γ.IsClosure c code captures) : World.closureOf o = some c := by
  cases o with
  | store n config p => cases mem
  | handle h => exact absurd isClosure (Handle.Fits.plain fits mem)
  | env closure t s => simpa [Object.refs, World.closureOf] using mem
  | closure code' captures' => exact absurd isClosure (Scope.Fits.plain fits.2 mem)
  | referent label payload =>
      cases payload with
      | item i => exact absurd isClosure ((fits i rfl).plain mem)
      | _ => cases mem
  | cell content =>
      cases content with
      | none => cases mem
      | some i => exact absurd isClosure ((fits i rfl).plain (by simpa [Object.refs] using mem))

end

namespace World

variable {w v : World} {held : List ObjId} {moving : List NativeId} {tasks : List Task} {n : NativeId}
  {c : ObjId} {code : HostCode} {captures : Scope}

/-! ## A function and its closure -/

def Lives (w : World) (n : NativeId) : Prop := ∃ id h, w.handle? id = some h ∧ h.native = n

/-- A host function, deleted or not, was registered with a closure. -/
def IsClosureOf (w : World) (n : NativeId) (c : ObjId) : Prop := w.lentTo n = some c.env

/-- The owning handle of a function holds the environment that the function was lent. -/
theorem Accounted.owner_of_lentTo (acc : w.Accounted held moving) {e : ObjId}
    (lent : w.lentTo n = some e) :
    ∃ i h type, w.IsOwner n i h ∧ h.state.env? = some e ∧ w.shapes.IsEnv e type h.store := by
  obtain ⟨f, found⟩ := func_of_lentTo lent
  obtain ⟨i, h, owner⟩ := acc.exists_owner found rfl
  obtain ⟨known, owning, native⟩ := isOwner_iff.mp owner
  have shape : w.shapes.native? h.native = some (.func f) := by
    rw [native]
    simp [World.shapes, found, Native.shape]
  obtain ⟨e', s, type, state, rfl, -, isEnv⟩ := acc.func_owner known owning shape
  obtain rfl : e' = e := by
    rw [lentTo, found] at lent
    exact Option.some.inj lent
  exact ⟨i, h, type, owner, by rw [state]; rfl, isEnv⟩

/-- What a function was lent is the environment of a closure. -/
theorem Accounted.closure_of_lentTo (acc : w.Accounted held moving) {e : ObjId}
    (lent : w.lentTo n = some e) : ∃ c code captures, e = c.env ∧ w.shapes.IsClosure c code captures := by
  obtain ⟨i, h, type, -, -, isEnv⟩ := acc.owner_of_lentTo lent
  obtain ⟨k, closure, entry⟩ := isEnv_iff.mp isEnv
  have fits : Object.Fits w.shapes e (.env closure type h.store) := acc.objects entry
  obtain ⟨-, c, code, captures, same, isClosure, -⟩ := fits
  exact ⟨c, code, captures, same, isClosure⟩

/-- An environment holds its own closure or nothing. -/
theorem Balanced.attached_or (bal : w.Balanced held moving) (c : ObjId) :
    w.attached? c.env = none ∨ w.attached? c.env = some c := by
  cases attached : w.attached? c.env with
  | none => exact .inl rfl
  | some d =>
      have same := bal.env_of_attached attached
      rw [ObjId.env_inj] at same
      exact .inr (congrArg some same.symm)

/-- The closure of a function is attached exactly as long as a handle on the function lives. -/
theorem Accounted.attached_iff (acc : w.Accounted held moving) (own : w.IsClosureOf n c) :
    w.attached? c.env = some c ↔ w.Lives n := by
  obtain ⟨i, h, -, owner, env, -⟩ := acc.owner_of_lentTo own
  obtain ⟨known, -, native⟩ := isOwner_iff.mp owner
  have dead := acc.attached known env
  constructor
  · intro attached
    have alive : w.strong i ≠ 0 := fun none => by
      rw [dead.mp none] at attached
      cases attached
    exact ⟨i, h, handle?_eq_some.mpr ⟨known, alive⟩, native⟩
  · rintro ⟨j, k, found, rfl⟩
    obtain ⟨known', alive⟩ := handle?_eq_some.mp found
    have ownerAlive := acc.owner_alive owner known' alive
    exact (acc.attached_or c).resolve_left fun none => ownerAlive (dead.mpr none)

theorem Balanced.isClosure_of_attached (bal : w.Balanced held moving) {e : ObjId}
    (attached : w.attached? e = some c) : ∃ code captures, w.shapes.IsClosure c code captures := by
  obtain ⟨k, t, s, found⟩ := attached?_eq_some.mp attached
  have fits : Object.Fits w.shapes e (.env (some c) t s) := bal.objects found
  obtain ⟨-, own, code, captures, -, isClosure, -, only⟩ := fits
  rw [only c rfl]
  exact ⟨code, captures, isClosure⟩

/-- Attached closures are alive, and so are their environments and the owning handles that hold them. -/
theorem Accounted.alive_of_attached (acc : w.Accounted held moving) {e : ObjId}
    (attached : w.attached? e = some c) :
    c ∈ w.owned ∧ ∃ i h, w.shapes.IsHandle i h ∧ h.state.env? = some e ∧ w.strong i ≠ 0 ∧ e ∈ w.owned := by
  obtain ⟨i, h, known, env⟩ := acc.attachedOwned attached
  have alive : w.strong i ≠ 0 := fun none => by
    rw [(acc.attached known env).mp none] at attached
    cases attached
  obtain ⟨j, handle⟩ := isHandle_iff.mp known
  have holds : e ∈ w.owned :=
    mem_owned.mpr ⟨i, _, handle, by rwa [strong_eq handle] at alive, by simp [Object.refs, Handle.refs, env]⟩
  obtain ⟨k, t, s, found⟩ := attached?_eq_some.mp attached
  have envAlive := acc.alive_of_mem_owned holds
  rw [strong_eq found] at envAlive
  exact ⟨mem_owned.mpr ⟨e, _, found, envAlive, by simp [Object.refs]⟩, i, h, known, env, alive, holds⟩

/-- A handle on the function of a closure that is alive keeps the closure attached. -/
theorem Accounted.attached_of_calls (acc : w.Accounted held moving) {f : ObjId}
    (calls : w.shapes.Calls f c) (alive : w.strong f ≠ 0) : w.attached? c.env = some c := by
  obtain ⟨h, s, t, known, native⟩ := calls
  have own : w.IsClosureOf h.native c := lentTo_of_shape native
  exact (acc.attached_iff own).mpr ⟨f, h, handle?_eq_some.mpr ⟨known, alive⟩, rfl⟩

/-- A closure that another object holds is attached. -/
theorem Balanced.attached_of_owned (bal : w.Balanced held moving)
    (isClosure : w.shapes.IsClosure c code captures) (mem : c ∈ w.owned) :
    w.attached? c.env = some c := by
  obtain ⟨x, e, found, -, mem⟩ := mem_owned.mp mem
  have holds := (bal.objects found).closureOf mem isClosure
  have attached : w.attached? x = some c := by rw [attached?_eq, found]; exact holds
  rwa [bal.env_of_attached attached] at attached

/-- What functions were lent are environments. -/
theorem Accounted.not_lent (acc : w.Accounted held moving)
    (isClosure : w.shapes.IsClosure c code captures) : c ∉ w.lent := by
  intro mem
  obtain ⟨type, s, isEnv⟩ := acc.isEnv_of_lent mem
  exact isEnv.plain isClosure

end World

end HostEmbedding
