import HostEmbedding.Proofs.Ownership.Views
import HostEmbedding.Script.Run

/-!
# What a machine holds

The references outside the heap are those of the globals, of the running context, of everything that
waits on the stack, and of the control. A scope keeps its names apart, so setting and removing a
variable exchange exactly the references of that variable.
-/

namespace HostEmbedding

/-! ## Scopes -/

namespace Scope

/-- No name stands twice in a scope. -/
def Distinct (s : Scope) : Prop := (s.map Prod.fst).Nodup

variable {s : Scope} {name : String} {item : Item}

theorem find?_cons (p : String × Item) (s : Scope) (name : String) :
    find? (p :: s) name = if p.1 = name then some p.2 else find? s name := by
  obtain ⟨n, i⟩ := p
  unfold find?
  by_cases same : n = name
  · subst same
    simp [List.lookup]
  · have apart : (name == n) = false := by simpa using Ne.symm same
    simp [List.lookup, apart, same]

theorem mem_of_find? (found : s.find? name = some item) : (name, item) ∈ s := by
  induction s with
  | nil => cases found
  | cons p rest ih =>
      rw [find?_cons] at found
      split at found
      · next same =>
          cases found
          rw [← same]
          exact List.mem_cons_self
      · exact List.mem_cons_of_mem p (ih found)

/-- What a variable owns is owned by its scope. -/
theorem refs_of_find? (found : s.find? name = some item) {id : ObjId} (mem : id ∈ item.refs) :
    id ∈ s.refs :=
  List.mem_flatMap.mpr ⟨_, mem_of_find? found, mem⟩

theorem keys_insert (name : String) (item : Item) (s : Scope) :
    ∀ n, n ∈ (insert name item s).map Prod.fst ↔ n = name ∨ n ∈ s.map Prod.fst := by
  intro n
  induction s with
  | nil => simp [insert]
  | cons p rest ih =>
      obtain ⟨m, i⟩ := p
      unfold insert
      split
      · next same =>
          subst same
          simp
      · simp only [List.map_cons, List.mem_cons, ih]
        tauto

theorem Distinct.insert (distinct : s.Distinct) : (s.insert name item).Distinct := by
  unfold Distinct at *
  induction s with
  | nil => simp [Scope.insert]
  | cons p rest ih =>
      obtain ⟨m, i⟩ := p
      obtain ⟨fresh, rest'⟩ := List.nodup_cons.mp distinct
      unfold Scope.insert
      split
      · exact distinct
      · next other =>
          refine List.nodup_cons.mpr ⟨fun mem => ?_, ih rest'⟩
          rcases (keys_insert name item rest m).mp mem with same | mem
          · exact other same
          · exact fresh mem

theorem Distinct.erase (distinct : s.Distinct) : (s.erase name).Distinct := by
  unfold Distinct Scope.erase at *
  exact distinct.sublist (List.Sublist.map _ List.filter_sublist)

/-- Setting a variable exchanges what it held for the new item. -/
theorem count_insert (s : Scope) (name : String) (item : Item) (id : ObjId) :
    (s.insert name item).refs.count id + ((s.find? name).toList.flatMap Item.refs).count id =
      s.refs.count id + item.refs.count id := by
  induction s with
  | nil => simp [Scope.insert, Scope.refs, find?]
  | cons p rest ih =>
      obtain ⟨m, i⟩ := p
      rw [find?_cons]
      unfold Scope.insert
      by_cases same : m = name
      · rw [if_pos same, if_pos same]
        simp only [Scope.refs, List.flatMap_cons, List.count_append, Option.toList_some,
          List.flatMap_nil, List.append_nil]
        omega
      · rw [if_neg same, if_neg same]
        simp only [Scope.refs, List.flatMap_cons, List.count_append] at ih ⊢
        omega

/-- Removing a variable gives up what it held. -/
theorem count_erase (distinct : s.Distinct) (found : s.find? name = some item) (id : ObjId) :
    (s.erase name).refs.count id + item.refs.count id = s.refs.count id := by
  induction s with
  | nil => cases found
  | cons p rest ih =>
      obtain ⟨m, i⟩ := p
      obtain ⟨fresh, rest'⟩ := List.nodup_cons.mp distinct
      rw [find?_cons] at found
      unfold Scope.erase
      by_cases same : m = name
      · rw [if_pos same] at found
        cases found
        subst same
        have kept : rest.filter (fun p => decide (p.1 ≠ m)) = rest := by
          refine List.filter_eq_self.mpr fun p mem => ?_
          have apart : p.1 ≠ m := fun eq => fresh (List.mem_map.mpr ⟨p, mem, eq⟩)
          simpa using apart
        simp only [List.filter_cons, ne_eq, not_true_eq_false, decide_false, Bool.false_eq_true,
          if_false]
        simp only [ne_eq] at kept
        rw [kept]
        simp only [Scope.refs, List.flatMap_cons, List.count_append]
        omega
      · rw [if_neg same] at found
        have inner := ih rest' found
        unfold Scope.erase at inner
        simp only [List.filter_cons, ne_eq, same, not_false_eq_true, decide_true, if_true]
        simp only [Scope.refs, List.flatMap_cons, List.count_append] at inner ⊢
        simp only [ne_eq] at inner
        omega

theorem fits_insert {Γ : Shapes} (fits : s.Fits Γ) (new : item.Fits Γ) :
    (s.insert name item).Fits Γ := by
  induction s with
  | nil =>
      intro p mem
      cases List.mem_singleton.mp mem
      exact new
  | cons p rest ih =>
      obtain ⟨m, i⟩ := p
      have inner := ih fun q mem => fits q (List.mem_cons_of_mem _ mem)
      unfold Scope.insert
      intro q mem
      split at mem
      · rcases List.mem_cons.mp mem with rfl | mem
        · exact new
        · exact fits q (List.mem_cons_of_mem _ mem)
      · rcases List.mem_cons.mp mem with rfl | mem
        · exact fits _ List.mem_cons_self
        · exact inner q mem

theorem fits_erase {Γ : Shapes} (fits : s.Fits Γ) : (s.erase name).Fits Γ :=
  fun p mem => fits p (List.mem_of_mem_filter mem)

end Scope

/-! ## Frames and contexts -/

def Context.refs : Context → List ObjId
  | .body a => a.locals.refs ++ (Val.refs a.params ++ [a.closure, a.store])
  | _ => []

def Frame.refs : Frame → List ObjId
  | .hostCall c => c.request.refs ++ Slot.refs c.raw
  | .activation saved => saved.refs
  | .thread saved _ => saved.refs
  | .finalizer saved => saved.refs
  | _ => []

/-- The references that are on their way between a step and the frame on top. -/
def Control.refs : Control → List ObjId
  | .complete c => c.refs
  | .engine (.ok slots) => Slot.refs slots
  | _ => []

def Context.entered : Context → List NativeId
  | .body a => [a.native]
  | _ => []

def Frame.entered : Frame → List NativeId
  | .activation saved => saved.entered
  | .thread saved _ => saved.entered
  | .finalizer saved => saved.entered
  | _ => []

def Context.withLocals (s : Scope) : Context → Context
  | .body a => .body { a with locals := s }
  | c => c

def Context.locals : Context → Scope
  | .body a => a.locals
  | _ => []

theorem Context.withLocals_locals (c : Context) : c.withLocals c.locals = c := by
  cases c <;> rfl

theorem Context.withLocals_kept (c : Context) : ∃ s, c = c.withLocals s :=
  ⟨c.locals, c.withLocals_locals.symm⟩

@[simp]
theorem Context.withLocals_withLocals (c : Context) (s t : Scope) :
    (c.withLocals s).withLocals t = c.withLocals t := by
  cases c <;> rfl

/-- The context that waits below some frames, on top of which another one runs. -/
def Frame.context (ctx : Context) : List Frame → Context
  | [] => ctx
  | .activation saved :: below => context saved below
  | .thread saved _ :: below => context saved below
  | .finalizer saved :: below => context saved below
  | _ :: below => context ctx below

theorem Frame.context_append (ctx : Context) (above below : List Frame) :
    context ctx (above ++ below) = context (context ctx above) below := by
  induction above generalizing ctx with
  | nil => rfl
  | cons f above ih => cases f <;> exact ih _

/-- Setting locals on top of some frames sets locals below them, or nothing at all. -/
theorem Frame.context_withLocals (ctx : Context) (s : Scope) (frames : List Frame) :
    ∃ t, context (ctx.withLocals s) frames = (context ctx frames).withLocals t := by
  induction frames with
  | nil => exact ⟨s, rfl⟩
  | cons f below ih =>
      cases f with
      | activation saved => exact Context.withLocals_kept _
      | thread saved state => exact Context.withLocals_kept _
      | finalizer saved => exact Context.withLocals_kept _
      | _ => exact ih

namespace Machine

def owns (m : Machine) : List ObjId :=
  m.globals.refs ++ (m.context.refs ++ m.stack.flatMap Frame.refs)

def held (m : Machine) : List ObjId := m.control.refs ++ m.owns

/-- The native stores that running calls have entered, once for each call. -/
def entered (m : Machine) : List NativeId := m.context.entered ++ m.stack.flatMap Frame.entered

def events (m : Machine) : List Event :=
  m.answers.flatMap Record.events ++ (m.world.events ++
    match m.control with
    | .halted ending => ending
    | _ => [])

/-- The drops that were reported so far. -/
def reported (m : Machine) : List Drop := m.events.filterMap Event.drop?

end Machine

end HostEmbedding
