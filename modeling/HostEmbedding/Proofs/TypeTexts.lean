import HostEmbedding.Proofs.Machine.Traps
import HostEmbedding.Proofs.Native.Transitions

/-!
# The texts of types

The text of a type says which type it is. A name is read up to the first character that cannot stand in it,
a list of names up to the bracket that closes it, and a number up to the first character that is no digit.
So an error about types shows by its message which types they are: a signature that does not fit shows two
different types, and a memory type that is rejected can be read off.
-/

namespace HostEmbedding

/-! ## Words -/

/-- A word is read off a text up to the first character that cannot stand in it. -/
theorem word_append_inj {p : Char → Bool} {x y s t : List Char} (left : ∀ c ∈ x, p c)
    (right : ∀ c ∈ y, p c) (ends : ∀ c ∈ s.head?, p c = false) (ends' : ∀ c ∈ t.head?, p c = false)
    (same : x ++ s = y ++ t) : x = y ∧ s = t := by
  have read {x s : List Char} (word : ∀ c ∈ x, p c) (ends : ∀ c ∈ s.head?, p c = false) :
      (x ++ s).takeWhile p = x := by
    rw [List.takeWhile_append_of_pos word]
    cases s with
    | nil => simp
    | cons c s => simp [ends c rfl]
  obtain rfl : x = y := by rw [← read left ends, same, read right ends']
  exact ⟨rfl, List.append_cancel_left same⟩

/-- A number is read off a text up to the first character that is no digit. -/
theorem number_append_inj {m n : Nat} {s t : List Char} (ends : ∀ c ∈ s.head?, c.isDigit = false)
    (ends' : ∀ c ∈ t.head?, c.isDigit = false)
    (same : (toString m).toList ++ s = (toString n).toList ++ t) : m = n ∧ s = t := by
  have digits (n : Nat) : ∀ c ∈ (toString n).toList, c.isDigit := by
    intro c mem
    rw [Nat.toString_eq_repr, Nat.toList_repr] at mem
    exact Nat.isDigit_of_mem_toDigits (by decide) (by decide) mem
  obtain ⟨word, rest⟩ := word_append_inj (digits m) (digits n) ends ends' same
  exact ⟨Nat.repr_injective (String.toList_inj.mp word), rest⟩

namespace Kind

theorem name_injective {k l : Kind} (same : k.name = l.name) : k = l := by
  cases k <;> cases l <;> first | rfl | exact absurd same (by decide)

theorem isAlphanum_of_mem_name (k : Kind) : ∀ c ∈ k.name.toList, c.isAlphanum :=
  List.all_eq_true.mp (by cases k <;> rfl)

end Kind

/-! ## Types -/

namespace FuncType

def following : List Kind → List Char
  | [] => []
  | k :: ks => ',' :: ' ' :: (k.name.toList ++ following ks)

def listed : List Kind → List Char
  | [] => []
  | k :: ks => k.name.toList ++ following ks

theorem toList_separated (ks : List Kind) : (separated ", " (ks.map Kind.name)).toList = listed ks := by
  cases ks with
  | nil => rfl
  | cons k ks =>
      induction ks generalizing k with
      | nil => exact (List.append_nil _).symm
      | cons l ks ih =>
          simp only [List.map_cons] at ih ⊢
          simp only [separated, String.toList_append, ih l, listed, following, List.append_assoc]
          rfl

theorem toList_text (t : FuncType) : t.text.toList =
    '(' :: (listed t.params ++ (')' :: ' ' :: '-' :: '>' :: ' ' :: '(' :: (listed t.results ++ [')']))) := by
  simp only [text, String.toList_append, toList_separated, List.append_assoc]
  rfl

/-- What follows a name cannot stand in it. -/
theorem following_ends (ks : List Kind) (s : List Char) :
    ∀ c ∈ (following ks ++ ')' :: s).head?, c.isAlphanum = false := by
  cases ks with
  | nil => rintro c ⟨⟩; rfl
  | cons k ks => rintro c ⟨⟩; rfl

theorem following_append_inj {ks ls : List Kind} {s t : List Char}
    (same : following ks ++ ')' :: s = following ls ++ ')' :: t) : ks = ls ∧ s = t := by
  induction ks generalizing ls with
  | nil =>
      cases ls with
      | nil => exact ⟨rfl, (List.cons.inj same).2⟩
      | cons l ls => exact absurd (List.cons.inj same).1 (by decide)
  | cons k ks ih =>
      cases ls with
      | nil => exact absurd (List.cons.inj same).1 (by decide)
      | cons l ls =>
          simp only [following, List.cons_append, List.append_assoc, List.cons.injEq, true_and] at same
          obtain ⟨name, rest⟩ := word_append_inj k.isAlphanum_of_mem_name l.isAlphanum_of_mem_name
            (following_ends ks s) (following_ends ls t) same
          obtain ⟨rfl, rfl⟩ := ih rest
          exact ⟨by rw [Kind.name_injective (String.toList_inj.mp name)], rfl⟩

/-- Listed kinds are read off a text up to the bracket that closes them. -/
theorem listed_append_inj {ks ls : List Kind} {s t : List Char}
    (same : listed ks ++ ')' :: s = listed ls ++ ')' :: t) : ks = ls ∧ s = t := by
  -- A name does not begin with a bracket.
  have opens (l : Kind) (rest : List Char) (s : List Char) : ')' :: s ≠ l.name.toList ++ rest := by
    intro same
    have first := congrArg List.head? same
    cases l <;> exact absurd (Option.some.inj first) (by decide)
  cases ks with
  | nil =>
      cases ls with
      | nil => exact ⟨rfl, (List.cons.inj same).2⟩
      | cons l ls =>
          rw [listed, listed, List.append_assoc] at same
          exact absurd same (opens l _ s)
  | cons k ks =>
      cases ls with
      | nil =>
          rw [listed, listed, List.append_assoc] at same
          exact absurd same.symm (opens k _ t)
      | cons l ls =>
          rw [listed, listed, List.append_assoc, List.append_assoc] at same
          obtain ⟨name, rest⟩ := word_append_inj k.isAlphanum_of_mem_name l.isAlphanum_of_mem_name
            (following_ends ks s) (following_ends ls t) same
          obtain ⟨rfl, rfl⟩ := following_append_inj rest
          exact ⟨by rw [Kind.name_injective (String.toList_inj.mp name)], rfl⟩

/-- A type is read off the front of a text: its written form says where it ends. -/
theorem text_append_inj {a b : FuncType} {s t : String} (same : a.text ++ s = b.text ++ t) :
    a = b ∧ s = t := by
  have chars := congrArg String.toList same
  rw [String.toList_append, String.toList_append, toList_text, toList_text] at chars
  simp only [List.cons_append, List.append_assoc, List.cons.injEq, true_and] at chars
  obtain ⟨params, chars⟩ := listed_append_inj chars
  simp only [List.cons.injEq, true_and] at chars
  obtain ⟨results, chars⟩ := listed_append_inj chars
  obtain ⟨params, results⟩ := a
  cases b
  simp_all [String.toList_inj]

theorem text_injective {a b : FuncType} (same : a.text = b.text) : a = b :=
  (text_append_inj (s := "") (t := "") (by rw [same])).1

example : text ⟨[.i32, .externref], []⟩ = "(i32, externref) -> ()" := rfl

end FuncType

namespace MemoryType

theorem toList_text (t : MemoryType) : t.text.toList = "memory ".toList ++
    ((toString t.minimum.toNat).toList ++ '.' :: '.' ::
      (t.maximum.elim "" fun max => toString max.toNat).toList) := by
  obtain ⟨minimum, maximum⟩ := t
  cases maximum <;> simp only [text, String.toList_append, List.append_assoc] <;> rfl

/-- A written number is not empty. -/
theorem toString_ne_empty (n : Nat) : toString n ≠ "" := by
  intro empty
  have none := congrArg String.toList empty
  rw [Nat.toString_eq_repr, Nat.toList_repr] at none
  exact absurd none Nat.toDigits_ne_nil

theorem text_injective {a b : MemoryType} (same : a.text = b.text) : a = b := by
  have chars := congrArg String.toList same
  rw [toList_text, toList_text] at chars
  obtain ⟨minimum, rest⟩ := number_append_inj (by rintro c ⟨⟩; rfl) (by rintro c ⟨⟩; rfl)
    (List.append_cancel_left chars)
  simp only [List.cons.injEq, true_and, String.toList_inj] at rest
  obtain ⟨m, max⟩ := a
  obtain ⟨m', max'⟩ := b
  obtain rfl : m = m' := UInt32.toNat_inj.mp minimum
  cases max with
  | none =>
      cases max' with
      | none => rfl
      | some max' => exact absurd rest.symm (toString_ne_empty _)
  | some max =>
      cases max' with
      | none => exact absurd rest (toString_ne_empty _)
      | some max' => rw [UInt32.toNat_inj.mp (Nat.repr_injective rest)]

example : text ⟨1, some 20⟩ = "memory 1..20" := by decide +kernel

end MemoryType

/-! ## Errors -/

namespace ApiError

theorem signatureMismatch_injective {expected found expected' found' : FuncType}
    (same : (signatureMismatch expected found).message = (signatureMismatch expected' found').message) :
    signatureMismatch expected found = signatureMismatch expected' found' := by
  rw [message_signatureMismatch, message_signatureMismatch, String.append_assoc, String.append_assoc,
    String.append_assoc, String.append_assoc] at same
  obtain ⟨rfl, rest⟩ := FuncType.text_append_inj ((String.append_right_inj _).mp same)
  rw [FuncType.text_injective ((String.append_right_inj _).mp rest)]

theorem outOfBounds_injective {offset len size offset' len' size' : Nat}
    (same : (outOfBounds offset len size).message = (outOfBounds offset' len' size').message) :
    outOfBounds offset len size = outOfBounds offset' len' size' := by
  have chars := congrArg String.toList same
  simp only [message_outOfBounds, String.toList_append, List.append_assoc] at chars
  obtain ⟨rfl, later⟩ := number_append_inj (by simp) (by simp) (List.append_cancel_left chars)
  obtain ⟨rfl, last⟩ := number_append_inj (by simp) (by simp) (List.append_cancel_left later)
  rw [Nat.repr_injective (String.toList_inj.mp (List.append_cancel_left last))]

/-- The message of an error says which error it is. -/
theorem message_injective {d e : ApiError} (same : d.message = e.message) : d = e := by
  have kinds : d.initial = e.initial := by
    have first := congrArg (fun s => s.toList.head?) same
    simpa only [head?_message, Option.some.injEq] using first
  cases d with
  | signatureMismatch expected found =>
      cases e with
      | signatureMismatch expected' found' => exact signatureMismatch_injective same
      | outOfBounds | invalidMemoryType => simp [initial] at kinds
  | outOfBounds offset len size =>
      cases e with
      | outOfBounds offset' len' size' => exact outOfBounds_injective same
      | signatureMismatch | invalidMemoryType => simp [initial] at kinds
  | invalidMemoryType type =>
      cases e with
      | invalidMemoryType type' =>
          rw [message_invalidMemoryType, message_invalidMemoryType, String.append_right_inj] at same
          rw [MemoryType.text_injective same]
      | signatureMismatch | outOfBounds => simp [initial] at kinds

end ApiError

namespace Machine

variable {m : Machine} {g : Guard} {s : Step} {e : ApiError}

/-! ## Where errors come from -/

/-- A completion that is delivered tells no error unless it was that error before. -/
theorem deliver_error {c : Completion} (control : m.control = .complete c)
    (told : (m.deliver c).control = .complete (.done (.error e))) : c = .done (.error e) := by
  unfold deliver at told
  split at told
  case h_1 => cases told
  case h_2 =>
    unfold settle at told
    dsimp only at told
    split at told
    · split at told <;> cases told
    · cases told
    · cases told
    · split at told
      · cases told
      · exact Control.complete.inj told
  case h_4 =>
    split at told
    · cases told
    · exact Control.complete.inj told
  case h_5 left body below _ =>
    split at told
    · cases left <;> cases told
    · exact Control.complete.inj (control.symm.trans told)
  case h_6 =>
    split at told
    · cases told
    · exact Control.complete.inj (control.symm.trans told)
  case h_7 => cases told
  case h_8 => cases told
  all_goals exact Control.complete.inj (control.symm.trans told)

/-- The end of a call tells no error. -/
theorem returnCall_tells (m : Machine) (c : CallRequest) (vals : List (Val ObjId)) :
    (m.returnCall c vals).control ≠ .complete (.done (.error e)) := by
  unfold returnCall
  split
  · exact nofun
  · dsimp only
    split <;> exact nofun

theorem deliverEngine_tells (m : Machine) (r : EngineResult) :
    (m.deliverEngine r).control ≠ .complete (.done (.error e)) := by
  unfold deliverEngine
  split
  · unfold endCall
    split
    · exact returnCall_tells _ _ _
    · exact nofun
    · exact nofun
  · unfold endNativeCall
    split
    · exact nofun
    · split <;> exact nofun
  · cases r <;> exact nofun
  · exact nofun

theorem enter_tells (m : Machine) (n : NativeId) (args : List (Slot ObjId)) (slots : SlotArray) :
    (m.enter n args slots).control ≠ .complete (.done (.error e)) := by
  unfold enter
  split
  · exact nofun
  · split
    · unfold startCallback
      dsimp only
      split <;> exact nofun
    · split
      · exact nofun
      · next a _ _ =>
          rcases startOf_cases a with start | ⟨f, start⟩
          · exact fun told => nomatch start.symm.trans told
          · exact fun told => nomatch start.symm.trans told

/-- A transition tells an error only if it was told before, or if it begins a step that is refused with it. -/
theorem step_error (told : m.step.control = .complete (.done (.error e))) :
    m.control = .complete (.done (.error e)) ∨ ∃ g s, m.AtStep g s ∧ m.RefusedWith s e := by
  unfold step at told
  split at told
  · cases told
  · next alive =>
      have alive : m.world.aborted = none := Option.not_isSome_iff_eq_none.mp alive
      split at told
      · next control =>
          split at told
          · next outer index g s rest below stack =>
              exact .inr ⟨g, s, ⟨alive, control, _, _, _, _, stack⟩, begin_error told⟩
          · cases told
          · cases told
      · next c control =>
          rw [control, deliver_error control told]
          exact .inl rfl
      · exact absurd told (enter_tells m _ _ _)
      · exact absurd told (deliverEngine_tells m _)
      · next control => cases control.symm.trans told

/-- An error that is told on a run goes back to a step that was refused with it. -/
theorem refused_of_told {run : Nat → Machine} (steps : ∀ k, run (k + 1) = (run k).step)
    (starts : (run 0).control = .run) {n : Nat}
    (told : (run n).control = .complete (.done (.error e))) :
    ∃ k < n, ∃ g s, (run k).AtStep g s ∧ (run k).RefusedWith s e := by
  induction n with
  | zero => cases starts.symm.trans told
  | succ n ih =>
      rw [steps] at told
      rcases step_error told with before | refused
      · obtain ⟨k, less, refused⟩ := ih before
        exact ⟨k, by omega, refused⟩
      · exact ⟨n, by omega, refused⟩

/-! ## What the errors of a run show -/

/-- An error is shown on a run: it is told, or a step that does not ask for a trap raises its message. -/
inductive Shown (run : Nat → Machine) (e : ApiError) : Prop
  | told (n : Nat) (told : (run n).control = .complete (.done (.error e)))
  | raised (k : Nat) (g : Guard) (s : Step) (begins : (run k).AtStep g s)
      (unasked : ∀ text, s ≠ .plain (.trap text))
      (raised : (run (k + 1)).control = .complete (.trapped (.ofMessage e.message)))

/-- The texts of types say which types they are, and so do the errors that a run shows. -/
structure TypeTexts (run : Nat → Machine) : Prop where
  /-- Function types with the same text are the same, whatever their arities. -/
  funcTypes : ∀ a b : FuncType, a.text = b.text ↔ a = b
  /-- So are memory types, whatever their limits. -/
  memoryTypes : ∀ a b : MemoryType, a.text = b.text ↔ a = b
  /-- The message of an error says which error it is: both types, the range, or the rejected type. -/
  messages : ∀ d e : ApiError, d.message = e.message ↔ d = e
  /-- The errors that are shown are those that a step was refused with. -/
  shown : ∀ e, Shown run e ↔ ∃ k g s, (run k).AtStep g s ∧ (run k).RefusedWith s e
  /-- A signature that does not fit is shown with two different texts: its own, and that of the function. -/
  mismatch : ∀ expected found, Shown run (.signatureMismatch expected found) →
    expected.text ≠ found.text ∧ ∃ k g name v sig h, (run k).AtStep g (.plain (.typed name v sig)) ∧
      (run k).lookup v = some (.func h found) ∧ sig.funcType = expected
  /-- With one text a signature fits. -/
  fits : ∀ k g name v sig h type, (run k).AtStep g (.plain (.typed name v sig)) →
    (run k).lookup v = some (.func h type) → sig.funcType.text = type.text →
    (run (k + 1)).control = .complete (.done .ok)
  /-- A rejected memory type that is shown is the one that a memory was asked for with. -/
  rejected : ∀ type, Shown run (.invalidMemoryType type) →
    ∃ k g name v, (run k).AtStep g (.plain (.memory name v type))

/-- The error of a refused step is shown. -/
theorem RefusedWith.shown {run : Nat → Machine} (steps : ∀ k, run (k + 1) = (run k).step) {k : Nat}
    (begins : (run k).AtStep g s) (refuses : (run k).RefusedWith s e) : Shown run e := by
  have ended : (run (k + 1)).control = .complete (g.refusal e) := by
    rw [steps, begins.step_eq]
    exact refuses.begin g
  unfold Guard.refusal at ended
  split at ended
  · refine .raised k g s begins (fun text asked => ?_) ended
    subst asked
    cases refuses
  · exact .told (k + 1) ended

/-- An error that is shown is the one that a step was refused with. -/
theorem Shown.refused {run : Nat → Machine} (steps : ∀ k, run (k + 1) = (run k).step)
    (starts : (run 0).control = .run) (shown : Shown run e) :
    ∃ k g s, (run k).AtStep g s ∧ (run k).RefusedWith s e := by
  cases shown with
  | told n told =>
      obtain ⟨k, -, refused⟩ := refused_of_told steps starts told
      exact ⟨k, refused⟩
  | raised k g s begins unasked raised =>
      rw [steps, begins.step_eq] at raised
      rcases begin_trapped raised with ⟨text, asked, -⟩ | ⟨d, refuses, same⟩
      · exact absurd asked (unasked text)
      · -- The step was refused with an error of the same message.
        obtain rfl := ApiError.message_injective (congrArg Trap.message same)
        exact ⟨k, g, s, begins, refuses⟩

/-- On every run of every script texts of types say which types they are, and so do the errors that are
shown. -/
theorem typeTexts_after (level : Option LogLevel) (script : Block) : TypeTexts (after level script) := by
  have steps := after_succ level script
  have refused {e : ApiError} (shown : Shown (after level script) e) := shown.refused steps rfl
  constructor
  case funcTypes => exact fun a b => ⟨FuncType.text_injective, congrArg FuncType.text⟩
  case memoryTypes => exact fun a b => ⟨MemoryType.text_injective, congrArg MemoryType.text⟩
  case messages => exact fun d e => ⟨ApiError.message_injective, congrArg ApiError.message⟩
  case shown => exact fun e => ⟨refused, fun ⟨k, g, s, begins, refuses⟩ => refuses.shown steps begins⟩
  case mismatch =>
      intro expected found shown
      obtain ⟨k, g, s, begins, refuses⟩ := refused shown
      cases refuses with
      | @typed name v sig h _ held other =>
          exact ⟨fun same => other (FuncType.text_injective same), k, g, name, v, sig, h, begins, held, rfl⟩
  case fits =>
      intro k g name v sig h type begins held same
      rw [steps, begins.step_eq]
      show ((after level script k).newTyped g name v sig).control = _
      unfold newTyped
      rw [held]
      dsimp only
      rw [if_pos (FuncType.text_injective same)]
      rfl
  case rejected =>
      intro type shown
      obtain ⟨k, g, s, begins, refuses⟩ := refused shown
      cases refuses with
      | @memory name v _ _ held made => exact ⟨k, g, name, v, begins⟩

end Machine

end HostEmbedding
