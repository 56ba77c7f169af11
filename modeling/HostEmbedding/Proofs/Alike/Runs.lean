import HostEmbedding.Proofs.Alike.Deliveries

/-!
# Two runs

Two runs of variations of a script go through the same stages in the same order. In between one of them
may do an explicit flush that the other has not, of which the other sees nothing; or it may read
parameters.
-/

namespace HostEmbedding

variable {δ : Variation}

namespace Machine

variable {m n : Machine} {outer : Bool} {i : Nat} {g : Guard} {store : VarName} {rest : Block}
variable {below : List Frame}

/-! ## What a run has shown -/

/-- The events of the last drops of a script that is over. -/
def ending (m : Machine) : List Event :=
  match m.control with
  | .halted ending => ending
  | _ => []

/-- The events so far that are compared, in order. -/
def shown (δ : Variation) (m : Machine) : List Event :=
  (m.answers.reverse.flatMap Record.events ++ (m.world.events.reverse ++ m.ending)).filter δ.shows

/-! ## Flushes that one run does -/

def Flushing (m : Machine) : Prop := ∃ store, m.OnTop (.plain (.flush store))

structure PassedOver (m m' : Machine) (outer : Bool) (i : Nat) (rest : Block) (below : List Frame) : Prop where
  world : World.Swept m.world m'.world
  globals : m'.globals = m.globals
  context : m'.context = m.context
  stack : m'.stack = .block outer (i + 1) rest :: below
  control : m'.control = .run
  answers : m'.answers = m.answers ∨ ∃ r, m'.answers = r :: m.answers ∧ r.OfFlush ∧
    r.events.filter Variation.flushes.shows = []
  shown : m'.shown .flushes = m.shown .flushes

/-- A flush raises nothing. -/
theorem Coherent.flushes (coherent : m.Coherent) (control : m.control = .run)
    (stack : m.stack = .block outer i ((g, .plain (.flush store)) :: rest) :: below)
    (numbered : m.world.Numbered) :
    ∃ w a, World.Swept m.world w ∧ a.OfFlush ∧ m.step = (m.withWorld w).finish a := by
  have here : m.step = m.perform g (.flush store) := by
    rw [coherent.step_eq, control, stack]
    rfl
  rw [here]
  unfold Machine.perform Machine.withStore
  dsimp only
  split
  · next s found =>
      have busy := coherent.busy (by rw [control]; rfl)
      obtain ⟨k, isStore⟩ := (busy.lookup found).fits
      exact ⟨_, _, busy.world.swept_flush isStore numbered, .released _, rfl⟩
  · exact ⟨_, _, .refl m.world, .unusable _, rfl⟩

/-- The block goes on after a flush. -/
theorem passes_settle {a : Answer} (answer : a.OfFlush) (g : Guard) (silent : Silent .flushes outer m)
    (going : m.ending = []) :
    PassedOver m (m.settle (.done a) outer i g (.plain (.flush store)) rest below) outer i rest below := by
  have noted {w : World} (hidden : World.Swept m.world w) :
      PassedOver m ((m.withWorld w).next outer i rest below) outer i rest below :=
    ⟨hidden, rfl, rfl, rfl, rfl, .inl rfl, by
      unfold Machine.shown
      rw [going]
      show (_ ++ (w.events.reverse ++ [])).filter _ = _
      rw [List.filter_append, List.filter_append, List.filter_append, List.filter_append,
        List.filter_reverse, List.filter_reverse, hidden.events]
      rfl⟩
  have hidden (label : String) : World.Swept m.world (m.world.emit (.stepDone label i a)) :=
    World.swept_emit _ rfl
  unfold Machine.settle
  dsimp only
  split
  · next top =>
      split
      · next isOuter =>
          have quiet := silent isOuter top
          refine ⟨World.swept_events _ quiet.symm, rfl, rfl, rfl, rfl, .inr ⟨_, rfl, ⟨store, rfl, answer⟩, ?_⟩, ?_⟩
          · show m.world.events.reverse.filter _ = []
            rw [List.filter_reverse, quiet]
            rfl
          · unfold Machine.shown
            rw [going]
            show ((((Record.mk _ _ m.world.events.reverse) :: m.answers).reverse.flatMap Record.events) ++
              []).filter _ = _
            simp
      · exact noted (hidden "thread")
  · exact noted (hidden "thread")
  · exact noted (World.swept_emit _ rfl)
  · next act _ =>
      simp only [Completion.isDone, Bool.true_or, if_true]
      cases act.code.quiet with
      | true => exact noted (.refl _)
      | false => exact noted (hidden _)

/-- An explicit flush takes two transitions. -/
theorem Coherent.passes (coherent : m.Coherent) (control : m.control = .run)
    (stack : m.stack = .block outer i ((g, .plain (.flush store)) :: rest) :: below)
    (numbered : m.world.Numbered) (silent : Silent .flushes outer m) :
    m.step.OnTop (.plain (.flush store)) ∧ m.step.shown .flushes = m.shown .flushes ∧
      PassedOver m m.step.step outer i rest below := by
  obtain ⟨w, a, swept, answer, ended⟩ := coherent.flushes control stack numbered
  have going : m.ending = [] := by
    unfold ending
    rw [control]
  have shown : ((m.withWorld w).finish a).shown .flushes = m.shown .flushes := by
    unfold Machine.shown
    rw [going]
    show (_ ++ (w.events.reverse ++ [])).filter _ = _
    rw [List.filter_append, List.filter_append, List.filter_append, List.filter_append,
      List.filter_reverse, List.filter_reverse, swept.events]
    rfl
  have later : m.step.step = ((m.withWorld w).finish a).settle (.done a) outer i g (.plain (.flush store)) rest below := by
    have settles : m.step.step = m.step.deliver (.done a) := by
      rw [coherent.step.step_eq, ended]
      rfl
    have waits : ((m.withWorld w).finish a).stack =
        .block outer i ((g, .plain (.flush store)) :: rest) :: below := stack
    rw [settles, ended]
    unfold Machine.deliver
    rw [waits]
  have silent' : Silent .flushes outer ((m.withWorld w).finish a) := fun isOuter top =>
    swept.events.trans (silent isOuter top)
  have passes : PassedOver ((m.withWorld w).finish a)
      (((m.withWorld w).finish a).settle (.done a) outer i g (.plain (.flush store)) rest below) outer i rest below :=
    passes_settle answer g silent' rfl
  rw [← later] at passes
  refine ⟨⟨outer, i, g, rest, below, by rw [ended]; exact stack⟩, by rw [ended]; exact shown, ?_⟩
  exact ⟨swept.trans passes.world, passes.globals, passes.context, passes.stack, passes.control,
    passes.answers, passes.shown.trans shown⟩

/-- The first machine is about to flush where the second has nothing to do. -/
theorem Behind.passLeft {steps' : Block} {below' : List Frame} (left : m.Coherent)
    (behind : Behind .flushes m n outer ((g, .plain (.flush store)) :: rest) steps' below below')
    (steps : Block.Like .flushes rest steps') :
    m.Flushing ∧ m.step.Flushing ∧ m.step.shown .flushes = m.shown .flushes ∧
      m.step.step.shown .flushes = m.shown .flushes ∧
      Behind .flushes m.step.step n outer rest steps' below below' := by
  obtain ⟨⟨i, stack⟩, stack', -, near, control, control', silent⟩ := behind
  obtain ⟨running, shown, passes⟩ := left.passes control stack near.world.numbered silent
  refine ⟨⟨store, outer, i, g, rest, below, stack⟩, ⟨store, running⟩, shown, passes.shown,
    ⟨i + 1, passes.stack⟩, stack', steps, ?_, passes.control, control', fun isOuter top =>
      passes.world.events.trans (silent isOuter (passes.context ▸ top))⟩
  refine ⟨passes.world.left near.world, near.globals.trans passes.globals.symm, ?_, near.stack, ?_⟩
  · show Context.Alike _ m.step.step.context n.context
    rw [passes.context]
    exact near.context
  · show Answers.Alike _ m.step.step.answers n.answers
    rcases passes.answers with same | ⟨r, flushed, ofFlush, quiet⟩
    · rw [same]
      exact near.answers
    · rw [flushed]
      exact .flushLeft rfl ofFlush quiet near.answers

theorem Behind.silent' {steps steps' : Block} {below' : List Frame}
    (behind : Behind δ m n outer steps steps' below below') : Silent δ outer n := by
  intro isOuter top
  have contexts : m.context.Alike δ n.context := behind.near.context
  have events : n.world.events.filter δ.shows = m.world.events.filter δ.shows := behind.near.world.events
  refine events.trans (behind.silent isOuter ?_)
  rw [top] at contexts
  generalize m.context = ctx at contexts
  cases contexts
  rfl

/-- The second machine is about to flush where the first has nothing to do. -/
theorem Behind.passRight {steps : Block} {below' : List Frame} (right : n.Coherent)
    (behind : Behind .flushes m n outer steps ((g, .plain (.flush store)) :: rest) below below')
    (like : Block.Like .flushes steps rest) :
    n.Flushing ∧ n.step.Flushing ∧ n.step.shown .flushes = n.shown .flushes ∧
      n.step.step.shown .flushes = n.shown .flushes ∧
      Behind .flushes m n.step.step outer steps rest below below' := by
  have quiet := behind.silent'
  obtain ⟨stack, ⟨j, stack'⟩, -, near, control, control', silent⟩ := behind
  obtain ⟨running, shown, passes⟩ := right.passes control' stack' near.world.numbered' quiet
  refine ⟨⟨store, outer, j, g, rest, below', stack'⟩, ⟨store, running⟩, shown, passes.shown,
    stack, ⟨j + 1, passes.stack⟩, like, ?_, control, passes.control, silent⟩
  refine ⟨passes.world.right near.world, passes.globals.trans near.globals, ?_, near.stack, ?_⟩
  · show Context.Alike _ m.context n.step.step.context
    rw [passes.context]
    exact near.context
  · show Answers.Alike _ m.answers n.step.step.answers
    rcases passes.answers with same | ⟨r, flushed, ofFlush, quiet⟩
    · rw [same]
      exact near.answers
    · rw [flushed]
      exact .flushRight rfl ofFlush quiet near.answers

/-- A transition of an explicit flush, which shows nothing. -/
def Skipped (δ : Variation) (m : Machine) : Prop :=
  δ = .flushes ∧ m.Flushing ∧ m.step.shown .flushes = m.shown .flushes

/-- Two transitions are skipped before others. -/
theorem skipped_add_two {k : Nat} (first : Skipped δ m) (second : Skipped δ m.step)
    (later : ∀ x < k, Skipped δ (Machine.step^[x] m.step.step)) :
    ∀ x < k + 2, Skipped δ (Machine.step^[x] m)
  | 0, _ => first
  | 1, _ => second
  | x + 2, less => later x (by omega)

/-- Once the flushes that only one machine has to do are done, both are about to do the same. -/
theorem Behind.catchUp {steps steps' : Block} {below' : List Frame} (left : m.Coherent) (right : n.Coherent)
    (behind : Behind δ m n outer steps steps' below below') :
    ∃ i j, Stage δ (Machine.step^[i] m) (Machine.step^[j] n) ∧ (∀ x < i, Skipped δ (Machine.step^[x] m)) ∧
      ∀ y < j, Skipped δ (Machine.step^[y] n) := by
  induction size : steps.length + steps'.length using Nat.strongRecOn generalizing m n steps steps' with
  | ind k ih =>
      subst size
      have now (stage : Stage δ m n) : ∃ i j, Stage δ (Machine.step^[i] m) (Machine.step^[j] n) ∧
          (∀ x < i, Skipped δ (Machine.step^[x] m)) ∧ ∀ y < j, Skipped δ (Machine.step^[y] n) :=
        ⟨0, 0, stage, fun _ less => absurd less (Nat.not_lt_zero _), fun _ less => absurd less (Nat.not_lt_zero _)⟩
      have like := behind.steps
      cases like with
      | nil =>
          obtain ⟨⟨i, stack⟩, ⟨j, stack'⟩, -, near, control, control', -⟩ := behind
          refine now (.blockEnds stack stack' ⟨near.world, near.globals, near.context, ?_, near.answers⟩
            control control')
          rw [stack, stack']
          exact .cons .atEnd near.stack
      | cons first later =>
          obtain ⟨⟨i, stack⟩, ⟨j, stack'⟩, -, near, control, control', silent⟩ := behind
          refine now (.begins stack stack' first ⟨near.world, near.globals, near.context, ?_, near.answers⟩
            control control' silent)
          rw [stack, stack']
          exact .cons (.block first later) near.stack
      | flushLeft among later =>
          subst among
          obtain ⟨running, running', shown, shown', passed⟩ := behind.passLeft left later
          obtain ⟨i, j, stage, skipped, skipped'⟩ :=
            ih _ (by simp) left.step.step right passed rfl
          exact ⟨i + 2, j, stage,
            skipped_add_two ⟨rfl, running, shown⟩ ⟨rfl, running', shown'.trans shown.symm⟩ skipped, skipped'⟩
      | flushRight among later =>
          subst among
          obtain ⟨running, running', shown, shown', passed⟩ := behind.passRight right later
          obtain ⟨i, j, stage, skipped, skipped'⟩ :=
            ih _ (by simp) left right.step.step passed rfl
          exact ⟨i, j + 2, stage, skipped,
            skipped_add_two ⟨rfl, running, shown⟩ ⟨rfl, running', shown'.trans shown.symm⟩ skipped'⟩

/-! ## From one stage to the next -/

theorem Stage.near (stage : Stage δ m n) : Near δ m n := by
  cases stage with
  | begins _ _ _ near | blockEnds _ _ near | reported near | enters near | returns near | halted near =>
      exact near
  | ended finished => exact finished.near

/-- From one stage two runs come to the next one. -/
theorem Stage.onward (stage : Stage δ m n) (left : m.Coherent) (right : n.Coherent)
    (together : ¬ Apart m n) :
    ∃ i j, Stage δ (Machine.step^[i] m.step) (Machine.step^[j] n.step) ∧
      (∀ x < i, Skipped δ (Machine.step^[x] m.step)) ∧
      (δ = .flushes → ∀ y < j, Skipped δ (Machine.step^[y] n.step)) := by
  obtain ⟨k, none, leads⟩ := stage.step left right together
  cases leads with
  | stage stage =>
      refine ⟨0, k, stage, fun _ less => absurd less (Nat.not_lt_zero _), fun among y less => ?_⟩
      rw [none among] at less
      exact absurd less (Nat.not_lt_zero _)
  | behind behind =>
      obtain ⟨i, j, stage, skipped, skipped'⟩ := behind.catchUp left.step (right.step.iterate k)
      rw [← Function.iterate_add_apply] at stage
      refine ⟨i, j + k, stage, skipped, fun among => ?_⟩
      rw [none among] at skipped' ⊢
      exact skipped'

/-- Two scripts start, of which either may begin with flushes. -/
theorem behind_start (level : Option LogLevel) {script script' : Block} (like : Block.Like δ script script') :
    Behind δ (start level script) (start level script') true script script' [] [] :=
  ⟨⟨0, rfl⟩, ⟨0, rfl⟩, like, ⟨.empty level, rfl, .top, .nil, .nil⟩, rfl, rfl, fun _ _ => rfl⟩

end Machine

/-! ## Moments of two runs -/

/-- A number that a sequence skips lies before it or between two of its members. -/
theorem skips_of_notMem_range {p : ℕ → ℕ} (increasing : StrictMono p) {x : ℕ} (skipped : x ∉ Set.range p) :
    x < p 0 ∨ ∃ k, p k < x ∧ x < p (k + 1) := by
  have before (k : ℕ) : p k < x ∨ x < p 0 ∨ ∃ k, p k < x ∧ x < p (k + 1) := by
    induction k with
    | zero =>
        rcases Nat.lt_trichotomy (p 0) x with less | same | more
        · exact .inl less
        · exact absurd ⟨0, same⟩ skipped
        · exact .inr (.inl more)
    | succ k ih =>
        rcases ih with less | known
        · rcases Nat.lt_trichotomy (p (k + 1)) x with less' | same | more
          · exact .inl less'
          · exact absurd ⟨k + 1, same⟩ skipped
          · exact .inr (.inr ⟨k, less, more⟩)
        · exact .inr known
  rcases before x with less | known
  · exact absurd (increasing.le_apply (x := x)) (Nat.not_le.mpr less)
  · exact known

/-- Moments of two runs that belong together: each pair leads to the next, until the runs come apart. -/
theorem exists_moments {R T : ℕ → ℕ → Prop} {U V : ℕ → Prop}
    (first : ∃ i j, R i j ∧ (∀ x < i, U x) ∧ ∀ y < j, V y)
    (next : ∀ i j, R i j → ¬ T i j → ∃ i' j', i < i' ∧ j < j' ∧ R i' j' ∧ (∀ x, i < x → x < i' → U x) ∧
      ∀ y, j < y → y < j' → V y) :
    ∃ p q : ℕ → ℕ, StrictMono p ∧ StrictMono q ∧
      (∀ k, (∀ l < k, ¬ T (p l) (q l)) → R (p k) (q k)) ∧
      (∀ x, x ∉ Set.range p → U x) ∧ ∀ y, y ∉ Set.range q → V y := by
  classical
  have onward (r : ℕ × ℕ) : ∃ r' : ℕ × ℕ, r.1 < r'.1 ∧ r.2 < r'.2 ∧
      (R r.1 r.2 → ¬ T r.1 r.2 → R r'.1 r'.2) ∧ (∀ x, r.1 < x → x < r'.1 → U x) ∧
      ∀ y, r.2 < y → y < r'.2 → V y := by
    by_cases going : R r.1 r.2 ∧ ¬ T r.1 r.2
    · obtain ⟨i, j, less, less', related, between, between'⟩ := next r.1 r.2 going.1 going.2
      exact ⟨(i, j), less, less', fun _ _ => related, between, between'⟩
    · refine ⟨(r.1 + 1, r.2 + 1), Nat.lt_succ_self _, Nat.lt_succ_self _,
        fun related together => absurd ⟨related, together⟩ going, fun x more less => ?_, fun y more less => ?_⟩
      · dsimp only at less
        omega
      · dsimp only at less
        omega
  choose f less less' related between between' using onward
  obtain ⟨i, j, start, before, before'⟩ := first
  let r (k : ℕ) : ℕ × ℕ := f^[k] (i, j)
  have step (k : ℕ) : r (k + 1) = f (r k) := Function.iterate_succ_apply' f k (i, j)
  have increasing : StrictMono fun k => (r k).1 :=
    strictMono_nat_of_lt_succ fun k => by rw [step]; exact less (r k)
  have increasing' : StrictMono fun k => (r k).2 :=
    strictMono_nat_of_lt_succ fun k => by rw [step]; exact less' (r k)
  refine ⟨fun k => (r k).1, fun k => (r k).2, increasing, increasing', fun k together => ?_, fun x skipped => ?_,
    fun y skipped => ?_⟩
  · induction k with
    | zero => exact start
    | succ k ih =>
        dsimp only
        rw [step]
        exact related _ (ih fun l earlier => together l (Nat.lt_succ_of_lt earlier))
          (together k (Nat.lt_succ_self k))
  · rcases skips_of_notMem_range increasing skipped with first | ⟨k, more, fewer⟩
    · exact before x first
    · rw [step] at fewer
      exact between _ x more fewer
  · rcases skips_of_notMem_range increasing' skipped with first | ⟨k, more, fewer⟩
    · exact before' y first
    · rw [step] at fewer
      exact between' _ y more fewer

namespace Machine

/-- Runs of two variations of a public script go through the same stages in the same order, until a body
shows in which shape it runs; in between they do flushes, or the second one reads parameters. -/
theorem stages_after (level : Option LogLevel) {script script' : Block}
    (isPublic : Block.isPublic script = true) (isPublic' : Block.isPublic script' = true)
    (like : Block.Like δ script script') : ∃ p q : ℕ → ℕ, StrictMono p ∧ StrictMono q ∧
      (∀ k, (∀ l < k, ¬ Apart (after level script (p l)) (after level script' (q l))) →
        Stage δ (after level script (p k)) (after level script' (q k))) ∧
      (∀ x, x ∉ Set.range p → Skipped δ (after level script x)) ∧
      ∀ y, y ∉ Set.range q → δ = .flushes → Skipped δ (after level script' y) := by
  have coherent := coherent_after level isPublic
  have coherent' := coherent_after level isPublic'
  refine exists_moments (R := fun i j => Stage δ (after level script i) (after level script' j))
    (T := fun i j => Apart (after level script i) (after level script' j)) ?_ fun i j stage together => ?_
  · obtain ⟨i, j, stage, skipped, skipped'⟩ :=
      (behind_start level like).catchUp (coherent 0) (coherent' 0)
    exact ⟨i, j, stage, skipped, fun y less _ => skipped' y less⟩
  · obtain ⟨x, y, stage, skipped, skipped'⟩ := stage.onward (coherent i) (coherent' j) together
    rw [← after_succ, ← after_succ, ← after_add, ← after_add] at stage
    refine ⟨i + 1 + x, j + 1 + y, by omega, by omega, stage, fun z more less => ?_,
      fun z more less among => ?_⟩
    · obtain ⟨d, rfl⟩ := Nat.exists_eq_add_of_le (Nat.succ_le_of_lt more)
      rw [after_add, after_succ]
      exact skipped d (by omega)
    · obtain ⟨d, rfl⟩ := Nat.exists_eq_add_of_le (Nat.succ_le_of_lt more)
      rw [after_add, after_succ]
      exact skipped' among d (by omega)

end Machine

end HostEmbedding
