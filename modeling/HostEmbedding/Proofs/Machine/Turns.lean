import HostEmbedding.Proofs.Native.Transitions
import HostEmbedding.Proofs.Slots.Running

/-!
# What runs on the stack

Host bodies and native callbacks that run have a frame on the stack. A transition starts one, ends
one, or exchanges frames that have no part in either; what lies below stays, with the context that it
belongs to, until the frames above it are gone.
-/

namespace HostEmbedding

namespace Deed

/-- A deed that neither enters nor leaves a store. -/
def Still : Deed → Prop
  | .enter _ | .leave _ => False
  | _ => True

theorem Direct.still {d : Deed} (direct : d.Direct) : d.Still := by
  cases d with
  | take | enter | leave => cases direct
  | _ => trivial

/-- What a deed makes of the stores of the running callbacks, the innermost first. -/
def Moves : Deed → List NativeId → List NativeId → Prop
  | .enter store, before, after => after = store :: before
  | .leave store, before, after => before = store :: after
  | _, before, after => after = before

theorem Still.moves {d : Deed} (still : d.Still) {before after : List NativeId} (same : after = before) :
    d.Moves before after := by
  cases d with
  | enter | leave => cases still
  | _ => exact same

end Deed

namespace Frame

/-- A frame that neither keeps a context nor stands for a native callback. -/
def isPlain : Frame → Bool
  | .activation _ | .thread .. | .finalizer _ | .callback _ => false
  | _ => true

/-- The context that a frame keeps from a thread or a finalizer. -/
def aside? : Frame → Option Context
  | .thread saved _ => some saved
  | .finalizer saved => some saved
  | _ => none

def callbacks (ctx : Context) : List Frame → List NativeId
  | [] => []
  | .activation saved :: below => ctx.entered ++ callbacks saved below
  | .thread saved _ :: below => callbacks saved below
  | .finalizer saved :: below => callbacks saved below
  | .callback c :: below => c.store :: callbacks ctx below
  | _ :: below => callbacks ctx below

variable {ctx : Context}

theorem callbacks_withLocals (ctx : Context) (s : Scope) (stack : List Frame) :
    callbacks (ctx.withLocals s) stack = callbacks ctx stack := by
  induction stack with
  | nil => rfl
  | cons f below ih =>
      cases f with
      | activation saved => cases ctx <;> rfl
      | callback c => exact congrArg (c.store :: ·) ih
      | thread | finalizer => rfl
      | block | branch | loop | hostCall | nativeCall => exact ih

theorem callbacks_plain {top : List Frame} (plain : ∀ f ∈ top, f.isPlain = true) (rest : List Frame) :
    callbacks ctx (top ++ rest) = callbacks ctx rest := by
  induction top with
  | nil => rfl
  | cons f top ih =>
      have first := plain f List.mem_cons_self
      have later := ih fun g mem => plain g (List.mem_cons_of_mem f mem)
      cases f with
      | activation | thread | finalizer | callback => cases first
      | block | branch | loop | hostCall | nativeCall => exact later

theorem context_plain {top : List Frame} (plain : ∀ f ∈ top, f.isPlain = true) :
    context ctx top = ctx := by
  induction top with
  | nil => rfl
  | cons f top ih =>
      have first := plain f List.mem_cons_self
      have later := ih fun g mem => plain g (List.mem_cons_of_mem f mem)
      cases f with
      | activation | thread | finalizer | callback => cases first
      | block | branch | loop | hostCall | nativeCall => exact later

end Frame

namespace Machine

variable {m : Machine}

def callbacks (m : Machine) : List NativeId := Frame.callbacks m.context m.stack

/-- A host body starts with the next transition: what the call reaches, and what the body is told. -/
structure Enters (m : Machine) (a : Activation) (n : NativeId) (f : NativeFunc) (s : NativeStore)
    (env : ObjId) : Prop where
  alive : m.world.aborted = none
  control : ∃ args slots, m.control = .enter n args slots
  reaches : m.world.Reaches n f s
  callback : f.callback = .host env
  native : a.native = f.store
  depth : a.depth = s.depth + 1
  attached : m.world.attached? env = some a.closure
  deed : m.deed = .enter a.native

/-- What a transition does to the stack and the context. -/
inductive Turn (m : Machine) : Prop
  /-- It exchanges frames on top that have no part in what runs. -/
  | stays (top new rest : List Frame) (stack : m.stack = top ++ rest)
      (stack' : m.step.stack = new ++ rest) (single : top.length ≤ 1)
      (plain : ∀ f ∈ top, f.isPlain = true) (plain' : ∀ f ∈ new, f.isPlain = true)
      (context : ∃ t, m.step.context = m.context.withLocals t) (still : m.deed.Still)
  /-- A host body starts. -/
  | starts (a : Activation) (n : NativeId) (f : NativeFunc) (s : NativeStore) (env : ObjId)
      (enters : m.Enters a n f s env) (context : m.step.context = .body a)
      (stack : m.step.stack = .block true 0 a.steps :: .activation m.context :: m.stack)
  /-- A native callback calls on. -/
  | callsOn (c : CallbackRun) (context : m.step.context = m.context)
      (stack : m.step.stack = .callback c :: m.stack) (deed : m.deed = .enter c.store)
  /-- A host body ends. -/
  | leaves (a : Activation) (saved : Context) (below : List Frame) (context : m.context = .body a)
      (stack : m.stack = .activation saved :: below) (context' : m.step.context = saved)
      (stack' : m.step.stack = below) (deed : m.deed = .leave a.native)
  /-- A native callback that has called on ends. -/
  | replies (c : CallbackRun) (below : List Frame) (stack : m.stack = .callback c :: below)
      (context : m.step.context = m.context) (stack' : m.step.stack = below)
      (deed : m.deed = .leave c.store)
  /-- A thread or a finalizer starts. -/
  | parts (f : Frame) (body : Block) (aside : f.aside? = some m.context)
      (stack : m.step.stack = .block true 0 body :: f :: m.stack) (still : m.deed.Still)
  /-- A thread or a finalizer ends. -/
  | joins (f : Frame) (below : List Frame) (aside : f.aside? = some m.step.context)
      (stack : m.stack = f :: below) (stack' : m.step.stack = below) (still : m.deed.Still)

/-! ## Every transition -/

/-- Nothing on the stack changes. -/
theorem turn_keeps (stack : m.step.stack = m.stack)
    (context : ∃ t, m.step.context = m.context.withLocals t) (still : m.deed.Still) : m.Turn :=
  .stays [] [] m.stack rfl stack (Nat.zero_le 1) (List.forall_mem_nil _) (List.forall_mem_nil _) context
    still

/-- The frame on top goes away and nothing else on the stack changes. -/
theorem turn_pops {f : Frame} {below : List Frame} (stack : m.stack = f :: below)
    (plain : f.isPlain = true) (stack' : m.step.stack = below)
    (context : ∃ t, m.step.context = m.context.withLocals t) (still : m.deed.Still) : m.Turn := by
  refine .stays [f] [] below stack stack' (Nat.le_refl 1) ?_ (List.forall_mem_nil _) context still
  intro g mem
  rw [List.mem_singleton.mp mem]
  exact plain

section

variable (alive : m.world.aborted = none)

include alive

/-- What a step that begins puts on the stack. -/
theorem turn_begins {outer : Bool} {index : Nat} {g : Guard} {st : Step} {rest : Block}
    {below : List Frame} (control : m.control = .run)
    (stack : m.stack = .block outer index ((g, st) :: rest) :: below) : m.Turn := by
  have step := step_run alive control stack
  have still : m.deed.Still := by
    rw [deed_of_alive alive, control, stack]
    exact (stepDeed_direct m st).still
  by_cases thread : ∃ body, st = .thread body
  · obtain ⟨body, rfl⟩ := thread
    refine .parts (.thread m.context m.world.thread) body rfl ?_ still
    rw [step]
    rfl
  · have plain (body : Block) : st ≠ .thread body := fun same => thread ⟨body, same⟩
    have opens (new : List Frame) (plain : ∀ f ∈ new, f.isPlain = true)
        (stack : (m.begin g st).stack = new ++ m.stack) (context : (m.begin g st).context = m.context) :
        m.Turn := by
      refine .stays [] new m.stack rfl ?_ (Nat.zero_le 1) (List.forall_mem_nil _) plain ?_ still
      · rw [step, stack]
      · rw [step, context]
        exact m.context.withLocals_kept
    have begins : Begins m m.stack m.world.thread.frames _ _ := begins_begin m g plain
    cases begins with
    | ends finishes =>
        refine turn_keeps ?_ ?_ still
        · rw [step]
          exact finishes.toBlind.kept.1
        · rw [step]
          exact finishes.context
    | opens new slots opened same =>
        have placed := opened.stack
        have opening := opened.opening
        generalize (m.begin g st).context = ctx at opening opens
        generalize (m.begin g st).control = next at opening
        cases opening with
        | call c => exact opens _ (by simp [Frame.isPlain]) placed rfl
        | nativeCall name => exact opens _ (by simp [Frame.isPlain]) placed rfl
        | branch taken steps => exact opens _ (by simp [Frame.isPlain]) placed rfl
        | loop left steps => exact opens _ (by simp [Frame.isPlain]) placed rfl
        | finalizer label steps =>
            refine .parts (.finalizer m.context) steps rfl ?_ still
            rw [step]
            exact placed

/-- What entering the engine puts on the stack. -/
theorem turn_enters {n : NativeId} {args : List (Slot ObjId)} {slots : SlotArray}
    (control : m.control = .enter n args slots) : m.Turn := by
  have step := step_enter alive control
  have deed : m.deed = m.entryDeed n args slots := by
    rw [deed_of_alive alive, control]
  -- A call that is over at once leaves the frames and the context as they are.
  have gone {w : World} {r : EngineResult} (still : m.deed.Still)
      (same : m.enter n args slots = { m.withWorld w with control := .engine r }) : m.Turn := by
    refine turn_keeps ?_ ?_ still
    · rw [step, same]
      rfl
    · rw [step, same]
      exact m.context.withLocals_kept
  cases m.entry n args slots with
  | missing none t same =>
      refine gone (w := m.world) ?_ same
      rw [deed, entryDeed_of_missing none]
      trivial
  | interrupted f s reaches pending same =>
      refine gone ?_ same
      rw [deed, entryDeed_of_pending reaches pending]
      trivial
  | refused f s reaches calm t refusal same =>
      refine gone (w := m.world) ?_ same
      rw [deed, entryDeed_of_calm reaches calm, same]
      trivial
  | released f s reaches calm admitted env callback message w inert same =>
      refine gone ?_ same
      rw [deed, entryDeed_of_calm reaches calm, same]
      trivial
  | replied f s reaches calm admitted code callback same =>
      refine gone ?_ same
      rw [deed, entryDeed_of_calm reaches calm, same]
      trivial
  | callsOn f s reaches calm admitted code callback callee results same =>
      refine .callsOn ⟨code, f.store, args, slots.available⟩ ?_ ?_ ?_
      · rw [step, same]
      · rw [step, same]
      · rw [deed, entryDeed_of_calm reaches calm, same]
  | starts f s reaches calm admitted env callback a w starts same =>
      refine .starts a n f s env ?_ ?_ ?_
      · refine ⟨alive, ⟨args, slots, control⟩, reaches, callback, starts.native, starts.depth,
          starts.attached, ?_⟩
        rw [deed, entryDeed_of_starts reaches calm (congrArg Machine.control same), starts.native]
      · rw [step, same]
      · rw [step, same]

end

section

variable (alive : m.world.aborted = none)

include alive

/-- What becomes of the frame on top when what it waited for has ended. -/
theorem turn_ends {c : Completion} (control : m.control = .complete c)
    (nested : Nested m.context m.stack m.world.thread.frames) (off : Frame.OffCall m.stack) :
    m.Turn := by
  have step := step_complete alive control
  have kept := m.context.withLocals_kept
  have deed := deed_of_alive alive
  rw [control] at deed
  unfold Machine.deliver at step
  cases stack : m.stack with
  | nil =>
      rw [stack] at step deed
      refine turn_keeps ?_ ?_ ?_
      · rw [step]
        rfl
      · rw [step]
        exact kept
      · rw [deed]
        trivial
  | cons f below =>
      rw [stack] at step deed nested off
      cases f with
      | block outer index steps =>
          have still : m.deed.Still := by
            rw [deed]
            trivial
          cases steps with
          | nil =>
              refine turn_pops stack rfl ?_ ?_ still
              · rw [step]
              · rw [step]
                exact kept
          | cons first rest =>
              obtain ⟨context, settled⟩ := m.settle_spec c outer index first.1 first.2 rest below
              have same : ∃ t, m.step.context = m.context.withLocals t := by
                rw [step, context]
                exact kept
              split at settled
              · refine .stays [_] [.block outer (index + 1) rest] below stack ?_ (Nat.le_refl 1)
                  (by simp [Frame.isPlain]) (by simp [Frame.isPlain]) same still
                rw [step]
                exact settled.1
              · refine turn_pops stack rfl ?_ same still
                rw [step]
                exact settled.1
      | branch taken =>
          refine turn_pops stack rfl ?_ ?_ ?_
          · rw [step]
          · rw [step]
            exact kept
          · rw [deed]
            trivial
      | loop left body =>
          have still : m.deed.Still := by
            rw [deed]
            trivial
          dsimp only at step
          split at step
          · cases left with
            | zero =>
                refine turn_pops stack rfl ?_ ?_ still
                · rw [step]
                  rfl
                · rw [step]
                  exact kept
            | succ left =>
                refine .stays [_] [.block false 0 body, .loop left body] below stack ?_ (Nat.le_refl 1)
                  (by simp [Frame.isPlain]) (by simp [Frame.isPlain]) ?_ still
                · rw [step]
                  rfl
                · rw [step]
                  exact kept
          · refine turn_pops stack rfl ?_ ?_ still
            · rw [step]
            · rw [step]
              exact kept
      | activation saved =>
          obtain ⟨⟨a, context⟩, -, -⟩ := nested.of_activation
          dsimp only at step deed
          rw [context] at step deed
          refine .leaves a saved below context stack ?_ ?_ deed
          · rw [step]
            rfl
          · rw [step]
            rfl
      | thread saved state =>
          refine .joins (.thread saved state) below ?_ stack ?_ ?_
          · rw [step]
            rfl
          · rw [step]
            rfl
          · rw [deed]
            trivial
      | finalizer saved =>
          refine .joins (.finalizer saved) below ?_ stack ?_ ?_
          · rw [step]
            rfl
          · rw [step]
            rfl
          · rw [deed]
            trivial
      | hostCall | nativeCall | callback => cases off

/-- What becomes of the frame on top when the engine returns to it. -/
theorem turn_returns {r : EngineResult} (control : m.control = .engine r)
    (nested : Nested m.context m.stack m.world.thread.frames) (on : Frame.OnCall m.stack) :
    m.Turn := by
  have step := step_engine alive control
  have deed := deed_of_alive alive
  rw [control] at deed
  cases stack : m.stack with
  | nil =>
      rw [stack] at on
      cases on
  | cons f below =>
      rw [stack] at nested on deed
      cases f with
      | hostCall c =>
          obtain ⟨-, slot, lower, frames, -⟩ := nested.of_hostCall
          have ends : Finishes (m.withWorld _) below lower (m.returned c r slot) _ :=
            (blind_self _ below lower).resumeCall c.request _
          refine turn_pops stack rfl ?_ ?_ ?_
          · rw [step_hostCall alive control stack frames]
            rfl
          · rw [step_hostCall alive control stack frames]
            exact ends.context
          · rw [deed]
            trivial
      | nativeCall name =>
          rw [deliverEngine_nativeCall stack] at step
          have ends := (blind_self { m with stack := below } below m.world.thread.frames).endNativeCall
            name r
          refine turn_pops stack rfl ?_ ?_ ?_
          · rw [step]
            exact congrArg Machine.stack ends.same
          · rw [step]
            exact ends.context
          · rw [deed]
            trivial
      | callback c =>
          rw [deliverEngine_callback stack] at step
          refine .replies c below stack ?_ ?_ deed
          · rw [step]
            cases r <;> rfl
          · rw [step]
            cases r <;> rfl
      | block | branch | loop | activation | thread | finalizer => cases on

end

/-- In every state whose frames are in order a transition is one of these. -/
theorem InOrder.turn (inOrder : m.InOrder) : m.Turn := by
  obtain ⟨nested, suits⟩ := inOrder
  cases aborted : m.world.aborted with
  | some op =>
      have step := step_aborted aborted
      refine turn_keeps ?_ ?_ ?_
      · rw [step]
      · rw [step]
        exact m.context.withLocals_kept
      · unfold Machine.deed
        rw [aborted]
        trivial
  | none =>
      cases control : m.control with
      | run =>
          rw [control] at suits
          obtain ⟨outer, index, steps, below, stack⟩ := suits
          cases steps with
          | nil =>
              have step : m.step = { m with stack := below }.finish .ok := by
                unfold Machine.step
                rw [aborted, control, stack]
                rfl
              refine turn_pops stack rfl (by rw [step]; rfl) ?_ ?_
              · rw [step]
                exact m.context.withLocals_kept
              · rw [deed_of_alive aborted, control, stack]
                trivial
          | cons first rest => exact turn_begins aborted control stack
      | complete c =>
          rw [control] at suits
          exact turn_ends aborted control nested suits
      | enter n args slots => exact turn_enters aborted control
      | engine r =>
          rw [control] at suits
          exact turn_returns aborted control nested suits
      | halted ending =>
          have step : m.step = m := by
            unfold Machine.step
            rw [aborted, control]
            rfl
          refine turn_keeps ?_ ?_ ?_
          · rw [step]
          · rw [step]
            exact m.context.withLocals_kept
          · rw [deed_of_alive aborted, control]
            trivial

/-! ## What stays below -/

theorem Turn.moves (turn : m.Turn) : m.deed.Moves m.callbacks m.step.callbacks := by
  unfold Machine.callbacks
  cases turn with
  | stays top new rest stack stack' single plain plain' context still =>
      obtain ⟨t, context⟩ := context
      refine still.moves ?_
      rw [stack, stack', context, Frame.callbacks_plain plain', Frame.callbacks_plain plain,
        Frame.callbacks_withLocals]
  | starts a n f s env enters context stack =>
      rw [context, stack, enters.deed]
      rfl
  | callsOn c context stack deed =>
      rw [context, stack, deed]
      rfl
  | leaves a saved below context stack context' stack' deed =>
      rw [context, stack, context', stack', deed]
      rfl
  | replies c below stack context stack' deed =>
      rw [stack, context, stack', deed]
      rfl
  | parts f body aside stack still =>
      refine still.moves ?_
      rw [stack]
      cases f with
      | thread | finalizer =>
          cases aside
          rfl
      | _ => cases aside
  | joins f below aside stack stack' still =>
      refine still.moves ?_
      rw [stack, stack']
      cases f with
      | thread | finalizer =>
          cases aside
          rfl
      | _ => cases aside

/-- No frame stands below itself. -/
theorem not_suffix_tail {f : Frame} {above below base : List Frame} (stack : f :: below = above ++ base)
    (stays : base <:+ below) : ∃ above', above = f :: above' ∧ below = above' ++ base := by
  cases above with
  | nil =>
      have length := stays.length_le
      rw [← List.nil_append base, ← stack, List.length_cons] at length
      omega
  | cons g above' =>
      obtain ⟨rfl, rfl⟩ := List.cons.inj stack
      exact ⟨above', rfl, rfl⟩

/-- Frames that stay on the stack belong to the context that they belonged to, whose locals may have
changed. -/
theorem Turn.above (turn : m.Turn) {above base : List Frame} (stack : m.stack = above ++ base)
    (stays : base <:+ m.step.stack) : ∃ above', m.step.stack = above' ++ base ∧
      ∃ t, Frame.context m.step.context above' = (Frame.context m.context above).withLocals t := by
  have kept := Context.withLocals_kept
  cases turn with
  | stays top new rest stack₁ stack' single plain plain' context still =>
      obtain ⟨t, context⟩ := context
      rw [stack'] at stays ⊢
      rw [context]
      rcases List.append_eq_append_iff.mp (stack₁.symm.trans stack) with
        ⟨middle, rfl, rfl⟩ | ⟨middle, rfl, rfl⟩
      · refine ⟨new ++ middle, (List.append_assoc new middle base).symm, ?_⟩
        rw [Frame.context_append, Frame.context_append, Frame.context_plain plain',
          Frame.context_plain plain]
        exact Frame.context_withLocals m.context t middle
      · -- The frames that stay reach into those that were exchanged.
        obtain ⟨above', same⟩ := stays
        rw [← List.append_assoc] at same
        obtain rfl := List.append_cancel_right same
        have above_plain : ∀ f ∈ above, f.isPlain = true := fun f mem =>
          plain f (List.mem_append_left middle mem)
        have above'_plain : ∀ f ∈ above', f.isPlain = true := fun f mem =>
          plain' f (List.mem_append_left middle mem)
        refine ⟨above', List.append_assoc above' middle rest, t, ?_⟩
        rw [Frame.context_plain above_plain, Frame.context_plain above'_plain]
  | starts a n f s env enters context stack₁ =>
      rw [stack₁, stack]
      exact ⟨.block true 0 a.steps :: .activation m.context :: above, rfl, kept _⟩
  | callsOn c context stack₁ deed =>
      rw [stack₁, stack, context]
      exact ⟨.callback c :: above, rfl, kept _⟩
  | leaves a saved below context stack₁ context' stack' deed =>
      rw [stack'] at stays
      obtain ⟨above', rfl, below'⟩ := not_suffix_tail (stack₁.symm.trans stack) stays
      refine ⟨above', stack'.trans below', ?_⟩
      rw [context']
      exact kept _
  | replies c below stack₁ context stack' deed =>
      rw [stack'] at stays
      obtain ⟨above', rfl, below'⟩ := not_suffix_tail (stack₁.symm.trans stack) stays
      refine ⟨above', stack'.trans below', ?_⟩
      rw [context]
      exact kept _
  | parts f body aside stack₁ still =>
      refine ⟨.block true 0 body :: f :: above, by rw [stack₁, stack]; rfl, ?_⟩
      cases f with
      | thread | finalizer =>
          cases aside
          exact kept _
      | _ => cases aside
  | joins f below aside stack₁ stack' still =>
      rw [stack'] at stays
      obtain ⟨above', rfl, below'⟩ := not_suffix_tail (stack₁.symm.trans stack) stays
      refine ⟨above', stack'.trans below', ?_⟩
      cases f with
      | thread | finalizer =>
          cases aside
          exact kept _
      | _ => cases aside

/-- A body that is on the stack was there before, or has just started. -/
theorem Turn.stood (turn : m.Turn) {saved : Context} {below : List Frame}
    (stands : .activation saved :: below <:+ m.step.stack) :
    .activation saved :: below <:+ m.stack ∨
      saved = m.context ∧ below = m.stack ∧ ∃ a n f s env, m.Enters a n f s env ∧
        m.step.context = .body a ∧
        m.step.stack = [.block true 0 a.steps] ++ .activation saved :: below := by
  cases turn with
  | stays top new rest stack stack' single plain plain' context still =>
      rw [stack'] at stands
      refine .inl (stack ▸ ?_)
      clear stack stack'
      induction new with
      | nil => exact stands.trans (List.suffix_append top rest)
      | cons f new ih =>
          rcases List.suffix_cons_iff.mp stands with same | stands
          · obtain ⟨rfl, -⟩ := List.cons.inj same
            cases plain' _ List.mem_cons_self
          · exact ih stands fun g mem => plain' g (List.mem_cons_of_mem f mem)
  | starts a n f s env enters context stack =>
      rw [stack] at stands
      rcases List.suffix_cons_iff.mp stands with same | stands
      · cases (List.cons.inj same).1
      · rcases List.suffix_cons_iff.mp stands with same | stands
        · obtain ⟨frame, rfl⟩ := List.cons.inj same
          cases frame
          exact .inr ⟨rfl, rfl, a, n, f, s, env, enters, context, stack⟩
        · exact .inl stands
  | callsOn c context stack deed =>
      rw [stack] at stands
      rcases List.suffix_cons_iff.mp stands with same | stands
      · cases (List.cons.inj same).1
      · exact .inl stands
  | leaves a saved' below' context stack context' stack' deed =>
      rw [stack'] at stands
      exact .inl (stack ▸ stands.trans (List.suffix_cons _ below'))
  | replies c below' stack context stack' deed =>
      rw [stack'] at stands
      exact .inl (stack ▸ stands.trans (List.suffix_cons _ below'))
  | parts f body aside stack still =>
      rw [stack] at stands
      rcases List.suffix_cons_iff.mp stands with same | stands
      · cases (List.cons.inj same).1
      · rcases List.suffix_cons_iff.mp stands with same | stands
        · obtain ⟨rfl, -⟩ := List.cons.inj same
          cases aside
        · exact .inl stands
  | joins f below' aside stack stack' still =>
      rw [stack'] at stands
      exact .inl (stack ▸ stands.trans (List.suffix_cons f below'))

end Machine

end HostEmbedding
