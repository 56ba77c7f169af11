import HostEmbedding.Proofs.Ownership.Tasks

/-!
# Creating keeps the account

A new object takes over references and natives that the outside gives up. While something is being
created a native object may exist that nothing claims yet, and an environment that no handle holds
yet; the handle or store that is added last takes both. Views only count what they keep alive.
-/

namespace HostEmbedding.World

variable {w v : World} {held held' : List ObjId}

/-- The account while something is being created: `fresh` is the native object that nothing claims
yet, and `opened` the environment that no handle holds yet. -/
structure Creating (w : World) (held : List ObjId) (fresh : Option NativeId) (opened : Option ObjId) :
    Prop extends Balanced w held fresh.toList where
  claims : ∀ {n o}, w.shapes.native? n = some o →
    fresh = some n ∨ ∃ i p, w.shapes.object? i = some p ∧ p.claim? = some n
  unclaimed : ∀ n, fresh = some n → w.Unclaimed n
  attached : ∀ {i h e}, w.shapes.IsHandle i h → h.state.env? = some e →
    (w.strong i = 0 ↔ w.attached? e = none)
  owners : ∀ {e c}, w.attached? e = some c →
    opened = some e ∨ ∃ i h, w.shapes.IsHandle i h ∧ h.state.env? = some e
  unshared : ∀ e, opened = some e → w.Unshared e ∧ w.attached? e ≠ none
  rested : ∀ s, w.strong s = 0 → w.pending s = {}
  retired : w.thread.retired = []
  finalized : w.Finalized

variable {fresh fresh' : Option NativeId} {opened opened' : Option ObjId}

theorem Sound.creating (sound : w.Sound held) : w.Creating held none none where
  toBalanced := sound.toBalanced
  claims known := .inr (sound.claimsTotal known)
  unclaimed n impossible := by cases impossible
  attached := sound.attached
  owners holds := .inr (sound.attachedOwned holds)
  unshared e impossible := by cases impossible
  rested := sound.rested
  retired := sound.retired
  finalized := sound.finalized

theorem Creating.sound (creating : w.Creating held none none) : w.Sound held where
  toBalanced := creating.toBalanced
  claimsTotal known := (creating.claims known).resolve_left (by simp)
  attached := creating.attached
  attachedOwned holds := (creating.owners holds).resolve_left (by simp)
  rested := creating.rested
  retired := creating.retired
  finalized := creating.finalized

theorem Creating.same (creating : w.Creating held fresh opened) (same : Same w v) :
    v.Creating held fresh opened where
  toBalanced := creating.toBalanced.same same
  claims := by rw [same.shapes]; exact creating.claims
  unclaimed := by unfold Unclaimed; rw [same.shapes]; exact creating.unclaimed
  attached := by rw [same.shapes, same.strong, same.attached?]; exact creating.attached
  owners := by rw [same.shapes, same.attached?]; exact creating.owners
  unshared := by unfold Unshared; rw [same.shapes, same.attached?]; exact creating.unshared
  rested := by rw [same.strong, same.pending]; exact creating.rested
  retired := by rw [same.thread]; exact creating.retired
  finalized := creating.finalized.same same

theorem Creating.regroup (creating : w.Creating held fresh opened)
    (same : ∀ id, held'.count id = held.count id) : w.Creating held' fresh opened :=
  { creating with toBalanced := creating.toBalanced.regroup same }

/-! ## One more reference -/

@[simp]
theorem shapes_retain (w : World) (id : ObjId) : (w.retain id).shapes = w.shapes :=
  shapes_modifyEntry fun _ _ => rfl

/-- Counting one more reference to a live object. -/
theorem Creating.retain (creating : w.Creating held fresh opened) {id : ObjId}
    (alive : w.strong id ≠ 0) : (w.retain id).Creating (id :: held) fresh opened := by
  obtain ⟨⟨k, o⟩, found, positive⟩ := exists_entry_of_strong alive
  have positive : k ≠ 0 := positive
  have shapes := shapes_retain w id
  have attached : (w.retain id).attached? = w.attached? := attached?_modifyEntry fun _ _ => rfl
  have pending : (w.retain id).pending = w.pending := pending_modifyEntry fun _ _ => rfl
  have zero (x : ObjId) : (w.retain id).strong x = 0 ↔ w.strong x = 0 := by
    unfold World.retain
    rw [strong_modifyEntry found]
    split
    · next same =>
        rw [same, strong_eq found]
        simp [positive]
    · rfl
  have object : o.Fits w.shapes id := creating.objects found
  have owned : Entry.owned ⟨k, o⟩ = o.refs := if_neg positive
  have owned' : Entry.owned ⟨k + 1, o⟩ = o.refs := if_neg (Nat.succ_ne_zero k)
  have claimed : Entry.claimed ⟨k, o⟩ = o.claim?.toList := if_neg positive
  have claimed' : Entry.claimed ⟨k + 1, o⟩ = o.claim?.toList := if_neg (Nat.succ_ne_zero k)
  have bal : (w.retain id).Balanced (id :: held) fresh.toList := by
    refine creating.toBalanced.modifyEntry found rfl object (fun x => ?_) fun n => ?_
    · rw [owned, owned', List.count_cons]
      by_cases same : x = id
      · subst same
        simp only [if_true, beq_self_eq_true]
        omega
      · simp only [same, if_false, beq_iff_eq, Ne.symm same]
        omega
    · rw [claimed, claimed']
      rfl
  constructor
  case toBalanced => exact bal
  case claims =>
      rw [shapes]
      exact creating.claims
  case unclaimed =>
      unfold Unclaimed
      rw [shapes]
      exact creating.unclaimed
  case attached =>
      intro i h e known env
      rw [zero, attached]
      exact creating.attached (shapes ▸ known) env
  case owners =>
      rw [shapes, attached]
      exact creating.owners
  case unshared =>
      unfold Unshared
      rw [shapes, attached]
      exact creating.unshared
  case rested =>
      intro s dead
      rw [pending]
      exact creating.rested s ((zero s).mp dead)
  case retired => exact creating.retired
  case finalized => exact creating.finalized

theorem Sound.retain (sound : w.Sound held) {id : ObjId} (alive : w.strong id ≠ 0) :
    (w.retain id).Sound (id :: held) :=
  (sound.creating.retain alive).sound

theorem strong_retain_ne_zero {id x : ObjId} (alive : w.strong x ≠ 0) :
    (w.retain id).strong x ≠ 0 := by
  unfold World.retain
  cases found : w.entry? id with
  | none =>
      rw [strong_of_heap (modifyEntry_of_none found _)]
      exact alive
  | some e =>
      rw [strong_modifyEntry found]
      split
      · exact Nat.succ_ne_zero e.strong
      · exact alive

/-- Counting one more reference for each address of a list. -/
theorem Sound.retainAll (ids : List ObjId) {w : World} {held : List ObjId} (sound : w.Sound held)
    (alive : ∀ id ∈ ids, w.strong id ≠ 0) : (w.retainAll ids).Sound (ids ++ held) := by
  induction ids generalizing w held with
  | nil => exact sound
  | cons id rest ih =>
      have retained := ih (sound.retain (alive id List.mem_cons_self)) fun x mem =>
        strong_retain_ne_zero (alive x (List.mem_cons_of_mem id mem))
      refine (retained.creating.regroup fun x => ?_).sound
      simp only [List.count_append, List.cons_append, List.count_cons]
      omega

/-! ## A new native object -/

/-- A native object that is created was neither deleted nor finalized. -/
theorem Balanced.finalized_allocNative {moving : List NativeId} (bal : w.Balanced held moving)
    (finalized : w.Finalized) (o : Native) : (w.allocNative o).2.Finalized := by
  intro n f found
  rw [finalizations_allocNative, deletions_allocNative]
  rw [nativeObject?_allocNative] at found
  split at found
  · next same =>
      have beyond : w.natives.size ≤ n.index := by rw [same]; exact Nat.le_refl _
      have place := bal.placed n
      rw [if_neg (by omega)] at place
      have fresh : w.finalizations n = 0 := by
        simp [finalizations, Array.getElem?_eq_none beyond]
      omega
  · exact finalized n f found

/-- A native object is created; it is lent the environment that the outside gives up. -/
theorem Creating.allocNative (creating : w.Creating held none opened) {o : Native}
    (counts : ∀ x, held'.count x + o.env?.toList.count x = held.count x) :
    (w.allocNative o).2.Creating held' (some (w.allocNative o).1) opened := by
  have grows := shapes_allocNative w o
  refine ⟨creating.toBalanced.allocNative counts, fun {n s} known => ?_, fun n same => ?_,
    creating.attached, creating.owners, creating.unshared, creating.rested, creating.retired,
    creating.toBalanced.finalized_allocNative creating.finalized o⟩
  · obtain ⟨b, found, shape⟩ := nativeObject_of_shape known
    rw [nativeObject?_allocNative] at found
    split at found
    · next same => exact .inl (congrArg some same.symm)
    · have older : w.shapes.native? n = some s := by simp [World.shapes, found, shape]
      exact .inr ((creating.claims older).resolve_left (by simp))
  · cases same
    exact creating.toBalanced.unclaimed_allocNative o

/-! ## A new object -/

/-- How an object that is added at an address changes what environment is open: it leaves that alone,
opens itself, or closes it as its handle. -/
inductive Opens (o : Object) (id : ObjId) : Option ObjId → Option ObjId → Prop where
  | keep {e : Option ObjId} (holds : closureOf o = none)
      (plain : ∀ h, o = .handle h → h.state.env? = none) : Opens o id e e
  | opening {c s : ObjId} {t : FuncType} (env : o = .env (some c) t s) : Opens o id none (some id)
  | closing {h : Handle} {e : ObjId} (handle : o = .handle h) (env : h.state.env? = some e) :
      Opens o id (some e) none

theorem Opens.shares {o : Object} {id : ObjId} (opens : Opens o id opened opened') {h : Handle}
    {e : ObjId} (handle : o = .handle h) (env : h.state.env? = some e) : opened = some e := by
  cases opens with
  | keep _ plain =>
      rw [plain h handle] at env
      cases env
  | opening same =>
      rw [handle] at same
      cases same
  | closing same env' =>
      rw [handle] at same
      cases same
      rw [env] at env'
      exact env'.symm

theorem entry?_alloc_of_known (o : Object) (strong : Nat) {x : ObjId} {p : Object}
    (known : w.shapes.object? x = some p) :
    x ≠ (w.alloc o strong).1 ∧ World.entry? (w.alloc o strong).2 x = w.entry? x := by
  have other : x ≠ (w.alloc o strong).1 := by
    rintro rfl
    obtain ⟨e, found, -⟩ := shapes_object?.mp known
    rw [entry?_alloc_self] at found
    cases found
  exact ⟨other, by rw [entry?_alloc, if_neg other]⟩

theorem attached?_alloc (w : World) (o : Object) (strong : Nat) (e : ObjId) :
    (w.alloc o strong).2.attached? e = if e = (w.alloc o strong).1 then closureOf o else w.attached? e := by
  simp only [attached?_eq, entry?_alloc]
  split <;> rfl

theorem attached?_alloc_of_known (o : Object) (strong : Nat) {e : ObjId} {p : Object}
    (known : w.shapes.object? e = some p) : (w.alloc o strong).2.attached? e = w.attached? e := by
  rw [attached?_alloc, if_neg (entry?_alloc_of_known o strong known).1]

section Allocation

variable (creating : w.Creating held fresh opened) {o : Object} {strong : Nat}

include creating

/-- What no object claimed is claimed by the one that is added, or by none still. -/
theorem Creating.claims_alloc (takes : o.claim?.toList ++ fresh'.toList = fresh.toList) {n : NativeId}
    {s : Native} (native : w.shapes.native? n = some s) :
    fresh' = some n ∨ ∃ i p, (w.alloc o strong).2.shapes.object? i = some p ∧ p.claim? = some n := by
  rcases creating.claims native with same | ⟨i, p, known, claim⟩
  · rw [same] at takes
    cases claim : o.claim? with
    | none =>
        rw [claim] at takes
        cases fresh' <;> cases takes
        exact .inl rfl
    | some m =>
        rw [claim] at takes
        obtain ⟨rfl, -⟩ := List.cons.inj takes
        exact .inr ⟨_, _, shapes_alloc_self w o strong, by simpa using claim⟩
  · exact .inr ⟨i, p, (shapes_alloc w o strong).object known, claim⟩

theorem Creating.unclaimed_alloc (takes : o.claim?.toList ++ fresh'.toList = fresh.toList) {n : NativeId}
    (still : fresh' = some n) : (w.alloc o strong).2.Unclaimed n := by
  obtain ⟨same, none⟩ : fresh = some n ∧ o.claim? = none := by
    rw [still] at takes
    cases fresh <;> cases claim : o.claim? <;> simp_all
  intro i p known
  rcases shapes_alloc_cases known with ⟨-, rfl⟩ | known
  · simp [none]
  · exact creating.unclaimed n same i p known

/-- A handle that is added lives, and so does the closure of its function. -/
theorem Creating.attached_alloc (alive : strong ≠ 0) (opens : Opens o (w.alloc o strong).1 opened opened')
    {i e : ObjId} {h : Handle} (handle : (w.alloc o strong).2.shapes.IsHandle i h)
    (env : h.state.env? = some e) :
    (w.alloc o strong).2.strong i = 0 ↔ (w.alloc o strong).2.attached? e = none := by
  rcases shapes_alloc_cases handle with ⟨rfl, shape⟩ | known
  · obtain ⟨-, holds⟩ := creating.unshared e (opens.shares (Object.shape_eq_handle.mp shape.symm) env)
    have other : e ≠ (w.alloc o strong).1 := by
      rintro rfl
      rw [attached?_eq, entry?_alloc_self] at holds
      exact holds rfl
    rw [strong_alloc, if_pos rfl, attached?_alloc, if_neg other]
    exact ⟨fun dead => absurd dead alive, fun none => absurd none holds⟩
  · obtain ⟨-, s, type, -, isEnv, -⟩ := creating.env_known known env
    rw [strong_alloc, if_neg (entry?_alloc_of_known o strong known).1, attached?_alloc_of_known o strong isEnv]
    exact creating.attached known env

theorem Creating.owners_alloc (opens : Opens o (w.alloc o strong).1 opened opened') {e c : ObjId}
    (holds : (w.alloc o strong).2.attached? e = some c) :
    opened' = some e ∨ ∃ i h, (w.alloc o strong).2.shapes.IsHandle i h ∧ h.state.env? = some e := by
  rw [attached?_alloc] at holds
  split at holds
  · next same =>
      subst same
      cases opens with
      | keep none => rw [none] at holds; cases holds
      | opening => exact .inl rfl
      | closing handle => rw [handle] at holds; cases holds
  · rcases creating.owners holds with same | ⟨i, h, known, env⟩
    · cases opens with
      | keep => exact .inl same
      | opening => cases same
      | closing handle env =>
          cases same
          refine .inr ⟨(w.alloc o strong).1, _, ?_, env⟩
          refine (shapes_alloc_self w o strong).trans ?_
          rw [handle]
          rfl
    · exact .inr ⟨i, h, (shapes_alloc w o strong).object known, env⟩

/-- The environment that is open afterwards was open before, or it is the object that is added. -/
theorem Creating.unshared_alloc (opens : Opens o (w.alloc o strong).1 opened opened') {e : ObjId}
    (still : opened' = some e) :
    (w.alloc o strong).2.Unshared e ∧ (w.alloc o strong).2.attached? e ≠ none := by
  cases opens with
  | keep none plain =>
      obtain ⟨unshared, holds⟩ := creating.unshared e still
      refine ⟨fun i h known env => ?_, ?_⟩
      · rcases shapes_alloc_cases known with ⟨-, shape⟩ | known
        · rw [plain h (Object.shape_eq_handle.mp shape.symm)] at env
          cases env
        · exact unshared i h known env
      · rw [attached?_alloc]
        split
        · next same =>
            rw [same, attached?_eq, entry?_alloc_self] at holds
            exact absurd rfl holds
        · exact holds
  | opening env =>
      cases still
      refine ⟨fun i h known env' => ?_, ?_⟩
      · rcases shapes_alloc_cases known with ⟨-, shape⟩ | known
        · rw [env] at shape
          cases shape
        · obtain ⟨-, s, type, -, isEnv, -⟩ := creating.env_known known env'
          exact (entry?_alloc_of_known o strong isEnv).1 rfl
      · rw [attached?_alloc, if_pos rfl, env]
        simp [closureOf]
  | closing => cases still

theorem Creating.rested_alloc (alive : strong ≠ 0) {s : ObjId}
    (dead : (w.alloc o strong).2.strong s = 0) : (w.alloc o strong).2.pending s = {} := by
  rw [strong_alloc] at dead
  rw [pending_eq, entry?_alloc]
  split
  · next same =>
      rw [if_pos same] at dead
      exact absurd dead alive
  · next other =>
      rw [if_neg other] at dead
      rw [← pending_eq]
      exact creating.rested s dead

/-- The counts and places of an object that is added, and of what it takes over. -/
theorem Creating.balanced_alloc (alive : strong ≠ 0)
    (fits : o.Fits (w.alloc o strong).2.shapes (w.alloc o strong).1)
    (takes : o.claim?.toList ++ fresh'.toList = fresh.toList) (empty : queuesOf o = {})
    (opens : Opens o (w.alloc o strong).1 opened opened')
    (counts : ∀ x, held'.count x + o.refs.count x =
      held.count x + if x = (w.alloc o strong).1 then strong else 0) :
    (w.alloc o strong).2.Balanced held' fresh'.toList := by
  have claimed (n : NativeId) (claim : o.claim? = some n) : fresh = some n := by
    rw [claim] at takes
    cases fresh <;> simp_all
  have empties : o.queued = [] := by cases o <;> first | rfl | (cases empty; rfl)
  refine creating.toBalanced.alloc alive fits (fun n claim => creating.unclaimed n (claimed n claim))
    (fun h e handle env => (creating.unshared e (opens.shares handle env)).1) counts fun n => ?_
  rw [empties, ← takes, List.count_append, List.count_nil]
  omega

/-- Adding an object: it takes over what the outside gives up. -/
theorem Creating.alloc (alive : strong ≠ 0)
    (fits : o.Fits (w.alloc o strong).2.shapes (w.alloc o strong).1)
    (takes : o.claim?.toList ++ fresh'.toList = fresh.toList) (empty : queuesOf o = {})
    (opens : Opens o (w.alloc o strong).1 opened opened')
    (counts : ∀ x, held'.count x + o.refs.count x =
      held.count x + if x = (w.alloc o strong).1 then strong else 0) :
    (w.alloc o strong).2.Creating held' fresh' opened' where
  toBalanced := creating.balanced_alloc alive fits takes empty opens counts
  claims := creating.claims_alloc takes
  unclaimed _ := creating.unclaimed_alloc takes
  attached := creating.attached_alloc alive opens
  owners := creating.owners_alloc opens
  unshared _ := creating.unshared_alloc opens
  rested _ := creating.rested_alloc alive
  retired := creating.retired
  finalized := creating.finalized

end Allocation

/-! ## Handles -/

/-- The owning handle of a fresh native object closes what was being created. -/
theorem Creating.acquire {n sn : NativeId} {store : ObjId} {state : HandleState}
    (creating : w.Creating (state.env?.toList ++ held) (some n) state.env?)
    (alive : w.strong store ≠ 0) (isStore : w.shapes.IsStore store sn)
    (fits : state.Fits w.shapes ⟨n, store, none, state⟩ sn) :
    (w.acquire n store state).2.Sound ((w.acquire n store state).1 :: held) := by
  have retained := creating.retain alive
  have grows := shapes_alloc (w.retain store) (.handle ⟨n, store, none, state⟩) 1
  rw [shapes_retain] at grows
  have opens (id : ObjId) : Opens (.handle ⟨n, store, none, state⟩) id state.env? none := by
    cases env : state.env? with
    | none => exact .keep rfl fun h same => by cases same; exact env
    | some e => exact .closing rfl env
  unfold World.acquire
  refine (retained.alloc Nat.one_ne_zero ?_ rfl rfl (opens _) fun x => ?_).sound
  · exact ⟨⟨sn, isStore.mono grows, fits.mono grows⟩, fun o impossible => by cases impossible⟩
  · simp only [Object.refs, Handle.refs, Option.toList_none, List.nil_append, List.count_cons,
      List.count_append]
    simp only [beq_iff_eq, eq_comm (a := x)]
    omega

/-- A view keeps its store and its owner alive and nothing else. -/
theorem Sound.borrow {n : NativeId} {store owner : ObjId} {state : HandleState}
    (sound : w.Sound held) (storeAlive : w.strong store ≠ 0) (ownerAlive : w.strong owner ≠ 0)
    (plain : state.env? = none) (fits : Handle.Fits w.shapes ⟨n, store, some owner, state⟩) :
    (w.borrow n store owner state).2.Sound ((w.borrow n store owner state).1 :: held) := by
  have retained := (sound.retain storeAlive).retain (strong_retain_ne_zero ownerAlive)
  have grows := shapes_alloc ((w.retain store).retain owner)
    (.handle ⟨n, store, some owner, state⟩) 1
  rw [shapes_retain, shapes_retain] at grows
  unfold World.borrow
  refine (retained.creating.alloc Nat.one_ne_zero ?_ rfl rfl
    (.keep rfl fun h same => by cases same; exact plain) fun x => ?_).sound
  · exact Handle.Fits.mono grows fits
  · simp only [Object.refs, Handle.refs, plain, Option.toList_none, Option.toList_some,
      List.append_nil, List.count_cons, List.count_nil]
    simp only [beq_iff_eq, eq_comm (a := x)]
    omega

/-- An object that claims nothing and is no environment takes over what it owns. -/
theorem Sound.alloc {o : Object} (sound : w.Sound (o.refs ++ held)) (claims : o.claim? = none)
    (holds : closureOf o = none) (plain : ∀ h, o ≠ .handle h)
    (fits : o.Fits w.shapes (w.alloc o 1).1) :
    (w.alloc o 1).2.Sound ((w.alloc o 1).1 :: held) := by
  have empty : queuesOf o = {} := by cases o <;> first | rfl | cases claims
  refine (sound.creating.alloc Nat.one_ne_zero (fits.mono (shapes_alloc w o 1)) (by rw [claims]; rfl)
    empty (.keep holds fun h same => absurd same (plain h)) fun x => ?_).sound
  rw [List.count_cons, List.count_append]
  simp only [beq_iff_eq, eq_comm (a := x)]
  omega

end HostEmbedding.World
