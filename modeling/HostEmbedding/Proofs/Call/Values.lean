import HostEmbedding.Call.HostCall
import HostEmbedding.Proofs.Machine.Holdings

/-!
# Values on their way through a call

Arguments and results are encoded, carried as raw slots and read back. When the kinds are the
declared ones every inner check passes, what is read back is what was encoded, and encoding moves
references without losing or adding one.
-/

namespace HostEmbedding

/-! ## Kinds -/

namespace Activation

variable {declared : List Kind} {vals : List (Val ObjId)}

theorem firstMismatch_eq_none (same : vals.length = declared.length) :
    firstMismatch declared vals = none ↔ vals.map Val.kind = declared := by
  induction declared generalizing vals with
  | nil =>
      obtain rfl := List.length_eq_zero_iff.mp same
      simp [firstMismatch]
  | cons k ks ih =>
      cases vals with
      | nil => cases same
      | cons v vs =>
          unfold firstMismatch
          split
          · next here =>
              rw [Option.map_eq_none_iff, ih (Nat.succ.inj same)]
              simp [here]
          · next other => simp [other]

/-- The first mismatch is a position where the kinds differ after positions where they agree. -/
theorem firstMismatch_eq_some {i : Nat} {expected found : Kind}
    (mismatch : firstMismatch declared vals = some (i, expected, found)) :
    declared[i]? = some expected ∧ (vals.map Val.kind)[i]? = some found ∧ found ≠ expected ∧
      (vals.map Val.kind).take i = declared.take i := by
  induction declared generalizing vals i with
  | nil => cases mismatch
  | cons k ks ih =>
      cases vals with
      | nil => cases mismatch
      | cons v vs =>
          unfold firstMismatch at mismatch
          split at mismatch
          · next here =>
              obtain ⟨⟨j, e, f⟩, inner, same⟩ := Option.map_eq_some_iff.mp mismatch
              cases same
              obtain ⟨atExpected, atFound, differ, agree⟩ := ih inner
              exact ⟨atExpected, atFound, differ, by simp [here, agree]⟩
          · next other =>
              cases mismatch
              exact ⟨rfl, rfl, other, rfl⟩

theorem resultFault?_eq_none :
    resultFault? declared declared.length vals = none ↔ vals.map Val.kind = declared := by
  unfold resultFault?
  split
  · next differ =>
      refine ⟨fun refused => (nomatch refused), fun same => absurd ?_ differ⟩
      rw [← same, List.length_map]
  · next same =>
      rw [if_neg (not_not.mpr rfl)]
      rw [← firstMismatch_eq_none (not_not.mp same)]
      cases firstMismatch declared vals <;> simp

end Activation

/-- The arguments that pass the check are those of the declared kinds. -/
theorem argumentFault?_eq_none {params : List Kind} {args : List (Val ObjId)} :
    argumentFault? params args = none ↔ args.map Val.kind = params := by
  unfold argumentFault?
  split
  · next differ =>
      refine ⟨fun refused => (nomatch refused), fun same => absurd ?_ differ⟩
      rw [← same, List.length_map]
  · next same =>
      rw [← Activation.firstMismatch_eq_none (not_not.mp same)]
      cases Activation.firstMismatch params args <;> simp

/-! ## Slots -/

namespace Slot

theorem firstWrongKind_ofVal {declared : List Kind} {vals : List (Val ObjId)}
    (kinds : vals.map Val.kind = declared) :
    firstWrongKind (declared.map Kind.code) (vals.map ofVal) = none := by
  subst kinds
  induction vals with
  | nil => rfl
  | cons v vs ih =>
      simp only [List.map_cons, firstWrongKind, code_ofVal, if_true, ih, Option.map_none]

/-- Slots read at the kinds of the values written into them give those values. -/
theorem read_ofVals {declared : List Kind} {vals : List (Val ObjId)}
    (kinds : vals.map Val.kind = declared) :
    ((declared.zip (vals.map ofVal)).map fun p => p.2.read p.1) = vals := by
  subst kinds
  induction vals with
  | nil => rfl
  | cons v vs ih => simpa using ih

theorem kind_read (k : Kind) (s : Slot ObjId) : (s.read k).kind = k := by
  cases k <;> rfl

/-- Slots read at some kinds give values of these kinds. -/
theorem kinds_read {declared : List Kind} {args : List (Slot ObjId)} (count : args.length = declared.length) :
    ((declared.zip args).map fun p => p.2.read p.1).map Val.kind = declared := by
  induction declared generalizing args with
  | nil => rfl
  | cons k kinds ih =>
      cases args with
      | nil => cases count
      | cons a args =>
          rw [List.zip_cons_cons, List.map_cons, List.map_cons, kind_read, ih (Nat.succ.inj count)]

@[simp]
theorem refs_ofVals (vals : List (Val ObjId)) : Slot.refs (vals.map ofVal) = Val.refs vals := by
  unfold Slot.refs Val.refs
  rw [List.filterMap_map]
  exact List.filterMap_congr fun v _ => ref?_ofVal v

end Slot

/-! ## Scalars -/

namespace Scalar

@[simp]
theorem ref?_toVal (s : Scalar ObjId) : s.toVal.ref? = s.ref? := by
  cases s <;> rfl

@[simp]
theorem ref?_ofVal (v : Val ObjId) : (Scalar.ofVal v).ref? = v.ref? := by
  cases v <;> rfl

@[simp]
theorem refs_encode (ss : List (Scalar ObjId)) : Val.refs (TypeList.encode ss) = Scalar.refs ss := by
  unfold Val.refs TypeList.encode Scalar.refs
  rw [List.filterMap_map]
  exact List.filterMap_congr fun s _ => ref?_toVal s

@[simp]
theorem refs_ofVals (vals : List (Val ObjId)) : Scalar.refs (vals.map .ofVal) = Val.refs vals := by
  unfold Val.refs Scalar.refs
  rw [List.filterMap_map]
  exact List.filterMap_congr fun v _ => ref?_ofVal v

@[simp]
theorem encode_ofVals (vals : List (Val ObjId)) : TypeList.encode (vals.map .ofVal) = vals := by
  unfold TypeList.encode
  rw [List.map_map]
  exact List.map_id'' (fun v => toVal_ofVal v) vals

end Scalar

namespace TypeList

theorem kinds_eq (l : TypeList) : l.kinds = l.types.map ScalarType.kind := by
  cases l <;> rfl

theorem decode_eq (l : TypeList) (vals : List (Val ObjId)) :
    l.decode vals = decodeTuple l.types vals := by
  cases l <;> rfl

theorem decodeTuple_ok {ts : List ScalarType} {vals : List (Val ObjId)}
    (kinds : vals.map Val.kind = ts.map ScalarType.kind) :
    ∃ ss, decodeTuple ts vals = .ok ss ∧ encode ss = vals := by
  induction ts generalizing vals with
  | nil =>
      obtain rfl := List.map_eq_nil_iff.mp kinds
      exact ⟨[], rfl, rfl⟩
  | cons t ts ih =>
      cases vals with
      | nil => cases kinds
      | cons v vs =>
          obtain ⟨here, rest⟩ := List.cons.inj kinds
          obtain ⟨s, decoded⟩ := Option.isSome_iff_exists.mp ((Scalar.decode?_isSome t v).mpr here)
          obtain ⟨ss, others, encoded⟩ := ih rest
          refine ⟨s :: ss, ?_, ?_⟩
          · simp [decodeTuple, decoded, others]
          · simp only [encode, List.map_cons] at encoded ⊢
            rw [Scalar.toVal_of_decode? decoded, encoded]

/-- Values of the declared kinds decode, to scalars that encode back to them. -/
theorem decode_ok (l : TypeList) {vals : List (Val ObjId)} (kinds : vals.map Val.kind = l.kinds) :
    ∃ ss, l.decode vals = .ok ss ∧ encode ss = vals := by
  rw [decode_eq]
  exact decodeTuple_ok (by rw [kinds, kinds_eq])

end TypeList

/-! ## Parameters -/

namespace Activation

theorem refs_initialLocals (ss : List (Scalar ObjId)) :
    Scope.refs (initialLocals ss) = Scalar.refs ss := by
  have values (f : Nat → String) (ss : List (Scalar ObjId)) :
      (ss.mapIdx fun i s => (f i, Item.value s)).flatMap (fun p => p.2.refs) = Scalar.refs ss := by
    induction ss generalizing f with
    | nil => rfl
    | cons s rest ih =>
        rw [List.mapIdx_cons, List.flatMap_cons, ih fun i => f (i + 1)]
        cases carried : s.ref? <;> simp [Item.refs, Scalar.refs, carried]
  exact values _ ss

theorem fits_initialLocals {Γ : Shapes} {ss : List (Scalar ObjId)}
    (refs : ∀ r ∈ Scalar.refs ss, Γ.IsReferent r) : Scope.Fits Γ (initialLocals ss) := by
  intro p mem
  obtain ⟨i, bound, rfl⟩ := List.mem_mapIdx.mp mem
  exact fun r carried => refs r (List.mem_filterMap.mpr ⟨_, List.getElem_mem bound, carried⟩)

theorem distinct_initialLocals (ss : List (Scalar ObjId)) : Scope.Distinct (initialLocals ss) := by
  unfold Scope.Distinct initialLocals
  refine List.pairwise_iff_getElem.mpr fun i j hi hj less same => ?_
  simp only [List.getElem_map, List.getElem_mapIdx, String.append_right_inj] at same
  exact absurd (Nat.repr_injective same) (Nat.ne_of_lt less)

end Activation

end HostEmbedding
