import HostEmbedding.Proofs.Native.Transitions
import HostEmbedding.Proofs.TypedCalls

/-!
# Encoding and decoding of typed lists

A list of scalar types encodes scalars of its types as values, and decodes the values at the front of a
list. The two are inverse to each other. Values that are not of the kinds of the list are refused with a
panic about the first position that fails, which the values do not reach or which holds another kind.
-/

namespace HostEmbedding

/-! ## Where decoding fails -/

/-- The first position at which values are not of declared kinds, with the panic that tells of it: the
values end before the position, or they hold another kind there. -/
inductive DecodingFault (declared : List Kind) (vals : List (Val ObjId)) : Nat → Fault → Prop
  | pastEnd (short : vals.length < declared.length)
      (before : vals.map Val.kind = declared.take vals.length) :
      DecodingFault declared vals vals.length .tooFewValues
  | other {i : Nat} {expected found : Kind} (first : FirstMismatch declared vals i expected found) :
      DecodingFault declared vals i (.unexpectedKind expected found)

namespace DecodingFault

variable {declared : List Kind} {vals : List (Val ObjId)} {i j : Nat} {f g : Fault}

/-- After a value of the declared kind the positions that follow decide. -/
theorem behind {k : Kind} {v : Val ObjId} (here : v.kind = k) (fault : DecodingFault declared vals i f) :
    DecodingFault (k :: declared) (v :: vals) (i + 1) f := by
  cases fault with
  | pastEnd short before =>
      show DecodingFault (k :: declared) (v :: vals) (v :: vals).length .tooFewValues
      exact .pastEnd (Nat.succ_lt_succ short) (by simp [here, before])
  | other first =>
      exact .other ⟨first.declares, first.holds, first.differ, by simp [here, first.before]⟩

/-- Values with a fault are not of the declared kinds. -/
theorem misfits (fault : DecodingFault declared vals i f) :
    (vals.take declared.length).map Val.kind ≠ declared := by
  intro fits
  cases fault with
  | pastEnd short =>
      have lengths := congrArg List.length fits
      rw [List.length_map, List.length_take] at lengths
      omega
  | other first =>
      have bound : i < declared.length := (List.getElem?_eq_some_iff.mp first.declares).1
      exact first.disagrees bound (by rw [← List.map_take, fits, List.take_length])

/-- Values that hold the declared kinds up to their end have no mismatch. -/
theorem no_mismatch {expected found : Kind} (before : vals.map Val.kind = declared.take vals.length) :
    ¬ FirstMismatch declared vals i expected found := by
  intro first
  have bound : i < (vals.map Val.kind).length := (List.getElem?_eq_some_iff.mp first.holds).1
  exact first.disagrees bound (by rw [List.take_length, List.length_map, before])

/-- There is only one first position that fails, and one panic that tells of it. -/
theorem unique (fault : DecodingFault declared vals i f) (fault' : DecodingFault declared vals j g) :
    i = j ∧ f = g := by
  cases fault with
  | pastEnd short before =>
      cases fault' with
      | pastEnd => exact ⟨rfl, rfl⟩
      | other first => exact absurd first (no_mismatch before)
  | other first =>
      cases fault' with
      | pastEnd short before => exact absurd first (no_mismatch before)
      | other first' =>
          obtain ⟨rfl, rfl, rfl⟩ := first.unique first'
          exact ⟨rfl, rfl⟩

end DecodingFault

/-! ## Both directions -/

namespace TypeList

variable {ts : List ScalarType} {vals : List (Val ObjId)} {ss : List (Scalar ObjId)} {f : Fault}

/-- Scalars come back from the values that they are encoded as, whatever follows these. -/
theorem decodeTuple_encode (ss : List (Scalar ObjId)) (rest : List (Val ObjId)) :
    decodeTuple (ss.map Scalar.type) (encode ss ++ rest) = .ok ss := by
  induction ss with
  | nil => rfl
  | cons s ss ih =>
      have others : decodeTuple (ss.map Scalar.type) (ss.map Scalar.toVal ++ rest) = .ok ss := ih
      simp [encode, decodeTuple, others]

/-- What is decoded encodes back to the values at the front. -/
theorem encode_of_decodeTuple (decoded : decodeTuple ts vals = .ok ss) :
    encode ss = vals.take ts.length := by
  fun_induction decodeTuple ts vals generalizing ss with
  | case1 => cases decoded; rfl
  | case2 => cases decoded
  | case3 => cases decoded
  | case4 => cases decoded
  | case5 t ts v vs s one rest more ih =>
      cases decoded
      rw [encode, List.map_cons, Scalar.toVal_of_decode? one, List.length_cons, List.take_succ_cons, ← ih more,
        encode]

/-- A refusal is about the first position that fails. -/
theorem fault_of_decodeTuple (refused : decodeTuple ts vals = .error f) :
    ∃ i, DecodingFault (ts.map ScalarType.kind) vals i f := by
  fun_induction decodeTuple ts vals with
  | case1 => cases refused
  | case2 t ts =>
      cases refused
      exact ⟨0, .pastEnd (Nat.succ_pos _) rfl⟩
  | case3 t ts v vs unread =>
      cases refused
      have differ : v.kind ≠ t.kind := by
        intro same
        have reads := (Scalar.decode?_isSome t v).mpr same
        rw [unread] at reads
        cases reads
      exact ⟨0, .other ⟨rfl, rfl, differ, rfl⟩⟩
  | case4 t ts v vs s one g later ih =>
      cases refused
      obtain ⟨i, fault⟩ := ih later
      exact ⟨i + 1, fault.behind ((Scalar.decode?_isSome t v).mp (by rw [one]; rfl))⟩
  | case5 => cases refused

variable (l : TypeList)

theorem length_kinds : l.kinds.length = l.types.length := by
  rw [kinds_eq, List.length_map]

/-- Decoding gives the scalars of the types of the list that encode to the values at the front. -/
theorem decode_ok_iff :
    l.decode vals = .ok ss ↔ ss.map Scalar.type = l.types ∧ encode ss = vals.take l.types.length := by
  rw [decode_eq]
  constructor
  · intro decoded
    exact ⟨types_of_decodeTuple decoded, encode_of_decodeTuple decoded⟩
  · rintro ⟨types, front⟩
    have again := decodeTuple_encode ss (vals.drop l.types.length)
    rwa [types, front, List.take_append_drop] at again

/-- Values that are decoded begin with the kinds of the list. -/
theorem kinds_of_decode (decoded : l.decode vals = .ok ss) :
    (vals.take l.kinds.length).map Val.kind = l.kinds := by
  obtain ⟨types, front⟩ := l.decode_ok_iff.mp decoded
  rw [length_kinds, ← front, l.kinds_encode types]

/-- Decoding fails with the panic about the first position that fails. -/
theorem decode_error_iff : l.decode vals = .error f ↔ ∃ i, DecodingFault l.kinds vals i f := by
  have about {g : Fault} (refused : l.decode vals = .error g) : ∃ i, DecodingFault l.kinds vals i g := by
    rw [decode_eq] at refused
    rw [kinds_eq]
    exact fault_of_decodeTuple refused
  refine ⟨about, ?_⟩
  rintro ⟨i, fault⟩
  -- Decoding has an end, and it is neither a success nor about another position.
  cases decoded : l.decode vals with
  | ok ss => exact absurd (l.kinds_of_decode decoded) fault.misfits
  | error g =>
      obtain ⟨j, fault'⟩ := about decoded
      rw [(fault.unique fault').2]

/-- Decoding succeeds exactly for values that begin with the kinds of the list. -/
theorem decode_succeeds_iff :
    (∃ ss, l.decode vals = .ok ss) ↔ (vals.take l.types.length).map Val.kind = l.kinds := by
  rw [← length_kinds]
  constructor
  · rintro ⟨ss, decoded⟩
    exact l.kinds_of_decode decoded
  · intro fits
    cases decoded : l.decode vals with
    | ok ss => exact ⟨ss, rfl⟩
    | error f =>
        obtain ⟨i, fault⟩ := l.decode_error_iff.mp decoded
        exact absurd fits fault.misfits

variable {l} {l' : TypeList} (same : l'.kinds = l.kinds)
include same

/-- Lists of the same kinds refuse the same values, with the same panics. -/
theorem decode_error_congr : l'.decode vals = .error f ↔ l.decode vals = .error f := by
  rw [decode_error_iff, decode_error_iff, same]

/-- Lists of the same kinds decode values to scalars that encode back to the same values. -/
theorem decode_ok_congr (decoded : l.decode vals = .ok ss) :
    ∃ ss', l'.decode vals = .ok ss' ∧ encode ss' = encode ss := by
  have count : l'.types.length = l.types.length := by
    rw [← length_kinds, ← length_kinds, same]
  obtain ⟨ss', decoded'⟩ : ∃ ss', l'.decode vals = .ok ss' := by
    rw [decode_succeeds_iff, same, count]
    exact l.decode_succeeds_iff.mp ⟨ss, decoded⟩
  refine ⟨ss', decoded', ?_⟩
  rw [(l.decode_ok_iff.mp decoded).2, (l'.decode_ok_iff.mp decoded').2, count]

end TypeList

/-! ## The laws of a list -/

/-- A list of scalar types encodes and decodes, each undoing the other. -/
structure TypeList.Codec (l : TypeList) : Prop where
  /-- The kinds of the list are those of its types, in order. -/
  kinds : l.kinds = l.types.map ScalarType.kind
  /-- Scalars of the types are encoded as values of the kinds. -/
  encodes : ∀ ss : List (Scalar ObjId), ss.map Scalar.type = l.types → (encode ss).map Val.kind = l.kinds
  /-- They come back from these values. -/
  returns : ∀ ss : List (Scalar ObjId), ss.map Scalar.type = l.types → l.decode (encode ss) = .ok ss
  /-- Decoding succeeds exactly for values that begin with the kinds of the list. -/
  succeeds : ∀ vals : List (Val ObjId),
    (∃ ss, l.decode vals = .ok ss) ↔ (vals.take l.types.length).map Val.kind = l.kinds
  /-- What is decoded is of the types, and encodes back to the values at the front. -/
  decodes : ∀ (vals : List (Val ObjId)) ss, l.decode vals = .ok ss ↔
    ss.map Scalar.type = l.types ∧ encode ss = vals.take l.types.length
  /-- All other values are refused for the first position that fails. -/
  refuses : ∀ (vals : List (Val ObjId)) f, l.decode vals = .error f ↔ ∃ i, DecodingFault l.kinds vals i f
  /-- A list of the same kinds refuses the same values in the same way, and decodes the others to scalars
  of the same bits, which encode back to the same values. -/
  alike : ∀ l' : TypeList, l'.kinds = l.kinds → ∀ vals : List (Val ObjId),
    (∀ f, l'.decode vals = .error f ↔ l.decode vals = .error f) ∧
    ∀ ss, l.decode vals = .ok ss → ∃ ss', l'.decode vals = .ok ss' ∧ encode ss' = encode ss ∧
      List.Forall₂ Scalar.Reinterprets ss ss'

theorem TypeList.codec (l : TypeList) : l.Codec where
  kinds := l.kinds_eq
  encodes _ types := l.kinds_encode types
  returns ss types := by
    have back := decodeTuple_encode ss []
    rwa [List.append_nil, types, ← l.decode_eq] at back
  succeeds _ := l.decode_succeeds_iff
  decodes _ _ := l.decode_ok_iff
  refuses _ _ := l.decode_error_iff
  alike l' same vals := by
    refine ⟨fun f => decode_error_congr same, fun ss decoded => ?_⟩
    obtain ⟨ss', decoded', bits⟩ := decode_ok_congr same decoded
    exact ⟨ss', decoded', bits, Scalar.forall₂_reinterprets_iff.mpr bits.symm⟩

/-- One value is too few for a pair, but a wrong kind in front is found before that. -/
example : (TypeList.tuple [.i32, .u64]).decode [(.i32 1 : Val ObjId)] = .error .tooFewValues ∧
    (TypeList.tuple [.f32, .u64]).decode [(.i32 1 : Val ObjId)] = .error (.unexpectedKind .f32 .i32) :=
  ⟨rfl, rfl⟩

/-! ## Typed lists on a run -/

/-- One side of a typed signature. -/
def TypedSignature.list (sig : TypedSignature) : Side → TypeList
  | .params => sig.params
  | .results => sig.results

namespace Machine

variable {m : Machine} {g : Guard}

/-- A step that decodes values tells the scalars, or panics with the fault. -/
theorem AtStep.decodeValues {sig : TypedSignature} {side : Side} {os : List Operand}
    {ss : List (Scalar ObjId)} (begins : m.AtStep g (.plain (.decodeValues sig side os)))
    (values : m.operands? os = some ss) :
    m.step = match (sig.list side).decode (TypeList.encode ss) with
      | .ok ds => m.finish (.values (ds.map m.world.shown))
      | .error f => m.complete (.panicked f) := by
  rw [begins.step_eq]
  show m.withOperands os _ = _
  unfold withOperands
  rw [values]
  cases side <;> rfl

/-- Lists of scalar types encode and decode, and the steps of a run that decode values do it so. -/
structure TypedLists (run : Nat → Machine) : Prop where
  codec : ∀ l : TypeList, l.Codec
  /-- The text of the panic about a position that the values do not reach. -/
  pastEnd : Fault.tooFewValues.message = "wrong number of values for typed signature"
  /-- The text of the panic about a position that holds another kind. -/
  otherKind : ∀ expected found : Kind, (Fault.unexpectedKind expected found).message =
    "expected " ++ expected.name ++ ", found " ++ found.name
  /-- A single scalar is a tuple of one. -/
  single : ∀ t : ScalarType, (TypeList.single t).kinds = (TypeList.tuple [t]).kinds ∧
    (∀ s : Scalar ObjId, TypeList.encode [s] = [s.toVal]) ∧
    ∀ vals : List (Val ObjId), (TypeList.single t).decode vals = (TypeList.tuple [t]).decode vals
  /-- An unsigned integer is read off the bits of any signed one, and passed on as the same signed one. -/
  unsigned32 : ∀ v : Int32, ∃ b : UInt32, b.toBitVec = v.toBitVec ∧
    Scalar.decode? .u32 (.i32 v : Val ObjId) = some (.u32 b) ∧ (Scalar.u32 b : Scalar ObjId).toVal = .i32 v
  unsigned64 : ∀ v : Int64, ∃ b : UInt64, b.toBitVec = v.toBitVec ∧
    Scalar.decode? .u64 (.i64 v : Val ObjId) = some (.u64 b) ∧ (Scalar.u64 b : Scalar ObjId).toVal = .i64 v
  /-- A step that decodes values which fit tells the scalars that encode to those at the front. -/
  tells : ∀ k g sig side os ss ds, (run k).AtStep g (.plain (.decodeValues sig side os)) →
    (run k).operands? os = some ss → ds.map Scalar.type = (sig.list side).types →
    TypeList.encode ds = (TypeList.encode ss).take (sig.list side).types.length →
    run (k + 1) = (run k).finish (.values (ds.map (run k).world.shown))
  /-- A step that decodes other values panics about the first position that fails. -/
  panics : ∀ k g sig side os ss i f, (run k).AtStep g (.plain (.decodeValues sig side os)) →
    (run k).operands? os = some ss → DecodingFault (sig.list side).kinds (TypeList.encode ss) i f →
    run (k + 1) = (run k).complete (.panicked f)

/-- On every run of every script, lists of scalar types encode and decode inversely, and values that do not
fit are refused for the first position that fails. -/
theorem typedLists_after (level : Option LogLevel) (script : Block) : TypedLists (after level script) := by
  constructor
  case codec => exact TypeList.codec
  case pastEnd => rfl
  case otherKind => exact fun expected found => rfl
  case single => exact fun t => ⟨rfl, fun s => rfl, fun vals => rfl⟩
  case unsigned32 => exact fun v => ⟨v.toUInt32, rfl, rfl, rfl⟩
  case unsigned64 => exact fun v => ⟨v.toUInt64, rfl, rfl, rfl⟩
  case tells =>
      intro k g sig side os ss ds begins values types front
      rw [after_succ, begins.decodeValues values, (sig.list side).decode_ok_iff.mpr ⟨types, front⟩]
  case panics =>
      intro k g sig side os ss i f begins values fault
      rw [after_succ, begins.decodeValues values, (sig.list side).decode_error_iff.mpr ⟨i, fault⟩]

end Machine

end HostEmbedding
