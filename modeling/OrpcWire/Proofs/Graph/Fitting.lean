import OrpcWire.Error
import OrpcWire.Proofs.Graph.Serve

/-!
# Graphs that fit

A writer looks at the root of a graph and at the referents of the pointers it reaches from there
(`Graph.Reaches`), each by the target that it reaches it with. A graph is written exactly if all of
these fit: the root its shape, and each referent the target, which takes a slot that exists
(`Graph.encode_iff_fits`). So a slot that is reached with two targets has to fit both, and slots
that are not reached may hold anything.

A graph that does not fit is refused as such. There is one other reason to refuse a graph, an array
too long to be counted, and it is left out by assumption here.
-/

namespace OrpcWire

variable {α : Type}

/-- Failing is up to something that does not fit. -/
def FailsUnfit (unfit : Prop) (result : Except WireError α) : Prop :=
  FailsWith (fun error => unfit ∧ ∃ cause, error = .mismatch cause) result

theorem FailsUnfit.imp {unfit unfit' : Prop} {result : Except WireError α}
    (h : FailsUnfit unfit result) (himp : unfit → unfit') : FailsUnfit unfit' result :=
  FailsWith.imp h fun _ => And.imp_left himp

namespace Shape

variable {shape : Shape} {members : List Shape} {values : List Value}

/-! ### One value -/

theorem countField_eq_ok {count : Nat} (h : count ≤ UInt32.size - 1) :
    countField count = .ok (.field (.u32 (.ofNat count))) :=
  if_pos (Nat.lt_of_le_sub_one (by decide) h)

theorem length_of_membersFit (h : membersFit members values = true) :
    members.length = values.length := by
  induction members generalizing values with
  | nil =>
    cases values with
    | nil => rfl
    | cons value values => cases h
  | cons member members ih =>
    cases values with
    | nil => cases h
    | cons value values =>
      rw [membersFit, Bool.and_eq_true] at h
      rw [List.length_cons, List.length_cons, ih h.2]

theorem exists_last_of_membersFit (h : membersFit members values = true)
    (hconformant : isConformant members = true) :
    ∃ elements, values.getLast? = some (.array elements) := by
  induction members generalizing values with
  | nil => cases hconformant
  | cons member members ih =>
    cases values with
    | nil => cases h
    | cons value values =>
      rw [membersFit, Bool.and_eq_true] at h
      by_cases hspecial : members = [] ∧ ∃ element, member = .array element
      · obtain ⟨rfl, element, rfl⟩ := hspecial
        cases values with
        | nil =>
          cases value with
          | array elements => exact ⟨elements, rfl⟩
          | _ => cases h.1
        | cons second values => cases h.2
      · have hmember : members = [] → ∀ element, member ≠ .array element :=
          fun hnil element helement => hspecial ⟨hnil, element, helement⟩
        rw [isConformant_cons hmember] at hconformant
        obtain ⟨elements, hlast⟩ := ih h.2 hconformant
        refine ⟨elements, ?_⟩
        rw [List.getLast?_cons, hlast]
        rfl

theorem hoistedCount_fails_unfit (hwithin : Value.allWithin (UInt32.size - 1) values = true) :
    FailsUnfit (membersFit members values = false) (hoistedCount members values) := by
  unfold hoistedCount
  by_cases hconformant : isConformant members = true
  · rw [if_pos hconformant]
    split
    · rename_i elements hlast
      have hlength := Value.allWithin_iff.1 hwithin _ (List.mem_of_getLast? hlast)
      rw [Value.arraysWithin, Bool.and_eq_true, decide_eq_true_eq] at hlength
      rw [countField_eq_ok hlength.1]
      exact .ok _
    · rename_i hlast
      refine .error ⟨?_, _, rfl⟩
      rw [← Bool.not_eq_true]
      intro hfits
      obtain ⟨elements, heq⟩ := exists_last_of_membersFit hfits hconformant
      exact hlast elements heq
  · rw [if_neg hconformant]
    exact .ok _

theorem elements_fail_unfit {element : Shape}
    (hwithin : Value.allWithin (UInt32.size - 1) values = true)
    (helement : ∀ value, value.arraysWithin (UInt32.size - 1) = true →
      FailsUnfit (element.fits value = false) (element.pieces value)) :
    FailsUnfit (values.all element.fits = false) (values.mapM element.pieces) := by
  refine .mapM fun value hmem => ?_
  refine (helement value (Value.allWithin_iff.1 hwithin value hmem)).imp fun hunfit => ?_
  exact List.all_eq_false.2 ⟨value, hmem, by rw [hunfit]; exact Bool.false_ne_true⟩

mutual

theorem pieces_fails_unfit : (shape : Shape) → (value : Value) →
    value.arraysWithin (UInt32.size - 1) = true →
    FailsUnfit (shape.fits value = false) (shape.pieces value)
  | .u8, value, _ | .u16, value, _ | .u32, value, _ | .u64, value, _ | .guid, value, _ => by
    cases value <;> first | exact .ok _ | exact .error ⟨rfl, _, rfl⟩
  | .pointer target, value, _ => by
    cases value with
    | pointer slot => cases slot <;> exact .ok _
    | _ => exact .error ⟨rfl, _, rfl⟩
  | .array element, value, hwithin => by
    cases value with
    | array values =>
      rw [Value.arraysWithin, Bool.and_eq_true, decide_eq_true_eq] at hwithin
      rw [pieces, countField_eq_ok hwithin.1, fits]
      refine .bind (.ok _) fun count _ => ?_
      exact .bind (elements_fail_unfit hwithin.2 (pieces_fails_unfit element)) fun groups _ => .ok _
    | _ => exact .error ⟨rfl, _, rfl⟩
  | .struct members, value, hwithin => by
    cases value with
    | struct values =>
      rw [pieces, fits]
      split
      · refine .bind (hoistedCount_fails_unfit hwithin) fun count _ => ?_
        exact .bind (memberPieces_fails_unfit members values hwithin) fun content _ => .ok _
      · rename_i hlength
        refine .error ⟨?_, _, rfl⟩
        rw [← Bool.not_eq_true]
        exact fun hfits => hlength (length_of_membersFit hfits)
    | _ => exact .error ⟨rfl, _, rfl⟩

theorem memberPieces_fails_unfit : (members : List Shape) → (values : List Value) →
    Value.allWithin (UInt32.size - 1) values = true →
    FailsUnfit (membersFit members values = false) (memberPieces members values)
  | [], values, _ => by cases values <;> exact .ok _
  | member :: members, [], _ => by
    have hpieces : memberPieces (member :: members) [] = .ok [] := by simp [memberPieces]
    rw [hpieces]
    exact .ok _
  | member :: members, value :: values, hwithin => by
    rw [Value.allWithin, Bool.and_eq_true] at hwithin
    -- A last array is written without its count. Everywhere else a member is written as any value.
    by_cases hspecial : ∃ element elements,
        member = .array element ∧ members = [] ∧ value = .array elements ∧ values = []
    · obtain ⟨element, elements, rfl, rfl, rfl, rfl⟩ := hspecial
      rw [Value.arraysWithin, Bool.and_eq_true] at hwithin
      rw [memberPieces]
      have helements := elements_fail_unfit hwithin.1.2 (pieces_fails_unfit element)
      refine .bind (helements.imp fun hunfit => ?_) fun groups _ => .ok _
      rw [membersFit, fits, hunfit]
      rfl
    · have hpieces : memberPieces (member :: members) (value :: values) = do
          let first ← member.pieces value
          let others ← memberPieces members values
          return first ++ others := by
        rw [memberPieces]
        intro element elements helement hnil hvalue hvalues
        exact hspecial ⟨element, elements, helement, hnil, hvalue, hvalues⟩
      rw [hpieces, membersFit]
      refine .bind ((pieces_fails_unfit member value hwithin.1).imp fun hunfit => ?_)
        fun first _ => ?_
      · rw [hunfit, Bool.false_and]
      · refine .bind ((memberPieces_fails_unfit members values hwithin.2).imp fun hunfit => ?_)
          fun others _ => .ok _
        rw [hunfit, Bool.and_false]

end

end Shape

namespace Graph

variable {graph graph' : Graph} {shape : Shape} {queue : List Reference}

/-! ### What a writer reaches -/

variable (graph shape) in
/-- The pointers that a writer comes by: those in the root, and those in the referents of the
pointers it comes by. -/
inductive Reaches : Reference → Prop
  | root {ref : Reference} : ref ∈ shape.pointers graph.root → Reaches ref
  | step {ref later : Reference} {value : Value} :
      Reaches ref → graph.value? ref.slot = some value →
      later ∈ ref.target.pointers value → Reaches later

/-- The pointer leads to a value of its target. -/
def Leads (graph : Graph) (ref : Reference) : Prop :=
  ∃ value, graph.value? ref.slot = some value ∧ ref.target.fits value = true

theorem mem_of_reaches {ref : Reference} {written : List Piece} {served : List Served}
    (hwritten : shape.pieces graph.root = .ok written)
    (hserves : Serves graph (Piece.references written) served) (h : graph.Reaches shape ref) :
    ref ∈ served.map (·.ref) := by
  induction h with
  | root hmem =>
    rw [hserves.refs_eq, Shape.references_eq_pointers hwritten]
    exact List.mem_append_left _ hmem
  | step _ hvalue hmem ih =>
    obtain ⟨one, hone, rfl⟩ := List.mem_map.1 ih
    cases hvalue.symm.trans (hserves.value?_eq one hone)
    rw [← Shape.references_eq_pointers (hserves.pieces_eq one hone)] at hmem
    rw [hserves.refs_eq]
    exact List.mem_append_right _ (Served.mem_references_pieces hone hmem)

theorem reaches_of_referentPieces {ref : Reference} {written : List Piece}
    (hqueue : ∀ one ∈ ref :: queue, graph.Reaches shape one)
    (h : graph.referentPieces ref = .ok written) :
    ∀ one ∈ queue ++ Piece.references written, graph.Reaches shape one := by
  obtain ⟨href, hqueue⟩ := List.forall_mem_cons.1 hqueue
  refine List.forall_mem_append.2 ⟨hqueue, fun later hlater => ?_⟩
  rw [referentPieces] at h
  split at h
  · rename_i value hvalue
    rw [Shape.references_eq_pointers h] at hlater
    exact .step href hvalue hlater
  · cases h

/-! ### Refusals -/

/-- Every array in a slot can be counted. -/
def CountableSlots (graph : Graph) : Prop :=
  ∀ slot value, graph.value? slot = some value → value.arraysWithin (UInt32.size - 1) = true

theorem referentPieces_fails_unfit (harrays : graph.CountableSlots) (ref : Reference) :
    FailsUnfit (¬graph.Leads ref) (graph.referentPieces ref) := by
  rw [referentPieces]
  split
  · rename_i value hvalue
    refine (Shape.pieces_fails_unfit ref.target value (harrays _ _ hvalue)).imp fun hunfit => ?_
    rintro ⟨value', hvalue', hfits⟩
    cases hvalue.symm.trans hvalue'
    rw [hunfit] at hfits
    cases hfits
  · rename_i hnone
    refine .error ⟨?_, _, rfl⟩
    rintro ⟨value, hvalue, _⟩
    rw [hnone] at hvalue
    cases hvalue

/-- A queue of pointers that are reached is refused only if one that is reached leads nowhere or to
a value that does not fit. -/
theorem drain_fails_unfit (harrays : graph.CountableSlots)
    (hqueue : ∀ ref ∈ queue, graph.Reaches shape ref) :
    FailsUnfit (∃ ref, graph.Reaches shape ref ∧ ¬graph.Leads ref) (graph.drain queue) := by
  induction queue using graph.drain_induction with
  | nil =>
    rw [drain]
    exact .ok _
  | cons ref queue ih =>
    rw [graph.drain_cons_bind]
    refine .bind ((referentPieces_fails_unfit harrays ref).imp fun hunfit => ?_)
      fun written hwritten => ?_
    · exact ⟨ref, hqueue ref List.mem_cons_self, hunfit⟩
    · exact (ih written hwritten (reaches_of_referentPieces hqueue hwritten)).map _

theorem drain_congr (hvalues : ∀ ref, graph.Reaches shape ref →
    graph'.value? ref.slot = graph.value? ref.slot) (hqueue :
    ∀ ref ∈ queue, graph.Reaches shape ref) : graph'.drain queue = graph.drain queue := by
  induction queue using graph.drain_induction with
  | nil => rw [drain, drain]
  | cons ref queue ih =>
    have hfirst : graph'.referentPieces ref = graph.referentPieces ref := by
      rw [referentPieces, referentPieces, hvalues ref (hqueue ref List.mem_cons_self)]
    rw [drain_cons_bind, drain_cons_bind, hfirst]
    cases hwritten : graph.referentPieces ref with
    | error error => rfl
    | ok written =>
      exact congrArg (Except.map (written ++ ·))
        (ih written hwritten (reaches_of_referentPieces hqueue hwritten))

/-! ### The whole graph -/

theorem encode_fails_unfit (shape : Shape) (ids : IdSupply)
    (hroot : graph.root.arraysWithin (UInt32.size - 1) = true) (harrays : graph.CountableSlots) :
    FailsUnfit (¬(shape.fits graph.root = true ∧ ∀ ref, graph.Reaches shape ref → graph.Leads ref))
      (graph.encode shape ids) := by
  have hpieces := Shape.pieces_fails_unfit shape graph.root hroot
  refine .map (.bind (hpieces.imp fun hunfit => ?_) fun written hwritten => ?_) _
  · rw [hunfit]
    rintro ⟨⟨⟩, _⟩
  · have hreached : ∀ ref ∈ Piece.references written, graph.Reaches shape ref := by
      rw [Shape.references_eq_pointers hwritten]
      exact fun ref => .root
    refine .bind ((drain_fails_unfit harrays hreached).imp ?_) fun later _ => .ok _
    rintro ⟨ref, hreach, hunfit⟩ ⟨_, hall⟩
    exact hunfit (hall ref hreach)

/-- A graph without arrays too long to be counted is written exactly if its root fits the shape and
every pointer reached from there leads to a slot that exists and fits the target. Otherwise it is
refused as a mismatch, the caller's fault. Slots that are not reached make no difference. -/
theorem encode_iff_fits (graph : Graph) (shape : Shape) (ids : IdSupply)
    (hroot : graph.root.arraysWithin (UInt32.size - 1) = true)
    (hreferents : ∀ referent ∈ graph.referents,
      referent.value.arraysWithin (UInt32.size - 1) = true) :
    ((∃ encoded, graph.encode shape ids = .ok encoded) ↔
      shape.fits graph.root = true ∧ ∀ ref, graph.Reaches shape ref →
        ∃ value, graph.value? ref.slot = some value ∧ ref.target.fits value = true) ∧
    (∀ error, graph.encode shape ids = .error error →
      (∃ cause, error = .mismatch cause) ∧ error.isCallerFault = true) ∧
    ∀ graph' : Graph, graph'.root = graph.root →
      (∀ ref, graph.Reaches shape ref → graph'.value? ref.slot = graph.value? ref.slot) →
      graph'.encode shape ids = graph.encode shape ids := by
  have harrays : graph.CountableSlots := by
    intro slot value hvalue
    obtain ⟨referent, hreferent, rfl⟩ := Option.map_eq_some_iff.1 hvalue
    exact hreferents referent (List.mem_of_getElem? hreferent)
  have hfails := encode_fails_unfit shape ids hroot harrays
  refine ⟨⟨?_, fun hfits => ?_⟩, fun error herror => ?_, fun graph' hsame hvalues => ?_⟩
  · rintro ⟨encoded, hencode⟩
    obtain ⟨written, served, hwritten, hserves, _⟩ := serves_of_encode hencode
    refine ⟨Shape.fits_of_pieces hwritten, fun ref hreach => ?_⟩
    obtain ⟨one, hone, rfl⟩ := List.mem_map.1 (mem_of_reaches hwritten hserves hreach)
    exact ⟨one.value, hserves.value?_eq one hone, Shape.fits_of_pieces (hserves.pieces_eq one hone)⟩
  · cases hencode : graph.encode shape ids with
    | ok encoded => exact ⟨encoded, rfl⟩
    | error error => exact absurd hfits (hfails error hencode).1
  · obtain ⟨_, cause, rfl⟩ := hfails error herror
    exact ⟨⟨cause, rfl⟩, rfl⟩
  · rw [encode, encode, pieces, pieces, hsame]
    cases hwritten : shape.pieces graph.root with
    | error error => rfl
    | ok written =>
      have hreached : ∀ ref ∈ Piece.references written, graph.Reaches shape ref := by
        rw [Shape.references_eq_pointers hwritten]
        exact fun ref => .root
      show ((graph'.drain (Piece.references written) >>= fun later =>
        .ok (written ++ later)).map _) = _
      rw [drain_congr hvalues hreached]
      rfl

/-- One slot under two pointers, next to a slot that nothing points at and that itself points
nowhere. -/
theorem encode_iff_fits_shared :
    let graph : Graph :=
      ofValues (.struct [.pointer (some 0), .pointer (some 0)]) [.u16 7, .pointer (some 9)]
    (∃ encoded, graph.encode (.struct [.pointer .u16, .pointer .u16]) .fresh = .ok encoded) ∧
      ∃ cause, graph.encode (.struct [.pointer .u16, .pointer .u32]) .fresh =
        .error (.mismatch cause) := by
  intro graph
  have hreferents : ∀ referent ∈ graph.referents,
      referent.value.arraysWithin (UInt32.size - 1) = true := by
    simp [graph, ofValues, Value.arraysWithin]
  have hroot : graph.root.arraysWithin (UInt32.size - 1) = true := by
    simp [graph, ofValues, Value.arraysWithin, Value.allWithin]
  constructor
  · refine (encode_iff_fits graph _ .fresh hroot hreferents).1.2 ⟨rfl, fun ref hreach => ?_⟩
    have href : ref = ⟨0, .u16⟩ := by
      induction hreach with
      | root hmem => simpa [graph, ofValues, Shape.pointers, Shape.memberPointers] using hmem
      | step _ hvalue hmem ih =>
        subst ih
        cases hvalue
        cases hmem
    exact ⟨.u16 7, by rw [href]; rfl, by rw [href]; rfl⟩
  · have hfits :=
      encode_iff_fits graph (.struct [.pointer .u16, .pointer .u32]) .fresh hroot hreferents
    cases hencode : graph.encode (.struct [.pointer .u16, .pointer .u32]) .fresh with
    | error error =>
      obtain ⟨⟨cause, rfl⟩, _⟩ := hfits.2.1 error hencode
      exact ⟨cause, rfl⟩
    | ok encoded =>
      have hreach : graph.Reaches (.struct [.pointer .u16, .pointer .u32]) ⟨0, .u32⟩ :=
        .root (by simp [graph, ofValues, Shape.pointers, Shape.memberPointers])
      obtain ⟨value, hvalue, hfit⟩ := (hfits.1.1 ⟨encoded, hencode⟩).2 _ hreach
      cases hvalue
      cases hfit

end Graph

end OrpcWire
