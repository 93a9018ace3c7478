import OrpcWire.Graph.Piece

/-!
# The queue of referents

The root of a graph is written in place. Each pointer in it leaves a reference behind, and the
referents follow in the order of their references; the references that a referent leaves behind go
to the end of the queue (`Graph.drain`).

The queue runs dry on every graph, a circular one included: each entry is replaced by few entries of
smaller pointer depth, so `Graph.queueWeight` goes down.
-/

namespace OrpcWire

namespace Graph

/-- The pieces of the referent that a reference stands for. -/
def referentPieces (graph : Graph) (ref : Reference) : Except WireError (List Piece) :=
  match graph.value? ref.slot with
  | some value => ref.target.pieces value
  | none => .error (.mismatch (.danglingPointer ref.slot))

/-- At least as many pointers as any one referent has. -/
def pointerBound (graph : Graph) : Nat :=
  (graph.referents.map fun referent => referent.value.pointerCount).foldr max 0

/-- The weight of a reference with a target of the given pointer depth, more than that of all the
references it may be replaced by. -/
def weightAt (graph : Graph) : Nat → Nat
  | 0 => 1
  | depth + 1 => (graph.pointerBound + 1) * graph.weightAt depth

/-- A measure of a queue of references that goes down when one of them is replaced by the references
its referent leaves. -/
def queueWeight (graph : Graph) (queue : List Reference) : Nat :=
  queue.foldr (fun ref weight => graph.weightAt ref.target.pointerDepth + weight) 0

theorem pointerCount_le_pointerBound {graph : Graph} {slot : Nat} {value : Value}
    (h : graph.value? slot = some value) : value.pointerCount ≤ graph.pointerBound := by
  simp only [value?, Option.map_eq_some_iff] at h
  obtain ⟨referent, hreferent, rfl⟩ := h
  have hmem := List.mem_of_getElem? hreferent
  unfold pointerBound
  generalize graph.referents = referents at hmem
  induction referents with
  | nil => cases hmem
  | cons first others ih =>
    simp only [List.map_cons, List.foldr_cons]
    rcases List.mem_cons.1 hmem with rfl | hmem
    · omega
    · have := ih hmem
      omega

theorem weightAt_pos (graph : Graph) (depth : Nat) : 0 < graph.weightAt depth := by
  induction depth with
  | zero => exact Nat.one_pos
  | succ depth ih => exact Nat.mul_pos (Nat.succ_pos _) ih

theorem weightAt_mono (graph : Graph) {depth depth' : Nat} (h : depth ≤ depth') :
    graph.weightAt depth ≤ graph.weightAt depth' := by
  induction h with
  | refl => exact Nat.le_refl _
  | step _ ih => exact Nat.le_trans ih (Nat.le_mul_of_pos_left _ (Nat.succ_pos _))

@[simp] theorem queueWeight_cons (graph : Graph) (ref : Reference) (queue : List Reference) :
    graph.queueWeight (ref :: queue) =
      graph.weightAt ref.target.pointerDepth + graph.queueWeight queue := rfl

@[simp] theorem queueWeight_append (graph : Graph) (first second : List Reference) :
    graph.queueWeight (first ++ second) = graph.queueWeight first + graph.queueWeight second := by
  induction first with
  | nil => exact (Nat.zero_add _).symm
  | cons ref first ih =>
    rw [List.cons_append, queueWeight_cons, queueWeight_cons, ih, Nat.add_assoc]

theorem queueWeight_lt (graph : Graph) {depth : Nat} {queue : List Reference}
    (hlength : queue.length ≤ graph.pointerBound)
    (hdepth : ∀ ref ∈ queue, ref.target.pointerDepth < depth) :
    graph.queueWeight queue < graph.weightAt depth := by
  cases depth with
  | zero =>
    have : queue = [] := List.eq_nil_iff_forall_not_mem.2 fun ref href => by
      have := hdepth ref href
      omega
    subst this
    exact graph.weightAt_pos 0
  | succ depth =>
    have hle : graph.queueWeight queue ≤ queue.length * graph.weightAt depth := by
      clear hlength
      induction queue with
      | nil => exact Nat.zero_le _
      | cons ref queue ih =>
        have h1 := ih fun ref href => hdepth ref (List.mem_cons_of_mem _ href)
        have h2 : graph.weightAt ref.target.pointerDepth ≤ graph.weightAt depth :=
          graph.weightAt_mono (Nat.le_of_lt_succ (hdepth ref List.mem_cons_self))
        rw [queueWeight_cons, List.length_cons, Nat.succ_mul]
        omega
    have hpos : 0 < graph.weightAt depth := graph.weightAt_pos depth
    calc graph.queueWeight queue ≤ queue.length * graph.weightAt depth := hle
      _ ≤ graph.pointerBound * graph.weightAt depth := Nat.mul_le_mul_right _ hlength
      _ < graph.weightAt (depth + 1) := by
        rw [weightAt, Nat.succ_mul]
        omega

theorem queueWeight_references_lt {graph : Graph} {ref : Reference} {written : List Piece}
    (h : graph.referentPieces ref = .ok written) :
    graph.queueWeight (Piece.references written) < graph.weightAt ref.target.pointerDepth := by
  unfold referentPieces at h
  split at h
  · rename_i value hvalue
    exact graph.queueWeight_lt
      (Nat.le_trans (Shape.pieces_count _ _ _ h) (pointerCount_le_pointerBound hvalue))
      (Shape.pieces_depth _ _ _ h)
  · cases h

/-- Writes the referents of a queue in order; the references they leave go to its end. -/
def drain (graph : Graph) (queue : List Reference) : Except WireError (List Piece) :=
  match queue with
  | [] => .ok []
  | ref :: queue =>
    match _h : graph.referentPieces ref with
    | .error error => .error error
    | .ok written => (graph.drain (queue ++ Piece.references written)).map (written ++ ·)
termination_by graph.queueWeight queue
decreasing_by
  have := queueWeight_references_lt _h
  simp only [queueWeight_append, queueWeight_cons]
  omega

/-- All pieces of a graph: the root, then the referents of the pointers in it. -/
def pieces (graph : Graph) (shape : Shape) : Except WireError (List Piece) := do
  let root ← shape.pieces graph.root
  let later ← graph.drain (Piece.references root)
  return root ++ later

end Graph

end OrpcWire
