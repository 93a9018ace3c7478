import OrpcWire.Graph.Announcement

/-!
# Reading graphs

The root of a graph is read in place, then the referents in the order of their announcements; the
announcements found inside a referent go to the end of the queue (`readReferents`). The queue runs
dry because every announcement uses up octets.
-/

namespace OrpcWire

/-- Reads the referents of a queue in order, behind `taken` slots; the announcements found in them
go to its end. -/
def readReferents (limit : Option Nat) (order : ByteOrder) (queue : List Announcement) (taken : Nat)
    (cursor : Cursor) : Except WireError (List Referent × Cursor) :=
  match queue with
  | [] => .ok ([], cursor)
  | announcement :: queue =>
    match _h : (announcement.target.read limit taken).run order cursor with
    | .error error => .error error
    | .ok (found, next) =>
      (readReferents limit order (queue ++ found.announced)
        (taken + found.announced.length) next).map
        fun (referents, last) => (⟨announcement.id, found.value⟩ :: referents, last)
termination_by cursor.rest.length + queue.length
decreasing_by
  have := Shape.read_pays limit _ taken order cursor found next _h
  simp only [List.length_append, List.length_cons]
  omega

/-- Reads a graph by a shape: the root, then the referents announced in it. Beyond `limit` slots, if
given, it fails. -/
def Graph.read (limit : Option Nat) (shape : Shape) : Reader WireError Graph where
  run order cursor := do
    let (found, cursor) ← (shape.read limit 0).run order cursor
    let (referents, cursor) ←
      readReferents limit order found.announced found.announced.length cursor
    return (⟨found.value, referents⟩, cursor)

end OrpcWire
