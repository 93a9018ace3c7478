import Mathlib.Data.Multiset.DershowitzManna
import OrpcWire.Proofs.Graph.Constituents
import OrpcWire.Proofs.Graph.Drain

/-!
# Generations on a worklist

Writers and readers of graphs work off a list to whose end each entry adds others. Neither the
length of the list nor the graph, which may run in circles, says that this ends. What does is the
shapes: an entry added while one of shape `s` is worked off has a shape strictly in `s`, under a
pointer of it (`Shape.PointsTo`).

`Worklist` is such a list for any kind of entry, one `Step` at a time, and knows for each entry the
length of the chain of entries that it comes from, its generation. From the shapes alone it follows
that

* no run is endless, because one entry is replaced by others of smaller pointer depth, however many:
  the depths that are pending go down in the order of multisets (`Worklist.wellFounded_step`);
* generation and pointer depth of a pending entry are together at most the pointer depth of the root
  (`Worklist.generation_add_depth_le`).

The queue that a graph is written from and the queue that one is read from are both of this kind
(`Graph.worklists_runDry`).
-/

namespace OrpcWire

theorem Shape.pointsTo_of_read {limit : Option Nat} {shape : Shape} {taken : Nat}
    {order : ByteOrder} {cursor next : Cursor} {found : Found Value}
    (h : (shape.read limit taken).run order cursor = .ok (found, next)) :
    ∀ announcement ∈ found.announced, shape.PointsTo announcement.target := by
  obtain ⟨written, hwritten, account⟩ := read_accounts limit shape taken order cursor found next h
  exact account.forall_announced (pointsTo_of_pieces hwritten)

/-! ## worklists -/

/-- An entry that is still to be worked off, and the length of the chain of entries it comes from,
itself included. -/
structure Pending (ε : Type) where
  entry : ε
  generation : Nat

/-- What has been done so far, and what is still to be worked off. -/
structure Worklist (σ ε : Type) where
  state : σ
  pending : List (Pending ε)

/-- How an entry is worked off. The answer is the new state with the entries to be added. -/
abbrev Service (σ ε : Type) := σ → ε → Except WireError (σ × List ε)

namespace Worklist

variable {σ ε ρ : Type}

/-- The worklist that the root leaves. -/
def start (state : σ) (pushed : List ε) : Worklist σ ε := ⟨state, pushed.map (⟨·, 1⟩)⟩

def entries (work : Worklist σ ε) : List ε := work.pending.map (·.entry)

/-- The first entry is worked off, and those it adds go to the end. -/
inductive Step (serve : Service σ ε) : Worklist σ ε → Worklist σ ε → Prop
  | intro {state state' : σ} {first : Pending ε} {pending : List (Pending ε)} {pushed : List ε} :
      serve state first.entry = .ok (state', pushed) →
      Step serve ⟨state, first :: pending⟩
        ⟨state', pending ++ pushed.map (⟨·, first.generation + 1⟩)⟩

/-- There is no further step: nothing is pending, or the first entry cannot be worked off. -/
inductive Ends (serve : Service σ ε) : Worklist σ ε → Except WireError σ → Prop
  | dry {state : σ} : Ends serve ⟨state, []⟩ (.ok state)
  | fails {state : σ} {first : Pending ε} {pending : List (Pending ε)} {error : WireError} :
      serve state first.entry = .error error → Ends serve ⟨state, first :: pending⟩ (.error error)

/-- The worklist gets there in finitely many steps. -/
abbrev Steps (serve : Service σ ε) : Worklist σ ε → Worklist σ ε → Prop :=
  Relation.ReflTransGen (Step serve)

/-- Working off what a root of the given shape pushes comes to an end, and made up by `finish` that
is `outcome`. -/
structure RunsDry (serve : Service σ ε) (target : ε → Shape) (shape : Shape) (state : σ)
    (pushed : List ε) (finish : σ → ρ) (outcome : Except WireError ρ) : Prop where
  /-- There is no endless run. -/
  finite : Acc (flip (Step serve)) (start state pushed)
  ends : ∃ last result, Steps serve (start state pushed) last ∧ Ends serve last result
  outcome_eq : ∀ last result, Steps serve (start state pushed) last → Ends serve last result →
    result.map finish = outcome
  root_strictlyIn : ∀ entry ∈ pushed, (target entry).StrictlyIn shape
  strictlyIn : ∀ state entry state' pushed, serve state entry = .ok (state', pushed) →
    ∀ next ∈ pushed, (target next).StrictlyIn (target entry)
  generation_le : ∀ work, Steps serve (start state pushed) work →
    ∀ pending ∈ work.pending, pending.generation ≤ shape.pointerDepth

/-- Every entry that is added has a target that the target of the one worked off points to. -/
def Descends (serve : Service σ ε) (target : ε → Shape) : Prop :=
  ∀ state entry state' pushed, serve state entry = .ok (state', pushed) →
    ∀ next ∈ pushed, (target entry).PointsTo (target next)

variable {serve : Service σ ε} {target : ε → Shape}

/-- The pointer depths that are pending, in no order. -/
def depths (target : ε → Shape) (work : Worklist σ ε) : Multiset Nat :=
  work.pending.map fun pending => (target pending.entry).pointerDepth

theorem depths_lt {work later : Worklist σ ε} (hdescends : Descends serve target)
    (h : Step serve work later) :
    (later.depths target).IsDershowitzMannaLT (work.depths target) := by
  cases h with
  | @intro state state' first pending pushed h =>
    -- One depth goes, and those that come instead are smaller.
    refine ⟨pending.map fun pending => (target pending.entry).pointerDepth,
      pushed.map fun next => (target next).pointerDepth, {(target first.entry).pointerDepth},
      Multiset.singleton_ne_zero _, ?_, ?_, ?_⟩
    · simp [depths, Function.comp_def]
    · rw [depths, List.map_cons, ← Multiset.cons_coe, ← Multiset.singleton_add, add_comm]
    · intro depth hdepth
      obtain ⟨next, hnext, rfl⟩ := List.mem_map.1 (Multiset.mem_coe.1 hdepth)
      exact ⟨_, Multiset.mem_singleton_self _, (hdescends _ _ _ _ h next hnext).pointerDepth_lt⟩

/-- Steps cannot go on forever. -/
theorem wellFounded_step (hdescends : Descends serve target) : WellFounded (flip (Step serve)) :=
  Subrelation.wf (depths_lt hdescends) (InvImage.wf
    (depths target) Multiset.wellFounded_isDershowitzMannaLT)

theorem step_or_ends (serve : Service σ ε) (work : Worklist σ ε) :
    (∃ later, Step serve work later) ∨ ∃ result, Ends serve work result := by
  obtain ⟨state, pending⟩ := work
  cases pending with
  | nil => exact .inr ⟨_, .dry⟩
  | cons first pending =>
    cases h : serve state first.entry with
    | error error => exact .inr ⟨_, .fails h⟩
    | ok served => exact .inl ⟨_, .intro h⟩

theorem exists_ends (hdescends : Descends serve target) (work : Worklist σ ε) :
    ∃ last result, Steps serve work last ∧ Ends serve last result := by
  induction work using (wellFounded_step hdescends).induction with
  | _ work ih =>
    rcases step_or_ends serve work with ⟨later, hstep⟩ | ⟨result, hends⟩
    · obtain ⟨last, result, hsteps, hends⟩ := ih later hstep
      exact ⟨last, result, .head hstep hsteps, hends⟩
    · exact ⟨work, result, .refl, hends⟩

theorem generation_add_depth_le_step {bound : Nat} {work later : Worklist σ ε}
    (hdescends : Descends serve target) (h : Step serve work later)
    (hwork : ∀ pending ∈ work.pending,
      pending.generation + (target pending.entry).pointerDepth ≤ bound) :
    ∀ pending ∈ later.pending,
      pending.generation + (target pending.entry).pointerDepth ≤ bound := by
  cases h with
  | @intro state state' first pending pushed h =>
    intro one hone
    -- What is added is a generation later, and its depth is smaller by one at least.
    rcases List.mem_append.1 hone with hone | hone
    · exact hwork one (List.mem_cons_of_mem _ hone)
    · obtain ⟨next, hnext, rfl⟩ := List.mem_map.1 hone
      have hless := (hdescends _ _ _ _ h next hnext).pointerDepth_lt
      have hfirst := hwork first List.mem_cons_self
      show first.generation + 1 + (target next).pointerDepth ≤ bound
      omega

theorem generation_add_depth_le {shape : Shape} {state : σ} {pushed : List ε} {work : Worklist σ ε}
    (hdescends : Descends serve target) (hpushed : ∀ entry ∈ pushed, shape.PointsTo (target entry))
    (h : Steps serve (start state pushed) work) :
    ∀ pending ∈ work.pending, pending.generation + (target pending.entry).pointerDepth ≤
      shape.pointerDepth := by
  induction h with
  | refl =>
    intro pending hpending
    obtain ⟨entry, hentry, rfl⟩ := List.mem_map.1 hpending
    have hless := (hpushed entry hentry).pointerDepth_lt
    show 1 + (target entry).pointerDepth ≤ shape.pointerDepth
    omega
  | tail _ hstep ih => exact generation_add_depth_le_step hdescends hstep ih

theorem eq_of_steps {value : σ → List ε → Except WireError ρ}
    (hserve : ∀ state entry entries,
      value state (entry :: entries) = serve state entry >>= fun served =>
        value served.1 (entries ++ served.2))
    {work last : Worklist σ ε} (h : Steps serve work last) :
    value work.state work.entries = value last.state last.entries := by
  induction h with
  | refl => rfl
  | tail _ hstep ih =>
    rw [ih]
    cases hstep with
    | intro h => simp [entries, hserve, h, bind, Except.bind, Function.comp_def]

theorem runsDry {shape : Shape} {state : σ} {pushed : List ε} {finish : σ → ρ}
    (value : σ → List ε → Except WireError ρ) (hdescends : Descends serve target)
    (hpushed : ∀ entry ∈ pushed, shape.PointsTo (target entry))
    (hnil : ∀ state, value state [] = .ok (finish state)) (hserve : ∀ state entry entries,
      value state (entry :: entries) = serve state entry >>= fun served =>
        value served.1 (entries ++ served.2)) :
    RunsDry serve target shape state pushed finish (value state pushed) where
  finite := (wellFounded_step hdescends).apply _
  ends := exists_ends hdescends _
  outcome_eq last result hsteps hends := by
    have hentries : (start state pushed).entries = pushed := by
      simp [start, entries, Function.comp_def]
    have hsame := eq_of_steps hserve hsteps
    rw [hentries] at hsame
    refine .trans ?_ hsame.symm
    cases hends with
    | dry => exact (hnil _).symm
    | fails h => simp [entries, hserve, h, bind, Except.bind, Except.map]
  root_strictlyIn entry hentry := (hpushed entry hentry).strictlyIn
  strictlyIn state entry state' pushed h next hnext :=
    (hdescends state entry state' pushed h next hnext).strictlyIn
  generation_le work hsteps pending hpending :=
    Nat.le_of_add_right_le (generation_add_depth_le hdescends hpushed hsteps pending hpending)

end Worklist

/-! ## writing and reading -/

namespace Graph

/-- Writes the referent that a reference stands for behind the pieces written so far. -/
def serveReference (graph : Graph) : Service (List Piece) Reference := fun done ref =>
  (graph.referentPieces ref).map fun written => (done ++ written, Piece.references written)

theorem serveReference_descends (graph : Graph) :
    Worklist.Descends graph.serveReference (·.target) := by
  intro done ref done' pushed h
  obtain ⟨written, hwritten, heq⟩ := map_eq_ok_iff.1 h
  cases heq
  unfold referentPieces at hwritten
  split at hwritten
  · exact Shape.pointsTo_of_pieces hwritten
  · cases hwritten

theorem drain_serveReference (graph : Graph) (done : List Piece) (ref : Reference)
    (queue : List Reference) :
    (graph.drain (ref :: queue)).map (done ++ ·) = graph.serveReference done ref >>= fun served =>
      (graph.drain (queue ++ served.2)).map (served.1 ++ ·) := by
  rw [drain_cons_bind, serveReference]
  cases graph.referentPieces ref with
  | error error => rfl
  | ok written =>
    show ((graph.drain (queue ++ Piece.references written)).map (written ++ ·)).map (done ++ ·) =
      (graph.drain (queue ++ Piece.references written)).map (done ++ written ++ ·)
    cases graph.drain (queue ++ Piece.references written) with
    | error error => rfl
    | ok later => exact congrArg Except.ok (List.append_assoc done written later).symm

theorem encode_runsDry (graph : Graph) (shape : Shape) (ids : IdSupply) {root : List Piece}
    (hroot : shape.pieces graph.root = .ok root) :
    Worklist.RunsDry graph.serveReference (·.target) shape root (Piece.references root)
      (Piece.number ids) (graph.encode shape ids) := by
  have hencode : graph.encode shape ids =
      ((graph.drain (Piece.references root)).map (root ++ ·)).map (Piece.number ids) := by
    rw [encode, pieces, hroot]
    cases h : graph.drain (Piece.references root) <;>
      simp [h, bind, Except.bind, Except.map, pure, Except.pure]
  rw [hencode]
  refine Worklist.runsDry (fun done queue =>
    ((graph.drain queue).map (done ++ ·)).map (Piece.number ids))
    graph.serveReference_descends (Shape.pointsTo_of_pieces hroot) ?nil ?cons
  case nil =>
    intro done
    simp [drain, Except.map]
  case cons =>
    intro done ref queue
    rw [drain_serveReference]
    cases graph.serveReference done ref <;> rfl

/-- What a reader of referents has found so far, how many slots it has given out and where it
stands. -/
structure Reading where
  referents : List Referent
  taken : Nat
  cursor : Cursor

/-- Reads the referent that was announced behind the ones read so far. -/
def serveAnnouncement (limit : Option Nat) (order : ByteOrder) : Service Reading Announcement :=
  fun reading announcement =>
    ((announcement.target.read limit reading.taken).run order reading.cursor).map
      fun (found, next) => (⟨reading.referents ++ [⟨announcement.id, found.value⟩],
        reading.taken + found.announced.length, next⟩, found.announced)

theorem serveAnnouncement_descends (limit : Option Nat) (order : ByteOrder) :
    Worklist.Descends (serveAnnouncement limit order) (·.target) := by
  intro reading announcement reading' pushed h
  obtain ⟨⟨found, next⟩, hfound, heq⟩ := map_eq_ok_iff.1 h
  cases heq
  exact Shape.pointsTo_of_read hfound

/-- The graph with the given root, when the referents of a queue are read behind those read so
far. -/
def readOn (limit : Option Nat) (order : ByteOrder) (root : Value) (reading : Reading)
    (queue : List Announcement) : Except WireError (Graph × Cursor) :=
  (readReferents limit order queue reading.taken reading.cursor).map fun (referents, last) =>
    (⟨root, reading.referents ++ referents⟩, last)

theorem readOn_serveAnnouncement (limit : Option Nat) (order : ByteOrder) (root : Value)
    (reading : Reading) (announcement : Announcement) (queue : List Announcement) :
    readOn limit order root reading (announcement :: queue) =
      serveAnnouncement limit order reading announcement >>= fun served =>
        readOn limit order root served.1 (queue ++ served.2) := by
  rw [readOn, readReferents_cons, serveAnnouncement]
  cases (announcement.target.read limit reading.taken).run order reading.cursor with
  | error error => rfl
  | ok result =>
    obtain ⟨found, next⟩ := result
    simp only [readOn, Except.map, bind, Except.bind]
    cases readReferents limit order (queue ++ found.announced)
      (reading.taken + found.announced.length) next with
    | error error => rfl
    | ok others => simp

theorem read_runsDry {limit : Option Nat} {shape : Shape} {order : ByteOrder} {cursor next : Cursor}
    {found : Found Value} (hroot : (shape.read limit 0).run order cursor = .ok (found, next)) :
    Worklist.RunsDry (serveAnnouncement limit order) (·.target) shape
      ⟨[], found.announced.length, next⟩ found.announced
      (fun reading =>
        (⟨found.value, reading.referents⟩,
          reading.cursor)) ((read limit shape).run order cursor) := by
  have hread : (read limit shape).run order cursor =
      readOn limit order found.value ⟨[], found.announced.length, next⟩ found.announced := by
    simp only [read, hroot, readOn, bind, Except.bind]
    cases readReferents limit order found.announced found.announced.length next <;> rfl
  rw [hread]
  refine Worklist.runsDry (readOn limit order found.value) (serveAnnouncement_descends limit order)
    (Shape.pointsTo_of_read hroot) (fun reading => ?_)
      (readOn_serveAnnouncement limit order found.value)
  simp [readOn, readReferents, Except.map]

/-- Writing and reading come to an end on every graph and on all octets, with or without a limit.

What the root leaves to be worked off runs dry, and its outcome is what is written or read. An entry
added while another one or the root is worked off has a shape strictly in that shape, so there are
no more generations of entries than the shape of the root has pointers on top of each other. The
referent of a pointer that is itself the root is the one entry of the first generation. -/
theorem worklists_runDry :
    (∀ (graph : Graph) (shape : Shape) (ids : IdSupply),
      match shape.pieces graph.root with
      | .error error => graph.encode shape ids = .error error
      | .ok root =>
        Worklist.RunsDry graph.serveReference (·.target) shape root (Piece.references root)
          (Piece.number ids) (graph.encode shape ids)) ∧
    ∀ (limit : Option Nat) (shape : Shape) (order : ByteOrder) (cursor : Cursor),
      match (shape.read limit 0).run order cursor with
      | .error error => (read limit shape).run order cursor = .error error
      | .ok (found, next) =>
        Worklist.RunsDry (serveAnnouncement limit order) (·.target) shape
          ⟨[], found.announced.length, next⟩
          found.announced (fun reading => (⟨found.value, reading.referents⟩, reading.cursor))
          ((read limit shape).run order cursor) := by
  refine ⟨fun graph shape ids => ?_, fun limit shape order cursor => ?_⟩
  · split
    · rename_i error herror
      simp [encode, pieces, herror, bind, Except.bind, Except.map]
    · rename_i root hroot
      exact graph.encode_runsDry shape ids hroot
  · split
    · rename_i error herror
      simp [read, herror, bind, Except.bind]
    · rename_i found next hfound
      exact read_runsDry hfound

/-- Two slots that point at each other. By a finite shape the way around ends, here where an octet
is called for. -/
example : (ofValues (.pointer (some 0)) [.pointer (some 1), .pointer (some 0)]).encode
    (.pointer (.pointer (.pointer (.pointer .u8)))) .fresh =
      .error (.mismatch (.notEncodable (.pointer (some 0)) .u8)) := by
  cbv

end Graph

end OrpcWire
