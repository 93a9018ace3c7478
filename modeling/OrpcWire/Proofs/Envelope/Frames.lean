import Mathlib.Logic.Function.Basic
import OrpcWire.Proofs.Envelope.Request

/-!
# Calls within calls

What a context of execution remembers, the call it serves and what each open scope will put back, is
a stack of frames: opening a scope pushes a frame, closing it pops one, and receiving a call or
forgetting it overwrites the frame on top (`Causality.frames_after`). A call goes out under the id
in the frame on top, or under its own if that frame is empty.

Threads do their steps in any order. Each has a context of its own, so what one of them remembers
follows from its own steps (`Threads.run_apply`), and of these only from those that are not inside a
scope closed since (`Frames.run_scope`).
-/

namespace OrpcWire

/-! ### Stacks of frames -/

/-- The id of the call that is being served within a boundary, if there is one. -/
abbrev Frame := Option Guid

inductive FrameOp where
  | keep
  | overwrite (frame : Frame)
  | push (frame : Frame)
  | pop
  deriving DecidableEq, Repr

/-- The frame on the bottom is that of the thread and stays. -/
def FrameOp.apply : FrameOp → List Frame → List Frame
  | .keep, frames => frames
  | .overwrite frame, frames => frame :: frames.tail
  | .push frame, frames => frame :: frames
  | .pop, [bottom] => [bottom]
  | .pop, frames => frames.tail

namespace Frames

def run (ops : List FrameOp) (frames : List Frame) : List Frame :=
  ops.foldl (fun frames op => op.apply frames) frames

@[simp] theorem run_cons (op : FrameOp) (ops : List FrameOp) (frames : List Frame) :
    run (op :: ops) frames = run ops (op.apply frames) := rfl

@[simp] theorem run_append (first second : List FrameOp) (frames : List Frame) :
    run (first ++ second) frames = run second (run first frames) := List.foldl_append

/-- The id under which a call goes out that would have `own`. -/
def outgoing (frames : List Frame) (own : Guid) : Guid := frames.head?.join.getD own

/-- Operations that pop every frame they push and no other. -/
inductive Balanced : List FrameOp → Prop
  | nil : Balanced []
  | keep : Balanced [.keep]
  | overwrite (frame : Frame) : Balanced [.overwrite frame]
  | scope (frame : Frame) {inside : List FrameOp} :
      Balanced inside → Balanced (.push frame :: (inside ++ [.pop]))
  | append {first second : List FrameOp} :
      Balanced first → Balanced second → Balanced (first ++ second)

theorem Balanced.run_eq {ops : List FrameOp} (h : Balanced ops) (top : Frame) (below : List Frame) :
    ∃ top', run ops (top :: below) = top' :: below := by
  induction h generalizing top below with
  | nil => exact ⟨top, rfl⟩
  | keep => exact ⟨top, rfl⟩
  | overwrite frame => exact ⟨frame, rfl⟩
  | scope frame _ ih =>
    obtain ⟨inner, hinner⟩ := ih frame (top :: below)
    refine ⟨top, ?_⟩
    rw [run_cons, run_append, FrameOp.apply, hinner]
    rfl
  | append _ _ ihfirst ihsecond =>
    obtain ⟨middle, hmiddle⟩ := ihfirst top below
    obtain ⟨last, hlast⟩ := ihsecond middle below
    exact ⟨last, by rw [run_append, hmiddle, hlast]⟩

theorem apply_ne_nil (op : FrameOp) {frames : List Frame} (h : frames ≠ []) :
    op.apply frames ≠ [] := by
  obtain ⟨top, below, rfl⟩ := List.exists_cons_of_ne_nil h
  cases op with
  | keep => exact h
  | overwrite frame => exact List.cons_ne_nil _ _
  | push frame => exact List.cons_ne_nil _ _
  | pop => cases below <;> exact List.cons_ne_nil _ _

theorem run_ne_nil (ops : List FrameOp) {frames : List Frame} (h : frames ≠ []) :
    run ops frames ≠ [] := by
  induction ops generalizing frames with
  | nil => exact h
  | cons op ops ih => exact ih (apply_ne_nil op h)

theorem run_scope (frame : Frame) {inside : List FrameOp} (h : Balanced inside)
    {frames : List Frame} (hframes : frames ≠ []) :
    run (.push frame :: (inside ++ [.pop])) frames = frames := by
  obtain ⟨top, below, rfl⟩ := List.exists_cons_of_ne_nil hframes
  obtain ⟨inner, hinner⟩ := h.run_eq frame (top :: below)
  rw [run_cons, run_append, FrameOp.apply, hinner]
  rfl

end Frames

/-! ### Steps of one thread -/

/-- What a thread does that has to do with causality. -/
inductive CausalityStep where
  /-- Receives what stands at a cursor as a request header, with success or without. -/
  | receive (settings : EnvelopeSettings) (order : ByteOrder) (cursor : Cursor)
  | forget
  | openScope
  | openScopeFor (id : Guid)
  /-- Closes the innermost scope that is open. -/
  | closeScope
  | send (header : OrpcThis) (settings : EnvelopeSettings) (ids : IdSupply)

namespace CausalityStep

/-- What a thread remembers after a step. -/
def after (step : CausalityStep) (causality : Causality) : Causality :=
  match step with
  | .receive settings order cursor => (OrpcThis.receive settings causality order cursor).2
  | .forget => causality.forget
  | .openScope => causality.openScope
  | .openScopeFor id => causality.openScopeFor id
  | .closeScope => causality.closeScope 0
  | .send _ _ _ => causality

/-- What a step does to the frames of its thread. -/
def op : CausalityStep → FrameOp
  | .receive settings order cursor =>
    match (OrpcThis.read settings).run order cursor with
    | .ok (header, _) => .overwrite (some header.causalityId)
    | .error _ => .keep
  | .forget => .overwrite none
  | .openScope => .push none
  | .openScopeFor id => .push (some id)
  | .closeScope => .pop
  | .send _ _ _ => .keep

/-- What a thread remembers after several steps. -/
def runs (steps : List CausalityStep) (causality : Causality) : Causality :=
  steps.foldl (fun causality step => step.after causality) causality

@[simp] theorem runs_cons (step : CausalityStep) (steps : List CausalityStep)
    (causality : Causality) :
    runs (step :: steps) causality = runs steps (step.after causality) := rfl

end CausalityStep

namespace Causality

/-- The frames of a thread, the one on top first. -/
def frames (causality : Causality) : List Frame := causality.serving :: causality.scopes

theorem frames_injective {causality causality' : Causality}
    (h : causality.frames = causality'.frames) : causality = causality' := by
  cases causality
  cases causality'
  cases h
  rfl

theorem frames_ne_nil (causality : Causality) : causality.frames ≠ [] := List.cons_ne_nil _ _

theorem outgoing_eq (causality : Causality) (own : Guid) :
    causality.outgoing own = Frames.outgoing causality.frames own := rfl

theorem frames_after (step : CausalityStep) (causality : Causality) :
    (step.after causality).frames = step.op.apply causality.frames := by
  cases step with
  | receive settings order cursor =>
    rw [CausalityStep.after, CausalityStep.op, OrpcThis.receive]
    rcases (OrpcThis.read settings).run order cursor with error | ⟨header, next⟩ <;> rfl
  | closeScope =>
    obtain ⟨serving, scopes⟩ := causality
    cases scopes <;> rfl
  | _ => rfl

theorem frames_runs (steps : List CausalityStep) (causality : Causality) :
    (CausalityStep.runs steps causality).frames =
      Frames.run (steps.map CausalityStep.op) causality.frames := by
  induction steps generalizing causality with
  | nil => rfl
  | cons step steps ih =>
    rw [CausalityStep.runs_cons, ih, frames_after, List.map_cons, Frames.run_cons]

end Causality

/-! ### Threads -/

namespace Threads

variable {Thread : Type} [DecidableEq Thread]

/-- One thread does a step. -/
def step (state : Thread → Causality) (event : Thread × CausalityStep) : Thread → Causality :=
  Function.update state event.1 (event.2.after (state event.1))

/-- What the threads remember after the steps of a trace, if none of them serves a call or has a
scope open at the start. -/
def run (trace : List (Thread × CausalityStep)) : Thread → Causality := trace.foldl step fun _ => {}

/-- The steps that one thread does in a trace. -/
def own (thread : Thread) (trace : List (Thread × CausalityStep)) : List CausalityStep :=
  (trace.filter fun event => event.1 = thread).map (·.2)

theorem foldl_step_apply (thread : Thread) (trace : List (Thread × CausalityStep))
    (state : Thread → Causality) :
    trace.foldl step state thread = CausalityStep.runs (own thread trace) (state thread) := by
  induction trace generalizing state with
  | nil => rfl
  | cons event trace ih =>
    rw [List.foldl_cons, ih, step]
    by_cases hthread : event.1 = thread
    · subst hthread
      rw [Function.update_self, own, own, List.filter_cons_of_pos (by simp)]
      rfl
    · rw [Function.update_of_ne (Ne.symm hthread), own, own,
        List.filter_cons_of_neg (by simpa using hthread)]

theorem run_apply (thread : Thread) (trace : List (Thread × CausalityStep)) :
    run trace thread = CausalityStep.runs (own thread trace) {} := foldl_step_apply thread trace _

theorem frames_run (thread : Thread) (trace : List (Thread × CausalityStep)) :
    (run trace thread).frames = Frames.run ((own thread trace).map CausalityStep.op) [none] := by
  rw [run_apply, Causality.frames_runs]
  rfl

end Threads

/-! ### What goes out -/

namespace OrpcThis

/-- The causality id of the request header that stands at a cursor. -/
def readCausalityId : Reader OrpcError Guid := readBehind fun _ _ causalityId => pure causalityId

variable {header : OrpcThis} {settings : EnvelopeSettings} {causality : Causality}
  {ids later : IdSupply} {layout : Layout}

theorem exists_front_of_encode (h : header.encode settings causality ids = .ok (layout, later)) :
    ∃ chain, layout = header.front causality ++ chain := by
  obtain ⟨⟨chain, ids'⟩, _, heq⟩ := bind_eq_ok_iff.1 h
  cases heq
  exact ⟨chain, rfl⟩

theorem run_readCausalityId (h : header.encode settings causality ids = .ok (layout, later))
    (order : ByteOrder) (position : Nat) (trailing : List UInt8) :
    ∃ next, readCausalityId.run order ⟨position, layout.render order position ++ trailing⟩ =
      .ok (causality.outgoing header.causalityId, next) := by
  obtain ⟨chain, rfl⟩ := exists_front_of_encode h
  obtain ⟨middle, hfront, _⟩ :=
    Layout.between_append.1 (Layout.between_render order position _ trailing)
  exact ⟨middle, run_readBehind _ hfront⟩

end OrpcThis

/-- Threads do any number of steps in any order, and whatever they do, each of them has the frames
that its own steps make of one empty frame. The id on the wire of a header that it sends on the way
is the one in the frame on top, or the one of the header if that frame is empty. What a thread
remembers depends on its own steps only, and a scope that it has closed, with all that was done
inside, might as well not have been opened. -/
theorem Threads.run_refines_frames {Thread : Type} [DecidableEq Thread]
    (trace : List (Thread × CausalityStep)) (thread : Thread) :
    (run trace thread).frames = Frames.run ((own thread trace).map CausalityStep.op) [none] ∧
    (∀ before behind header settings ids layout later,
      trace = before ++ (thread, .send header settings ids) :: behind →
      header.encode settings (run before thread) ids = .ok (layout, later) →
      ∀ order position trailing, ∃ next,
        OrpcThis.readCausalityId.run order ⟨position, layout.render order position ++ trailing⟩ =
          .ok (Frames.outgoing (Frames.run ((own thread before).map CausalityStep.op) [none])
            header.causalityId, next)) ∧
    (∀ trace', own thread trace' = own thread trace → run trace' thread = run trace thread) ∧
    ∀ before opening inside behind frame,
      own thread trace = before ++ opening :: (inside ++ .closeScope :: behind) →
      opening.op = .push frame → Frames.Balanced (inside.map CausalityStep.op) →
      run trace thread = CausalityStep.runs (before ++ behind) {} := by
  refine ⟨frames_run thread trace, ?_, ?_, ?_⟩
  · intro before behind header settings ids layout later _ h order position trailing
    rw [← frames_run thread before, ← Causality.outgoing_eq]
    exact OrpcThis.run_readCausalityId h order position trailing
  · intro trace' htrace
    rw [run_apply, run_apply, htrace]
  · intro before opening inside behind frame hown hopening hbalanced
    apply Causality.frames_injective
    have hframes := Frames.run_ne_nil (before.map CausalityStep.op) (Causality.frames_ne_nil {})
    have hscope := Frames.run_scope frame hbalanced hframes
    have hsplit : (own thread trace).map CausalityStep.op = before.map CausalityStep.op ++
        ((.push frame :: (inside.map CausalityStep.op ++ [.pop])) ++
          behind.map CausalityStep.op) := by
      rw [hown, ← hopening]
      simp [CausalityStep.op]
    rw [run_apply, Causality.frames_runs, Causality.frames_runs, hsplit, List.map_append,
      Frames.run_append, Frames.run_append, Frames.run_append, hscope]

/-- Two threads in turn. The first one serves a call, opens a scope, forgets the call in there and
closes the scope; the second one fails to receive a call within a scope of its own. -/
theorem Threads.run_refines_frames_two :
    let trace : List (Bool × CausalityStep) :=
      [(true, .openScopeFor Guid.iUnknown), (false, .openScopeFor Guid.iDispatch),
        (true, .openScope), (false, .receive {} .little ⟨0, []⟩), (true, .forget),
        (true, .closeScope)]
    let header := OrpcThis.ofCausality Guid.nil
    (∃ layout later next,
      header.encode ⟨.v5_7, .flat, 1024⟩ (run trace true) .fresh = .ok (layout, later) ∧
      OrpcThis.readCausalityId.run .big ⟨2, layout.render .big 2 ++ [0xEE]⟩ =
        .ok (Guid.iUnknown, next)) ∧
    run trace true = CausalityStep.runs [.openScopeFor Guid.iUnknown] {} := by
  intro trace header
  obtain ⟨_, hsent, _, _⟩ :=
    run_refines_frames (trace ++ [(true, .send header ⟨.v5_7, .flat, 1024⟩ .fresh)]) true
  obtain ⟨_, _, _, hscope⟩ := run_refines_frames trace true
  constructor
  · obtain ⟨next, hnext⟩ := hsent trace [] header _ _ _ _ rfl rfl .big 2 [0xEE]
    exact ⟨_, _, next, rfl, hnext⟩
  · exact hscope [.openScopeFor Guid.iUnknown] .openScope [.forget] [] none rfl rfl
      (.overwrite none)

end OrpcWire
