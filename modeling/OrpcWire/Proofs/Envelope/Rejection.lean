import OrpcWire.Envelope.Reply
import OrpcWire.ObjRef.InterfacePointer
import OrpcWire.Proofs.Envelope.Frames

/-!
# Headers that are rejected

`OrpcThis.receive` reads a header and then serves its call. `OrpcThis.receiver` does the same one
step at a time, in a setting in which what has been put down about the call being served outlives a
failure later on (`Receiver`). It reads the causality id in front of the chain and puts it down
behind the chain, so whatever is wrong with the header has been found by then: all that comes before
are readers, which put down nothing (`Receiver.ofReader_bind`), and the two agree
(`OrpcThis.receiver_eq`).

An `Exchange` is what a thread does with the wire, or with the call it serves. A header that has
been rejected makes no difference to what the thread reads and writes later, and of all that is read
and written only an accepted header changes which call is being served
(`Exchange.rejected_unnoticed`).
-/

namespace OrpcWire

/-! ### Step by step -/

/-- Reads an `α` and puts down which call is being served. That stays put down if the reading fails
later; how far it has come does not. -/
abbrev Receiver (α : Type) : Type :=
  ReaderT ByteOrder (StateT Cursor (ExceptT OrpcError (StateM Causality))) α

namespace Receiver

variable {α β : Type}

/-- Reads and puts down nothing. -/
def ofReader (reader : Reader OrpcError α) : Receiver α :=
  fun order cursor causality => (reader.run order cursor, causality)

instance : MonadLift (Reader OrpcError) Receiver where
  monadLift := ofReader

/-- Puts down that the call with the given id is being served. -/
def serve (id : Guid) : Receiver Unit :=
  fun _ cursor causality => (.ok ((), cursor), causality.serve id)

theorem bind_apply (first : Receiver α) (next : α → Receiver β) (order : ByteOrder)
    (cursor : Cursor) (causality : Causality) :
    (first >>= next) order cursor causality =
      (match first order cursor causality with
      | (.ok (a, middle), causality) => next a order middle causality
      | (.error error, causality) => (.error error, causality)) := by
  have hbind : (first >>= next) order cursor causality =
      ExceptT.bindCont (m := StateM Causality) (fun answer => next answer.1 order answer.2)
        (first order cursor causality).1 (first order cursor causality).2 := rfl
  rw [hbind]
  rcases first order cursor causality with ⟨error | ⟨a, middle⟩, later⟩ <;> rfl

theorem ofReader_bind (reader : Reader OrpcError α) (next : α → Reader OrpcError β) :
    ofReader (reader >>= next) = ofReader reader >>= fun a => ofReader (next a) := by
  funext order cursor causality
  rw [bind_apply]
  simp only [ofReader, Reader.run_bind]
  cases reader.run order cursor <;> rfl

end Receiver

namespace OrpcThis

/-- Reads a header, its chain last, and then puts down that its call is being served. -/
def receiver (settings : EnvelopeSettings) : Receiver OrpcThis := do
  let version ← ComVersion.read
  let flags ← Reader.u32
  let _ ← Reader.u32
  let causalityId ← Reader.guid
  let extensions ← Chain.read settings.extensionLimit
  Receiver.serve causalityId
  return ⟨version, flags, 0, causalityId, extensions⟩

/-- Step by step a header is received as it is on the whole. -/
theorem receiver_eq (settings : EnvelopeSettings) (order : ByteOrder) (cursor : Cursor)
    (causality : Causality) :
    receiver settings order cursor causality = receive settings causality order cursor := by
  have hsteps : receiver settings = Receiver.ofReader (read settings) >>= fun header => do
      Receiver.serve header.causalityId
      return header := by
    simp only [read, Receiver.ofReader_bind, bind_assoc]
    rfl
  rw [hsteps, Receiver.bind_apply, receive, Receiver.ofReader]
  rcases (read settings).run order cursor with error | ⟨header, next⟩ <;> rfl

end OrpcThis

/-! ### Exchanges -/

/-- What a thread does with the wire, or with the call that it serves. -/
inductive Exchange where
  /-- Request headers received or sent, and steps that have to do with the call being served
  only. -/
  | causal (step : CausalityStep)
  | receiveReply (settings : EnvelopeSettings) (order : ByteOrder) (cursor : Cursor)
  | receivePointer (flags : UInt32) (order : ByteOrder) (cursor : Cursor)
  | sendReply (header : OrpcThat)
  | sendPointer (pointer : Option InterfacePointer) (flags : UInt32) (ids : IdSupply)

namespace Exchange

/-- What an exchange comes to. -/
inductive Answer where
  | request (result : Except OrpcError (OrpcThis × Cursor))
  | reply (result : Except OrpcError (OrpcThat × Cursor))
  | pointer (result : Except OrpcError (Option InterfacePointer × Cursor))
  | written (result : Except OrpcError (Layout × IdSupply))
  | nothing

/-- What an exchange comes to, and what the thread remembers then. -/
def perform (exchange : Exchange) (causality : Causality) : Answer × Causality :=
  match exchange with
  | .causal (.receive settings order cursor) =>
    let (result, later) := OrpcThis.receive settings causality order cursor
    (.request result, later)
  | .causal (.send header settings ids) =>
    (.written (header.encode settings causality ids), causality)
  | .causal step => (.nothing, step.after causality)
  | .receiveReply settings order cursor =>
    let (result, later) := Receiver.ofReader (OrpcThat.read settings) order cursor causality
    (.reply result, later)
  | .receivePointer flags order cursor =>
    let (result, later) := Receiver.ofReader (InterfacePointer.read flags) order cursor causality
    (.pointer result, later)
  | .sendReply header => (.written (.ok (header.layout, .fresh)), causality)
  | .sendPointer pointer flags ids =>
    (.written (InterfacePointer.encodeOptional pointer flags ids), causality)

/-- What exchanges one after the other come to, and what the thread remembers in the end. -/
def run : List Exchange → Causality → List Answer × Causality
  | [], causality => ([], causality)
  | exchange :: exchanges, causality =>
    let (answer, middle) := exchange.perform causality
    let (answers, last) := run exchanges middle
    (answer :: answers, last)

/-- Whether something is read or written. -/
def onWire : Exchange → Bool
  | .causal .forget | .causal .openScope | .causal (.openScopeFor _) | .causal .closeScope => false
  | _ => true

/-- The causality id of the request header that is accepted. -/
def accepted? : Exchange → Option Guid
  | .causal (.receive settings order cursor) =>
    match (OrpcThis.read settings).run order cursor with
    | .ok (header, _) => some header.causalityId
    | .error _ => none
  | _ => none

/-- The causality id of the last request header that is accepted. -/
def lastAccepted? (exchanges : List Exchange) : Option Guid :=
  (exchanges.filterMap accepted?).getLast?

theorem run_cons (exchange : Exchange) (exchanges : List Exchange) (causality : Causality) :
    run (exchange :: exchanges) causality =
      ((exchange.perform causality).1 :: (run exchanges (exchange.perform causality).2).1,
      (run exchanges (exchange.perform causality).2).2) := rfl

theorem lastAccepted?_cons (exchange : Exchange) (exchanges : List Exchange)
    (serving : Option Guid) :
    (lastAccepted? (exchange :: exchanges)).or serving =
      (lastAccepted? exchanges).or (exchange.accepted?.or serving) := by
  unfold lastAccepted?
  cases haccepted : exchange.accepted? with
  | none => rw [List.filterMap_cons_none haccepted, Option.none_or]
  | some id =>
    rw [List.filterMap_cons_some haccepted, List.getLast?_cons]
    cases (exchanges.filterMap accepted?).getLast? <;> rfl

theorem perform_onWire {exchange : Exchange} (h : exchange.onWire = true) (causality : Causality) :
    (exchange.perform causality).2 =
      { causality with serving := exchange.accepted?.or causality.serving } := by
  cases exchange with
  | causal step =>
    cases step with
    | receive settings order cursor =>
      show (OrpcThis.receive settings causality order cursor).2 = _
      rw [OrpcThis.receive, accepted?]
      rcases (OrpcThis.read settings).run order cursor with error | ⟨header, next⟩ <;> rfl
    | send header settings ids => rfl
    | _ => cases h
  | _ => rfl

theorem run_onWire {exchanges : List Exchange} (h : ∀ exchange ∈ exchanges, exchange.onWire = true)
    (causality : Causality) :
    (run exchanges causality).2 =
      { causality with serving := (lastAccepted? exchanges).or causality.serving } := by
  induction exchanges generalizing causality with
  | nil => rfl
  | cons exchange exchanges ih =>
    obtain ⟨hfirst, hothers⟩ := List.forall_mem_cons.1 h
    rw [run_cons, ih hothers, perform_onWire hfirst, lastAccepted?_cons]

/-- A request header that is rejected, wherever it goes wrong, leaves the call being served as it
was: what the thread reads and writes from then on is what it would read and write had there been no
such header. One that is accepted has its own call served. Of all that is read and written nothing
else makes a difference, so a request goes out under the id of the last accepted header, whatever
else was read, rejected or written since, and if there is none, under that of the call served before
or its own. -/
theorem rejected_unnoticed (settings : EnvelopeSettings) (order : ByteOrder) (cursor : Cursor)
    (causality : Causality) :
    OrpcThis.receive settings causality order cursor =
      OrpcThis.receiver settings order cursor causality ∧
    (∀ error, (OrpcThis.receive settings causality order cursor).1 = .error error →
      (OrpcThis.receive settings causality order cursor).2 = causality ∧
      ∀ behind, run (.causal (.receive settings order cursor) :: behind) causality =
        (.request (.error error) :: (run behind causality).1, (run behind causality).2)) ∧
    (∀ header next, (OrpcThis.receive settings causality order cursor).1 = .ok (header, next) →
      (OrpcThis.receive settings causality order cursor).2 =
        { causality with serving := some header.causalityId }) ∧
    ∀ exchanges : List Exchange, (∀ exchange ∈ exchanges, exchange.onWire = true) →
      (run exchanges causality).2 =
        { causality with serving := (lastAccepted? exchanges).or causality.serving } ∧
      ∀ (header : OrpcThis) settings ids layout later,
        header.encode settings (run exchanges causality).2 ids = .ok (layout, later) →
        ∀ order position trailing, ∃ next,
          OrpcThis.readCausalityId.run order ⟨position, layout.render order position ++ trailing⟩ =
            .ok (((lastAccepted? exchanges).or causality.serving).getD header.causalityId,
              next) := by
  refine ⟨(OrpcThis.receiver_eq ..).symm, fun error herror => ?_,
    fun header next => OrpcThis.receive_snd, ?_⟩
  · have hreceive : OrpcThis.receive settings causality order cursor =
        (.error error, causality) := by
      rw [OrpcThis.receive_fst] at herror
      rw [OrpcThis.receive, herror]
    have hperform : perform (.causal (.receive settings order cursor)) causality =
        (.request (.error error), causality) := by
      rw [perform, hreceive]
    refine ⟨by rw [hreceive], fun behind => ?_⟩
    rw [run_cons, hperform]
  · intro exchanges hexchanges
    refine ⟨run_onWire hexchanges causality,
      fun header settings ids layout later hencode order position trailing => ?_⟩
    rw [run_onWire hexchanges] at hencode
    exact OrpcThis.run_readCausalityId hencode order position trailing

/-- A header with another id is cut off in its chain, and a reply and a pointer cannot be read
either. The request that is sent then belongs to the call that was accepted before. -/
theorem rejected_unnoticed_truncated :
    let accepted : Guid := ⟨1, 2, 3, Block.zero 8⟩
    let octets (id : Guid) : List UInt8 :=
      Layout.render .little 0 ((OrpcThis.ofCausality id).front {} ++ [.u32 nullId])
    let cut : Cursor := ⟨0, (octets Guid.iUnknown).take 31⟩
    let exchanges : List Exchange :=
      [.causal (.receive {} .little ⟨0, octets accepted⟩), .receiveReply {} .big ⟨0, []⟩,
        .causal (.receive {} .little cut), .receivePointer MarshalFlag.bare .little ⟨0, []⟩,
        .sendReply {}]
    OrpcThis.receive {} ⟨some accepted, []⟩ .little cut =
        (.error (.wire (.underflow 4 3)), ⟨some accepted, []⟩) ∧
      (∀ exchange ∈ exchanges, exchange.onWire = true) ∧
      (run exchanges {}).2 = ⟨some accepted, []⟩ ∧
      ∃ layout later next,
        (OrpcThis.ofCausality Guid.nil).encode ⟨.v5_7, .flat, 0⟩ (run exchanges {}).2 .fresh =
          .ok (layout, later) ∧
        OrpcThis.readCausalityId.run .big ⟨5, layout.render .big 5 ++ [0xEE]⟩ =
          .ok (accepted, next) := by
  intro accepted octets cut exchanges
  have herror : (OrpcThis.receive {} ⟨some accepted, []⟩ .little cut).1 =
      .error (.wire (.underflow 4 3)) := by
    unfold cut octets accepted
    cbv
  have hexchanges : ∀ exchange ∈ exchanges, exchange.onWire = true := by simp [exchanges, onWire]
  have hlast : lastAccepted? exchanges = some accepted := by
    unfold exchanges cut octets accepted
    cbv
  obtain ⟨_, hrejected, _, _⟩ := rejected_unnoticed {} .little cut ⟨some accepted, []⟩
  obtain ⟨_, _, _, hwire⟩ := rejected_unnoticed {} .little cut {}
  obtain ⟨hrun, hsent⟩ := hwire exchanges hexchanges
  rw [hlast] at hrun hsent
  obtain ⟨next, hid⟩ :=
    hsent (OrpcThis.ofCausality Guid.nil) ⟨.v5_7, .flat, 0⟩ .fresh _ _ rfl .big 5 [0xEE]
  exact ⟨Prod.ext herror (hrejected _ herror).1, hexchanges, hrun, _, _, next, rfl, hid⟩

end Exchange

end OrpcWire
