import OrpcWire.Guid

/-!
# Causality

While a call is served, the calls made on its behalf carry its causality id instead of ids of their
own. A context of execution remembers the id of the call it serves. A scope sets that id aside and
puts it back when it is closed, whatever happened in between.
-/

namespace OrpcWire

/-- What one context of execution knows of the calls it serves. -/
structure Causality where
  /-- The id of the call being served. -/
  serving : Option Guid := none
  /-- What each open scope will put back, the innermost scope first. -/
  scopes : List (Option Guid) := []
  deriving DecidableEq, Repr, Inhabited

namespace Causality

/-- A call with the given id is being served from now on. -/
def serve (causality : Causality) (id : Guid) : Causality := { causality with serving := some id }

/-- No call is being served from now on. -/
def forget (causality : Causality) : Causality := { causality with serving := none }

/-- Opens a scope in which no call is being served yet. -/
def openScope (causality : Causality) : Causality := ⟨none, causality.serving :: causality.scopes⟩

/-- Opens a scope in which a call with the given id is being served. -/
def openScopeFor (causality : Causality) (id : Guid) : Causality :=
  ⟨some id, causality.serving :: causality.scopes⟩

/-- Closes the scope inside which `inner` open scopes lie. The id that this scope set aside is put
back; the scopes inside it stay open. -/
def closeScope (causality : Causality) (inner : Nat) : Causality :=
  match causality.scopes[inner]? with
  | some saved => ⟨saved, causality.scopes.eraseIdx inner⟩
  | none => causality

/-- The id that a call goes out under: that of the call being served, else its own. -/
def outgoing (causality : Causality) (own : Guid) : Guid := causality.serving.getD own

end Causality

end OrpcWire
