import OrpcWire.Envelope.Version

/-!
# Settings of the envelope
-/

namespace OrpcWire

/-- How a request header writes its chain of extensions. Reading always expects `linked`. -/
inductive ChainLayout where
  /-- Behind pointers. No chain and a chain without extensions stay apart. -/
  | linked
  /-- One extension after the other without pointers. A chain without extensions is written as no
  chain is. -/
  | flat
  deriving DecidableEq, Repr, Inhabited

/-- Settings that sender and receiver of envelopes share. -/
structure EnvelopeSettings where
  /-- The version put into new request headers. -/
  version : ComVersion := .v5_7
  chainLayout : ChainLayout := .linked
  /-- The most extensions that a received header may count. -/
  extensionLimit : Nat := 1024
  deriving DecidableEq, Repr, Inhabited

end OrpcWire
