import OrpcWire.Causality
import OrpcWire.Envelope.Reply
import OrpcWire.Envelope.Request
import OrpcWire.ObjRef.InterfacePointer
import OrpcWire.Proofs.Graph.Ids
import OrpcWire.Proofs.Graph.Account
import OrpcWire.Proofs.Graph.Row
import OrpcWire.Proofs.Graph.Accounting
import OrpcWire.Proofs.Graph.Drain
import OrpcWire.Proofs.Graph.Table
import OrpcWire.Proofs.Graph.Slots
import OrpcWire.Proofs.Graph.Parts
import OrpcWire.Proofs.Graph.Rewrite
import OrpcWire.Proofs.Graph.Constituents
import OrpcWire.Proofs.Graph.Taking
import OrpcWire.Proofs.Graph.Tree
import OrpcWire.Proofs.Graph.Grafts
import OrpcWire.Proofs.Graph.Deliver
import OrpcWire.Proofs.Graph.Serve
import OrpcWire.Proofs.Graph.Limit
import OrpcWire.Proofs.Graph.Fails
import OrpcWire.Proofs.Graph.Pointers
import OrpcWire.Proofs.Graph.Writable
import OrpcWire.Proofs.Graph.Acceptance
import OrpcWire.Proofs.Graph.Telling
import OrpcWire.Proofs.Graph.Indifference
import OrpcWire.Proofs.Graph.SelfDelimiting
import OrpcWire.Proofs.Graph.Size
import OrpcWire.Proofs.Graph.Elements
import OrpcWire.Proofs.Graph.Stops
import OrpcWire.Proofs.Graph.Fitting
import OrpcWire.Proofs.Graph.Levels
import OrpcWire.Proofs.Graph.Generations
import OrpcWire.Proofs.Graph.Contents
import OrpcWire.Proofs.Envelope.ExtentArray
import OrpcWire.Proofs.Envelope.ExtentGraph
import OrpcWire.Proofs.Envelope.ExtentLayout
import OrpcWire.Proofs.Envelope.Chain
import OrpcWire.Proofs.Envelope.ForeignChain
import OrpcWire.Proofs.Envelope.Request
import OrpcWire.Proofs.Envelope.Reply
import OrpcWire.Proofs.Envelope.Forward
import OrpcWire.Proofs.Envelope.Fails
import OrpcWire.Proofs.Envelope.Message
import OrpcWire.Proofs.Envelope.Frames
import OrpcWire.Proofs.Envelope.FlatReader
import OrpcWire.Proofs.Envelope.FlatChain
import OrpcWire.Proofs.Envelope.SelfDelimiting
import OrpcWire.Proofs.Envelope.Rejection
import OrpcWire.Proofs.Envelope.Layouts
import OrpcWire.Proofs.Text.Utf16
import OrpcWire.Proofs.Text.Surrogates
import OrpcWire.Proofs.Wire.Finds
import OrpcWire.Proofs.Wire.Items
import OrpcWire.Proofs.Wire.Units
import OrpcWire.Proofs.Wire.Fails
import OrpcWire.Proofs.Wire.Overlay
import OrpcWire.Proofs.Wire.SelfDelimiting
import OrpcWire.Proofs.Wire.Stretches
import OrpcWire.Proofs.Binding.Sections
import OrpcWire.Proofs.Binding.Grammar
import OrpcWire.Proofs.Binding.SecurityChain
import OrpcWire.Proofs.Binding.DualStringArray
import OrpcWire.Proofs.Binding.Forward
import OrpcWire.Proofs.Binding.Hosts
import OrpcWire.Proofs.ObjRef.InterfacePointer
import OrpcWire.Proofs.ObjRef.Framing
import OrpcWire.Proofs.Envelope.Primitive
import OrpcWire.Proofs.ObjRef.Fails
import OrpcWire.Proofs.ObjRef.Grammar
