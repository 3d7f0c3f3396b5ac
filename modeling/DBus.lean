import DBus.Interface
import DBus.NodeMarshal
import DBus.Shape
import DBus.Proofs.Grammar
import DBus.Proofs.Typing
import DBus.Proofs.Cursor
import DBus.Proofs.Soundness
import DBus.Proofs.Layout
import DBus.Proofs.Traversal
import DBus.Proofs.Reading
import DBus.Proofs.Normal
import DBus.Proofs.Appending
import DBus.Proofs.Writing
import DBus.Proofs.RoundTrip
import DBus.Proofs.Agreement
import DBus.Proofs.Slots
import DBus.Proofs.Calls
import DBus.Proofs.Inference
import DBus.Proofs.Serializing
import DBus.Proofs.Deserializing
import DBus.Proofs.DataRoundTrip
import DBus.Proofs.Extent
import DBus.Proofs.Delimited
import DBus.Proofs.Checked
import DBus.Proofs.Safety
import DBus.Proofs.StructVariants
import DBus.Proofs.Measure
import DBus.Proofs.Typable
import DBus.Proofs.Emptiness
import DBus.Proofs.AppendOnly
import DBus.Proofs.Numbering
import DBus.Proofs.Recording
import DBus.Proofs.SlotTypes
import DBus.Proofs.Skipping
import DBus.Proofs.Writable
import DBus.Proofs.Depth
import DBus.Proofs.Failures
import DBus.Proofs.Shallow
import DBus.Proofs.Offsets
import DBus.Proofs.Records
import DBus.Proofs.Unboxing
import DBus.Proofs.Filling
import DBus.Proofs.Widths
import DBus.Proofs.ExactTypes
import DBus.Proofs.Contents
import DBus.Proofs.Accepted
import DBus.Proofs.NativeTypes
import DBus.Proofs.Registered
import DBus.Proofs.Stopping
import DBus.Proofs.Kinds
import DBus.Proofs.Layers
import DBus.Proofs.StandIns
import DBus.Proofs.Arenas
import DBus.Proofs.NodeLinks
import DBus.Proofs.Growing
import DBus.Proofs.NodeMarshal
import DBus.Proofs.Brackets
import DBus.Proofs.Progress
import DBus.Proofs.PathGrammar
