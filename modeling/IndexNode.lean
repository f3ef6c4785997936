import IndexNode.CheckedLemmas
import IndexNode.Draft
import IndexNode.Layout
import IndexNode.Proofs.EntryBytes
import IndexNode.Proofs.FreshAnswer
import IndexNode.Proofs.Marking
import IndexNode.Proofs.Reordering
import IndexNode.Proofs.FaultFree
import IndexNode.Proofs.KeyOrder
import IndexNode.Proofs.KeyBytes
import IndexNode.Proofs.Soundness
import IndexNode.Proofs.Transfer
import IndexNode.Proofs.Appending
import IndexNode.Proofs.TrailerCodec
import IndexNode.Proofs.DraftLayout
import IndexNode.Proofs.RoundTrip
import IndexNode.Proofs.BoundarySearch
import IndexNode.Proofs.EntryBounds
import IndexNode.Proofs.Insertion
import IndexNode.Proofs.DumpLines
import IndexNode.Proofs.Footprint
import IndexNode.Proofs.TableReasons
import IndexNode.Proofs.TableBytes
import IndexNode.Proofs.Tiling
import IndexNode.Proofs.KeyLayout
import IndexNode.Proofs.SingleSegment
import IndexNode.Proofs.DraftWrap
import IndexNode.Proofs.LastTrailer
import IndexNode.Proofs.PayloadBytes
import IndexNode.Proofs.FieldEdits
import IndexNode.Proofs.NumberCodec
import IndexNode.Proofs.DumpContents
