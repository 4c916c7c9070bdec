import ColumnStore.Collection
import ColumnStore.Proofs.Directory
import ColumnStore.Proofs.Kinds
import ColumnStore.Proofs.Table.SinglePass
import ColumnStore.Proofs.Agreement
import ColumnStore.Proofs.Catalog.LastWrite
import ColumnStore.Proofs.Column.History
import ColumnStore.Proofs.Column.Run
import ColumnStore.Proofs.Copying
import ColumnStore.Proofs.Interchange
import ColumnStore.Proofs.Moments
import ColumnStore.Proofs.PositionSet.Members
import ColumnStore.Proofs.Reading
import ColumnStore.Proofs.Record.Draft
import ColumnStore.Proofs.Segment.Encoding
import ColumnStore.Proofs.Segment.Half
import ColumnStore.Proofs.Segment.Sheet
import ColumnStore.Proofs.Segment.Widening
import ColumnStore.Proofs.Table.Reduce
import ColumnStore.Proofs.Table.Reordering
import ColumnStore.Proofs.Table.Sorting
