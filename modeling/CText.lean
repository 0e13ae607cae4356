import CText.Escape.InPlace
import CText.Files.Tree
import CText.Main
import CText.Path.InPlace
import CText.Proofs.Buffer.Writing
import CText.Proofs.CString.Content
import CText.Proofs.Escape.Encoding
import CText.Proofs.Escape.Decoding
import CText.Proofs.Escape.InPlace
import CText.Proofs.Escape.RoundTrip
import CText.Proofs.Fields
import CText.Proofs.Path.Stack
import CText.Proofs.Path.InPlace
import CText.Proofs.Path.Relative
import CText.Proofs.Size.Grammar
import CText.Proofs.Size.Value
import CText.Proofs.Size.Sum
import CText.Proofs.Size.Rendering
import CText.Proofs.Size.Reloading
import CText.Proofs.Mode.Bits
import CText.Proofs.Mode.Clauses
import CText.Proofs.Mode.Exact
import CText.Proofs.Mode.Merging
import CText.Proofs.Mode.Accepted
import CText.Proofs.Escape.Faults
import CText.Proofs.Escape.Turns
import CText.Proofs.Escape.Quoting
import CText.Proofs.Escape.Unknown
import CText.Proofs.Escape.Targets
import CText.Proofs.Mode.Rendering
import CText.Proofs.CString.Cutting
import CText.Proofs.CString.Calls
import CText.Proofs.Buffer.Mapping
import CText.Proofs.Buffer.Moving
import CText.Proofs.CString.Building
import CText.Proofs.CString.Filling
import CText.Proofs.CString.Comparing
import CText.Proofs.CString.Ordering
import CText.Proofs.CString.Finding
import CText.Proofs.CString.Windows
import CText.Proofs.CString.Reading
import CText.Proofs.CString.Widening
import CText.Proofs.Path.Placing
import CText.Proofs.Path.Absolute
import CText.Proofs.Path.Leading
import CText.Proofs.Path.Normal
import CText.Proofs.Path.Parting
import CText.Proofs.Path.Texts
import CText.Proofs.Conformance.Judging
import CText.Proofs.Conformance.WholeLog
import CText.Proofs.Conformance.Promises
import CText.Proofs.Log.Numbering
import CText.Proofs.Json.Pretty
import CText.Proofs.Text.Utf8
import CText.Proofs.Text.Written
import CText.Proofs.Files.Tree
import CText.Proofs.Files.Machine
import CText.Proofs.Conformance.Loading
import CText.Proofs.Log.Examining
import CText.Proofs.Log.Artifacts
import CText.Proofs.Conformance.Fixtures
import CText.Proofs.Conformance.Sets
import CText.Proofs.Conformance.Order
import CText.Proofs.Conformance.Fences
import CText.Proofs.CommandLine.Jobs
import CText.Proofs.CommandLine.Verifying
import CText.Proofs.CommandLine.Consistency
import CText.Proofs.CommandLine.Filing
import CText.Proofs.Conformance.Relevance
import CText.Proofs.Routine.Showing
import CText.Proofs.Log.Rewriting
import CText.Proofs.Reserved.Routines
import CText.Proofs.Calendar.Stamps
import CText.Proofs.Checked.Fractions
