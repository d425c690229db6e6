import Provenance.Bytes.Layout
import Provenance.Text
import Provenance.Text.Ascii
import Provenance.Text.Digit
import Provenance.Text.Factor
import Provenance.Text.Lines
import Provenance.Text.Quoted
import Provenance.Text.Utf8
import Provenance.Number.Shortest
import Provenance.Number.Reading
import Provenance.Format
import Provenance.Architecture
import Provenance.Pe.Record
import Provenance.Pe.Evidence
import Provenance.Elf.Evidence
import Provenance.MachO.Evidence
import Provenance.Detection
import Provenance.Report
import Provenance.FilePath
import Provenance.FileTree
import Provenance.CommandLine.Options
import Provenance.CommandLine.Session
import Provenance.Main
import Provenance.Proofs.Detection
import Provenance.Proofs.Elf.RoundTrip
import Provenance.Proofs.MachO.Slices
import Provenance.Proofs.MachO.Selection
import Provenance.Proofs.Elf.SectionTable
import Provenance.Proofs.Answers
import Provenance.Proofs.Pe.Acceptance
import Provenance.Proofs.Collector
import Provenance.Proofs.MessagePack.Head
import Provenance.Proofs.MessagePack.RoundTrip
import Provenance.Proofs.MessagePack.Decoded
import Provenance.Proofs.Report.RoundTrip
import Provenance.Proofs.Number
import Provenance.Proofs.Report.Refusals
import Provenance.Proofs.Classification
import Provenance.Proofs.Records
import Provenance.Proofs.MachO.RoundTrip
import Provenance.Proofs.CommandLine.Session
import Provenance.Proofs.Verdict
import Provenance.Proofs.MachO.Locality
import Provenance.Proofs.Elf.Tables
import Provenance.Proofs.BrokenTables
import Provenance.Proofs.Signature
import Provenance.Proofs.RecordBytes
import Provenance.Proofs.Pe.ImportRules
import Provenance.Proofs.Report.Shape
import Provenance.Proofs.Pe.NamePlaces
import Provenance.Proofs.Pe.LongNames
import Provenance.Proofs.Elf.Truncation
import Provenance.Proofs.Elf.Numbering
import Provenance.Proofs.Pe.ImportCount
import Provenance.Proofs.Summary
import Provenance.Proofs.NulTerminated
