import NamedBlobs.Host
import NamedBlobs.Lookup.Script
import NamedBlobs.Main
import NamedBlobs.Proofs.Buffer.Containment
import NamedBlobs.Proofs.Buffer.Ledger
import NamedBlobs.Proofs.Lookup.Agreement
import NamedBlobs.Proofs.Lookup.Dictionary
import NamedBlobs.Proofs.Lookup.Directory
import NamedBlobs.Proofs.Lookup.Discipline
import NamedBlobs.Proofs.Lookup.Counter
import NamedBlobs.Proofs.Lookup.Reports
import NamedBlobs.Proofs.Reading.Placement
import NamedBlobs.Proofs.Table.Prefixes
import NamedBlobs.Proofs.Table.RoundTrip
import NamedBlobs.Resource.ModuleSelector
import NamedBlobs.Proofs.SevenBit.Canonical
import NamedBlobs.Proofs.Table.Canonical
import NamedBlobs.Proofs.Reading.Stream
import NamedBlobs.Proofs.CommandLine.Dump
import NamedBlobs.Proofs.Host
import NamedBlobs.Proofs.SevenBit.Places
import NamedBlobs.Proofs.Reading.Progress
import NamedBlobs.Proofs.Reading.Words
import NamedBlobs.Proofs.Reading.Course
import NamedBlobs.Proofs.Table.Room
import NamedBlobs.Proofs.Table.Json
import NamedBlobs.Proofs.Table.FirstMatch
import NamedBlobs.Proofs.CommandLine.Resolve
