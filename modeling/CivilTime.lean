import CivilTime.Abbreviation
import CivilTime.AliasIndex
import CivilTime.TimeZone
import CivilTime.Bytes.Field
import CivilTime.Bytes.Reader
import CivilTime.Bytes.Record
import CivilTime.Calendar
import CivilTime.CommandLine
import CivilTime.Compilation
import CivilTime.YearPoint
import CivilTime.Disk
import CivilTime.Duration
import CivilTime.Instant
import CivilTime.Keyword
import CivilTime.LinkResolution
import CivilTime.Message
import CivilTime.Main
import CivilTime.NamePool
import CivilTime.Proofs.AliasIndex
import CivilTime.Proofs.Bytes
import CivilTime.Proofs.Calendar
import CivilTime.Proofs.Course
import CivilTime.Proofs.Dates
import CivilTime.Proofs.Disk
import CivilTime.Proofs.Era
import CivilTime.Proofs.Firing
import CivilTime.Proofs.FixedZone
import CivilTime.Proofs.History
import CivilTime.Proofs.LastEra
import CivilTime.Proofs.LastStretch
import CivilTime.Proofs.Layout
import CivilTime.Proofs.Links
import CivilTime.Proofs.Lookup
import CivilTime.Proofs.NamePool
import CivilTime.Proofs.Output
import CivilTime.Proofs.Path
import CivilTime.Proofs.Seasons
import CivilTime.Proofs.Session
import CivilTime.Proofs.Stretches
import CivilTime.Proofs.Tail
import CivilTime.Proofs.TailAgreement
import CivilTime.Proofs.TailJoin
import CivilTime.Proofs.TailPhases
import CivilTime.Proofs.Timeline
import CivilTime.Proofs.Verification
import CivilTime.Proofs.YearPoint
import CivilTime.Proofs.ZoneCodec
import CivilTime.Source.Database
import CivilTime.Source.Fault
import CivilTime.Source.Field
import CivilTime.Source.File
import CivilTime.Source.Line
import CivilTime.Source.PointFields
import CivilTime.Source.Rule
import CivilTime.Source.Zone
import CivilTime.Tail
import CivilTime.Text.Pieces
import CivilTime.Text.Characters
import CivilTime.Text.Numbers
import CivilTime.Text.LowerCase
import CivilTime.TimeZone.Codec
import CivilTime.Timeline.Draft
import CivilTime.Timeline.Era
import CivilTime.Transition
import CivilTime.Verification
import CivilTime.Proofs.Truncation
import CivilTime.Proofs.LinkClosure
import CivilTime.Proofs.ReverseWalk
import CivilTime.Proofs.Installation
import CivilTime.Proofs.Reading
import CivilTime.Proofs.Outcome
import CivilTime.Proofs.NameOrder
import CivilTime.Proofs.SourceOrder
import CivilTime.Proofs.Splicing
import CivilTime.Proofs.OffsetNames
import CivilTime.Proofs.RuleOrder
import CivilTime.Proofs.RuleSetOrder
import CivilTime.Proofs.FilesBelow
import CivilTime.Proofs.FailedRun
import CivilTime.Proofs.Leftovers
import CivilTime.Proofs.CanonicalForm
import CivilTime.Proofs.YearBoundary
import CivilTime.Proofs.Entries
import CivilTime.Proofs.Faults
import CivilTime.Proofs.Declarations
import CivilTime.Proofs.SearchProgress
import CivilTime.Proofs.TailTimeline
import CivilTime.Proofs.LinearScan
import CivilTime.Proofs.SavingShift
import CivilTime.Proofs.Text
import CivilTime.Proofs.SavingNames
import CivilTime.Proofs.DayForm
import CivilTime.Proofs.Midnight
import CivilTime.Proofs.Weekdays
import CivilTime.Proofs.RuleYears
import CivilTime.Proofs.Accounts
import CivilTime.Proofs.LinkCopies
import CivilTime.Proofs.Retraction
import CivilTime.Proofs.FoldedNames
import CivilTime.Proofs.DurationForm
import CivilTime.Proofs.Termination
import CivilTime.Proofs.Records
