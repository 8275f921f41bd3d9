import Blockad.Lib.BitPrefix
import Blockad.Model.Address
import Blockad.Proofs.AddressPattern
import Blockad.Model.Regex
import Blockad.Model.StdioFile
import Blockad.Model.ConfFile
import Blockad.Proofs.Tokenizer
import Blockad.Proofs.ConfFile
import Blockad.Model.BlockingWatcher
import Blockad.Proofs.Capture
import Blockad.Proofs.Quoting
import Blockad.Lib.Runs
import Blockad.Lib.Window
import Blockad.Proofs.Detection
import Blockad.Model.InotifyWatcher
import Blockad.Model.Main
import Blockad.Lib.Prog
import Blockad.Proofs.UpdateWatchers
import Blockad.Proofs.Watcher
import Blockad.Proofs.Reload
import Blockad.Proofs.Delivery
import Blockad.Proofs.Tolerance
import Blockad.Model.Filesystem
import Blockad.Proofs.Rotation
import Blockad.Proofs.NoDuplicates
import Blockad.Lib.Lines
import Blockad.Proofs.NoLostLines
import Blockad.Proofs.Directives
import Blockad.Lib.Keyed
import Blockad.Proofs.Isolation
import Blockad.Lib.Pieces
import Blockad.Model.PollingWatcher
import Blockad.Proofs.Operations
import Blockad.Proofs.LineSplitting
import Blockad.Proofs.Pairing
import Blockad.Proofs.Races
import Blockad.Proofs.Polling
import Blockad.Proofs.PollingRotation
import Blockad.Proofs.Agreement
import Blockad.Lib.SelfPipe
import Blockad.Model.MainLoop
import Blockad.Proofs.Signals
import Blockad.Lib.Slots
import Blockad.Model.Ownership
import Blockad.Proofs.Ownership
import Blockad.Lib.Matching
import Blockad.Proofs.Retention
import Blockad.Lib.Sizes
import Blockad.Lib.Loop
import Blockad.Model.Timeval
import Blockad.Proofs.Timeout
import Blockad.Proofs.Clock
import Blockad.Model.EventBuffer
import Blockad.Proofs.EventWalk
import Blockad.Model.Execute
import Blockad.Proofs.Execute
import Blockad.Proofs.Dump
import Blockad.Model.AddressText
import Blockad.Model.BlockMethods
import Blockad.Proofs.AddressText
import Blockad.Proofs.BlockMethods
import Blockad.Proofs.BlockFailures
import Blockad.Lib.RefCount
import Blockad.Model.RegexHandles
import Blockad.Proofs.RegexHandles
import Blockad.Proofs.RegexValues
import Blockad.Lib.Lifetimes
import Blockad.Model.TrackedFiles
import Blockad.Proofs.TrackedFiles
import Blockad.Proofs.FileInvariants
import Blockad.Proofs.FileLifetimes
import Blockad.Proofs.ExceptionSafety
import Blockad.Proofs.Provenance
import Blockad.Lib.Inevitably
import Blockad.Proofs.Wakeups
import Blockad.Proofs.PollingRuns
import Blockad.Lib.Relates
import Blockad.Proofs.Clients
import Blockad.Proofs.Evidence
import Blockad.Model.Subprocess
import Blockad.Proofs.Subprocess
import Blockad.Lib.Decimal
import Blockad.Proofs.Settings
import Blockad.Proofs.Ledger
import Blockad.Proofs.Verdicts
import Blockad.Proofs.Response
import Blockad.Proofs.Configurations
import Blockad.Proofs.Logfile
import Blockad.Proofs.Appends
import Blockad.Proofs.Quiescence
import Blockad.Proofs.Exemptions
