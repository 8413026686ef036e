import UpdiProgrammer.HostTest.LinkCalls
import UpdiProgrammer.HostTest.BlockTransfer
import UpdiProgrammer.HostTest.NvmRun
import UpdiProgrammer.HostTest.Programming
import UpdiProgrammer.Hex.Record
import UpdiProgrammer.Ui.Worker
import UpdiProgrammer.Ui.Availability
import UpdiProgrammer.Updi.Trace
import UpdiProgrammer.Ui.LockEvidence
import UpdiProgrammer.Ui.Release
import UpdiProgrammer.HostTest.NonDestructive
import UpdiProgrammer.HostTest.FlashTrace
import UpdiProgrammer.HostTest.Backlog
import UpdiProgrammer.HostTest.Reconnect
import UpdiProgrammer.HostTest.Abort
import UpdiProgrammer.HostTest.Recovery
import UpdiProgrammer.Updi.Identity
import UpdiProgrammer.Hex.RoundTrip
import UpdiProgrammer.Ui.HexFile
import UpdiProgrammer.Ui.DumpFile
import UpdiProgrammer.Ui.VerifyFile
import UpdiProgrammer.HostTest.RejectedFile
import UpdiProgrammer.Transport.Echo
import UpdiProgrammer.HostTest.ReadyCommands
import UpdiProgrammer.Library.Lockstep
import UpdiProgrammer.Reference.Application
import UpdiProgrammer.Reference.ByteStream
import UpdiProgrammer.Hex.Grammar
import UpdiProgrammer.Hex.Bounds
import UpdiProgrammer.Hex.Meaning
import UpdiProgrammer.Hex.Range
import UpdiProgrammer.Ui.ImageRange
import UpdiProgrammer.Hex.Corruption
import UpdiProgrammer.Hex.Reads
import UpdiProgrammer.Hex.Truncation
import UpdiProgrammer.Ui.WholeLines
import UpdiProgrammer.Transport.Deadline
import UpdiProgrammer.HostTest.VerifyRun
import UpdiProgrammer.HostTest.FuseRun
import UpdiProgrammer.HostTest.ArmedCommand
import UpdiProgrammer.Library.Simulation
import UpdiProgrammer.Ui.AppProgrammer
import UpdiProgrammer.Ui.BridgeProgrammer
import UpdiProgrammer.Reference.Backend
