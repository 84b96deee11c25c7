import TernaryConsole.Main
import TernaryConsole.Proofs.CallStack
import TernaryConsole.Proofs.Isolation
import TernaryConsole.Proofs.Codec
import TernaryConsole.Proofs.Bounds
import TernaryConsole.Proofs.LaunchQueue
import TernaryConsole.Proofs.TritC.Containment
import TernaryConsole.Proofs.Image
import TernaryConsole.Proofs.Cli.Execution
import TernaryConsole.Proofs.Desktop
import TernaryConsole.Proofs.Ports
import TernaryConsole.Proofs.Cli.Desktop
import TernaryConsole.Proofs.Cli.FrameLimit
import TernaryConsole.Proofs.TritC.Operands
import TernaryConsole.Proofs.TritC.Answers
import TernaryConsole.Proofs.TritC.Edits
import TernaryConsole.Proofs.TritC.Inert
import TernaryConsole.Proofs.Ring
import TernaryConsole.Proofs.Fill
import TernaryConsole.Proofs.Listing
import TernaryConsole.Proofs.IconGrid
import TernaryConsole.Proofs.Rect
import TernaryConsole.Proofs.Installation
import TernaryConsole.Proofs.Literal
import TernaryConsole.Proofs.FailedLaunch
import TernaryConsole.Proofs.Lossless
import TernaryConsole.Proofs.Output
import TernaryConsole.Proofs.Cli.Compilation
