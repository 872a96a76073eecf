import Underling.BenchRun
import Underling.Bookkeeping
import Underling.ByteCount
import Underling.CheckField
import Underling.Collective
import Underling.Commands
import Underling.Cover
import Underling.ExtentsCmp
import Underling.FftAddressing
import Underling.FftLengths
import Underling.FftMemory
import Underling.GlobalMemory
import Underling.GlobalTransform
import Underling.IntProducts
import Underling.Interleaving
import Underling.Options
import Underling.OutOfPlace
import Underling.PeriodicFunction
import Underling.Refusals
import Underling.Reporting
import Underling.Sessions
import Underling.Spectral
import Underling.StorageFlags
import Underling.SupportedPlans
import Underling.SweepOrder
import Underling.Timing
import Underling.Trim
import Underling.Wrappers
