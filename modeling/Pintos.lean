import Pintos.Children.Failures
import Pintos.Children.Wait
import Pintos.Devices.Partition
import Pintos.Devices.Rtc
import Pintos.Devices.Waiting
import Pintos.Files.Buffers
import Pintos.Files.Lifetime
import Pintos.Files.Numbers
import Pintos.Filesys.Contents
import Pintos.Filesys.References
import Pintos.Kernel.HashSet
import Pintos.Kernel.LoaderArgs
import Pintos.Kernel.Options
import Pintos.Library.Acceptance
import Pintos.Library.Memmove
import Pintos.Library.Printf
import Pintos.Library.Search
import Pintos.Memory.Pagedir
import Pintos.Memory.Runs
import Pintos.Threads.Chain
import Pintos.Threads.Contention
import Pintos.Threads.FixedPoint
import Pintos.Threads.Membership
import Pintos.Threads.Monitor
import Pintos.Threads.Semaphore
import Pintos.Threads.Sleep
import Pintos.Threads.Strict
import Pintos.Userprog.AllList
import Pintos.Userprog.Creation
import Pintos.Userprog.ExitCode
import Pintos.Userprog.Exiter
import Pintos.Userprog.MainExit
import Pintos.Userprog.Segments
import Pintos.Userprog.Stacks
