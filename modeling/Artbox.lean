import Artbox.Lib.Machine
import Artbox.Lib.Bytes
import Artbox.Lib.Slots
import Artbox.Lib.Trace
import Artbox.Lib.Edit
import Artbox.Lib.Checked
import Artbox.Lib.Overflow
import Artbox.Binder.Wire
import Artbox.Binder.Arena
import Artbox.Binder.State
import Artbox.Binder.Objects
import Artbox.Binder.Transfer
import Artbox.Binder.Receive
import Artbox.Binder.Ioctl
import Artbox.Binder.System
import Artbox.Binder.View
import Artbox.Binder.Steps
import Artbox.Binder.Identity
import Artbox.Binder.Accounting
import Artbox.Binder.Claims
import Artbox.Binder.Commands
import Artbox.Binder.Queue
import Artbox.Binder.Calls
import Artbox.Binder.Payload
import Artbox.Binder.Parcels
import Artbox.Binder.Buffers
import Artbox.Binder.Handling
import Artbox.Binder.Traffic
import Artbox.Binder.Ledger
import Artbox.Binder.Runs
import Artbox.Binder.References
import Artbox.Binder.Refusals
import Artbox.Binder.Framing
import Artbox.Binder.ObjectTables
import Artbox.Binder.BestFit
import Artbox.Binder.Isolation
import Artbox.Binder.Manager
import Artbox.Binder.Settled
import Artbox.Binder.Owners
import Artbox.Binder.Links
import Artbox.Binder.Deaths
import Artbox.Binder.Delivery
import Artbox.Binder.Agreement
import Artbox.Binder.Teardown
import Artbox.Binder.Notices
import Artbox.Binder.Oneway
import Artbox.Binder.Succession
import Artbox.Binder.Turns
import Artbox.Binder.Returns
import Artbox.Binder.Waiting
import Artbox.Futex.Model
import Artbox.Futex.Queue
import Artbox.Futex.Ledger
import Artbox.Futex.Accounting
import Artbox.Futex.Deadlines
import Artbox.Vm.Gate
import Artbox.Signals.Model
import Artbox.Signals.Bits
import Artbox.Signals.Steps
import Artbox.Signals.Counting
import Artbox.Signals.Stranding
import Artbox.Signals.Notification
import Artbox.Vfs.Model
import Artbox.Vfs.Steps
import Artbox.Vfs.Eventfd
import Artbox.Vfs.Interests
import Artbox.Vfs.Wakeups
import Artbox.Vfs.Timers
import Artbox.Threads.Model
import Artbox.Threads.Lifecycle
import Artbox.Threads.Starts
import Artbox.Elf.Image
import Artbox.Elf.WellFormed
import Artbox.Elf.Dynamic
import Artbox.Elf.Bounds
import Artbox.Elf.Lookup
import Artbox.Elf.Relocation
import Artbox.Elf.Plan
import Artbox.Elf.Relocated
import Artbox.Binder.Reading
import Artbox.Binder.Readiness
import Artbox.Binder.Replies
import Artbox.Lib.Layout
import Artbox.Lib.Traversal
import Artbox.Signals.Frame
import Artbox.Linker.Model
import Artbox.Linker.Scope
import Artbox.Linker.Lookup
import Artbox.Linker.Relocation
import Artbox.Lib.Rounds
import Artbox.Vfs.Fairness
import Artbox.Lib.Linearization
import Artbox.Signals.Actions
import Artbox.Signals.ActionOrder
import Artbox.Lib.FirstFit
import Artbox.Vm.Space
import Artbox.Vm.Regions
import Artbox.Vm.Operations
import Artbox.Vm.Window
import Artbox.Lib.Lockstep
import Artbox.Vm.Memory
import Artbox.Signals.Procmask
import Artbox.Lib.Segments
import Artbox.Files.Path
import Artbox.Files.Model
import Artbox.Files.Confinement
import Artbox.Files.Suffixes
import Artbox.Files.Transfer
import Artbox.Managed.Reference
import Artbox.Lib.Require
import Artbox.Pack.Wrapper
import Artbox.Pack.LoadImage
import Artbox.Pack.Mapping
import Artbox.Lib.Words
import Artbox.Lib.A64
import Artbox.Lib.Pace
import Artbox.Pack.Text
import Artbox.Pack.Rewrite
import Artbox.Pack.Veneer
import Artbox.Pack.Simulation
import Artbox.Lib.Holdings
import Artbox.Vm.Moves
import Artbox.Vm.Accounts
import Artbox.Vm.Watches
import Artbox.Vm.Native
import Artbox.Vm.Borrowed
import Artbox.Vm.PageMap
import Artbox.Vm.Refinement
import Artbox.Vm.Queries
import Artbox.Linker.Lifecycle
import Artbox.Linker.Dlfcn
import Artbox.Linker.Handles
import Artbox.Linker.Symbols
import Artbox.Binder.Splitting
import Artbox.Binder.Callbacks
import Artbox.Binder.Carriage
import Artbox.Binder.Forwarding
import Artbox.Files.Handles
