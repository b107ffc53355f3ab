import Antagonist.Heap.Canonical
import Antagonist.Boot.PageFrames
import Antagonist.Syscall.Dispatcher
import Antagonist.Boot.Gdt
import Antagonist.Boot.Vmm
import Antagonist.Task.Schedule
import Antagonist.Task.Resume
import Antagonist.Lib.LineEditor
import Antagonist.Shell.Console
import Antagonist.Shell.Keyboard
import Antagonist.Shell.CommandLine
import Antagonist.Lib.Logged
import Antagonist.Pmm.AnyCall
import Antagonist.Task.OutOfMemory
import Antagonist.Shell.Stores
import Antagonist.Shell.Bounds
import Antagonist.Disk.Ata
import Antagonist.Disk.Ideal
import Antagonist.Disk.DataRequest
import Antagonist.Disk.Preempt
import Antagonist.Lib.Stepwise
import Antagonist.Disk.World
import Antagonist.Disk.Vfat
import Antagonist.Syscall.Gate
import Antagonist.Cognition.Pipeline
import Antagonist.Sandbox.Player
import Antagonist.Boot.Ring3
import Antagonist.Heap.FirstFit
import Antagonist.Disk.Timeout
import Antagonist.Shell.Echo
import Antagonist.Shell.Scrollback
import Antagonist.Shell.Polling
import Antagonist.Sandbox.Edge
import Antagonist.Sandbox.Box
import Antagonist.Sandbox.Placement
import Antagonist.Dashboard.Repaint
import Antagonist.Graphics.Raycast
import Antagonist.Boot.Mapped
import Antagonist.Boot.KernelMap
import Antagonist.Heap.Alignment
import Antagonist.Heap.DoubleFree
import Antagonist.Task.Reader
import Antagonist.Boot.Irq
import Antagonist.Boot.Gates
import Antagonist.Boot.Interrupts
import Antagonist.Graphics.Terrain
import Antagonist.Graphics.Particles
import Antagonist.Dashboard.Decimal
import Antagonist.Graphics.EditSeen
import Antagonist.Graphics.Font
import Antagonist.Boot.Start
import Antagonist.Syscall.Storage
import Antagonist.Dashboard.PowerOff
import Antagonist.Graphics.Math3d
import Antagonist.Boot.Panic
import Antagonist.Graphics.Monitor
import Antagonist.Dashboard.Native
import Antagonist.Sandbox.Session
import Antagonist.Task.Loops
