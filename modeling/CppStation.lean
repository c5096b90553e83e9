import CppStation.Basic
import CppStation.Lib.Bits
import CppStation.Lib.ByteMemory
import CppStation.Lib.Fallible
import CppStation.Lib.Transition
import CppStation.Lib.Fuel
import CppStation.Lib.Nesting
import CppStation.Lib.Framing
import CppStation.Lib.Chain
import CppStation.Lib.Batching
import CppStation.Lib.Interleaving
import CppStation.Lib.Register
import CppStation.Lib.CInt
import CppStation.Lib.ByteLanes
import CppStation.Memory.Map
import CppStation.Memory.Ram
import CppStation.Memory.Dma
import CppStation.Gpu.Renderer
import CppStation.Gpu.Gpu
import CppStation.Bus
import CppStation.Cpu.Instruction
import CppStation.Cpu.State
import CppStation.Cpu.Opcodes
import CppStation.Cpu.Step
import CppStation.Cpu.Effect
import CppStation.Cpu.Run
import CppStation.Cpu.Precise
import CppStation.Cpu.Status
import CppStation.Cpu.DelaySlot
import CppStation.Cpu.ExceptionPc
import CppStation.Cpu.LoadDelay
import CppStation.Memory.ByteView
import CppStation.Cpu.MemoryAccess
import CppStation.Memory.Bounds
import CppStation.Cpu.Bounds
import CppStation.Cpu.CacheIsolation
import CppStation.Cpu.Computational
import CppStation.Cpu.HiLo
import CppStation.Cpu.OverflowTrap
import CppStation.Cpu.Alignment
import CppStation.Cpu.Unaligned
import CppStation.Gpu.Reachable
import CppStation.Gpu.Stream
import CppStation.Gpu.Segmentation
import CppStation.Gpu.Batching
import CppStation.Gpu.Quads
import CppStation.Gpu.Display
import CppStation.Gpu.Parser
import CppStation.Gpu.Rendering
import CppStation.Gpu.StatusRegister
import CppStation.Gpu.Settings
import CppStation.Gpu.Acceptance
import CppStation.Gpu.Visible
import CppStation.Gpu.Reset
import CppStation.Gpu.DisplayMode
import CppStation.Memory.LinkedList
import CppStation.Memory.DmaIdle
import CppStation.Memory.OrderingTable
import CppStation.Memory.DmaRegisters
import CppStation.Memory.DmaInterrupt
import CppStation.Memory.BlockDma
import CppStation.Memory.DmaReturns
import CppStation.Memory.Traffic
import CppStation.Memory.Transfers
import CppStation.Memory.Domain
import CppStation.Memory.DmaHistory
import CppStation.Memory.ProgrammedIo
import CppStation.Memory.Insertion
import CppStation.Cpu.Traffic
import CppStation.Cpu.Boot
import CppStation.Lib.Triple
import CppStation.Cpu.Block
import CppStation.Cpu.Routines
import CppStation.Cpu.DeadRegisters
import CppStation.Cpu.Returns
import CppStation.Cpu.Headless
import CppStation.Cpu.Cop0
import CppStation.Cpu.Encoding
import CppStation.Main
