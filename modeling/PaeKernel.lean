import PaeKernel.Word
import PaeKernel.Exec
import PaeKernel.Numeral
import PaeKernel.LittleEndian
import PaeKernel.Memory
import PaeKernel.Log
import PaeKernel.Address.Align
import PaeKernel.Address.Physical
import PaeKernel.Address.Virtual
import PaeKernel.Register.Field
import PaeKernel.Register.Control
import PaeKernel.Heap.Error
import PaeKernel.Heap.Block
import PaeKernel.Heap.Space
import PaeKernel.Heap.Basic
import PaeKernel.Heap.Setup
import PaeKernel.Heap.Allocation
import PaeKernel.Heap.Audit
import PaeKernel.Heap.Allocator
import PaeKernel.Heap.Sound
import PaeKernel.Boot.Image
import PaeKernel.Boot.MemoryMap
import PaeKernel.Boot.Info
import PaeKernel.Boot.Entry
import PaeKernel.Boot.Placement
import PaeKernel.Paging.Entry
import PaeKernel.Paging.Fault
import PaeKernel.Paging.Table
import PaeKernel.Paging.Frames
import PaeKernel.Paging.Backing
import PaeKernel.Paging.Draft
import PaeKernel.Paging.Walk
import PaeKernel.Paging.Pager
import PaeKernel.Paging.PageMap
import PaeKernel.Lock.Spin
import PaeKernel.Lock.Holder
import PaeKernel.Interrupt.Gate
import PaeKernel.Interrupt.TrapFrame
import PaeKernel.Interrupt.Registry
import PaeKernel.Interrupt.Stock
import PaeKernel.Interrupt.Kernel
import PaeKernel.Proofs.Heap.Cells
import PaeKernel.Proofs.Heap.Edits
import PaeKernel.Proofs.Heap.Steps
import PaeKernel.Proofs.Heap.Walk
import PaeKernel.Proofs.Heap.Spaces
import PaeKernel.Proofs.Heap.Operations
import PaeKernel.Proofs.Heap.Setup
import PaeKernel.Proofs.Heap.Audit
import PaeKernel.Proofs.Heap.Payloads
import PaeKernel.Proofs.Heap.ClientWrites
import PaeKernel.Proofs.Heap.Run
import PaeKernel.Proofs.Heap.Isolation
import PaeKernel.Proofs.Heap.Canonical
import PaeKernel.Proofs.Heap.ReleaseOrder
import PaeKernel.Proofs.Heap.Exactness
import PaeKernel.Proofs.Heap.BlockLists
import PaeKernel.Proofs.Heap.FirstFit
import PaeKernel.Proofs.Heap.Checked
import PaeKernel.Proofs.Heap.Containment
import PaeKernel.Proofs.Heap.Classification
import PaeKernel.Proofs.Heap.Undo
import PaeKernel.Proofs.Heap.Acceptance
import PaeKernel.Proofs.Heap.Reallocation
import PaeKernel.Proofs.Heap.AllocatorRun
import PaeKernel.Proofs.Heap.SizeLimit
import PaeKernel.Proofs.Lock.Exclusion
import PaeKernel.Proofs.Interrupt.Nesting
import PaeKernel.Proofs.Address.Rounding
import PaeKernel.Proofs.Boot.Grammar
import PaeKernel.Proofs.Paging.Contents
import PaeKernel.Proofs.Paging.Tree
import PaeKernel.Proofs.Paging.Drafts
import PaeKernel.Proofs.Paging.Hierarchy
import PaeKernel.Proofs.Paging.Init
import PaeKernel.Proofs.Paging.Refinement
import PaeKernel.Proofs.Paging.Levels
import PaeKernel.Proofs.Paging.Supply
import PaeKernel.Proofs.Paging.AnyOrder
import PaeKernel.Proofs.Paging.Linking
import PaeKernel.Proofs.Paging.Spending
import PaeKernel.Proofs.Paging.WellFormed
import PaeKernel.Proofs.Paging.RootCache
import PaeKernel.Proofs.Paging.Footprint
import PaeKernel.Proofs.Paging.Stock
import PaeKernel.Proofs.Paging.Exhaustion
import PaeKernel.Proofs.Paging.FrameOrder
import PaeKernel.Proofs.Paging.LargePages
import PaeKernel.Proofs.Boot.Placement
import PaeKernel.Proofs.Boot.HeapRange
import PaeKernel.Proofs.Boot.Confinement
