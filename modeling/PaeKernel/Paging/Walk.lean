import PaeKernel.Address.Virtual
import PaeKernel.Paging.Table

/-!
# Walking the tables

A virtual address is translated by a walk from a root table over a directory and a table to a page;
a directory entry may also map a large page itself. `walk` starts from a root entry, wherever that
was read, and `translate` from the one in memory.
-/

namespace PaeKernel

/-- Physical memory as the kernel sees it: address zero appears at `window`. -/
structure PhysicalView where
  window : Nat
  memory : Memory

namespace PhysicalView

/-- Where a frame appears. -/
def place (v : PhysicalView) (frame : PhysicalAddress) : Nat := v.window + frame.toNat

/-- Walks from an entry of the root table on. -/
def walk (v : PhysicalView) (top : RootEntry) (a : VirtualAddress) : Option PhysicalAddress :=
  if top.present then
    let middle := Table.entry v.memory (v.place top.directory) a.pdIndex
    if middle.present then
      if middle.largePage then some (.ofNat (middle.frame.toNat + a.largePageOffset))
      else
        let leaf := Table.entry v.memory (v.place middle.frame) a.ptIndex
        if leaf.present then some (.ofNat (leaf.frame.toNat + a.pageOffset)) else none
    else none
  else none

/-- The physical address that a virtual address stands for. -/
def translate (v : PhysicalView) (root : PhysicalAddress) (a : VirtualAddress) :
    Option PhysicalAddress :=
  v.walk (Table.rootEntry v.memory (v.place root) a.pdptIndex) a

end PhysicalView

end PaeKernel
