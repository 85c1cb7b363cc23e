import PaeKernel.Interrupt.Registry

/-!
# Stock handlers

Four small handlers that between them use everything a handler may do.
-/

namespace PaeKernel

/-- A stock handler. -/
inductive StockHandler where
  | count
  | mix
  | forward
  | rearm
  deriving Repr, DecidableEq

namespace StockHandler

/-- The number of a stock handler. -/
def toNat : StockHandler → Nat
  | .count => 1
  | .mix => 2
  | .forward => 3
  | .rearm => 4

/-- The stock handler with a number. -/
def ofNat? : Nat → Option StockHandler
  | 1 => some .count
  | 2 => some .mix
  | 3 => some .forward
  | 4 => some .rearm
  | _ => none

/-- What a stock handler does: `count` adds one to a register, `mix` joins the error code and the
instruction pointer, `forward` dispatches the frame again under the vector that waits in a register,
and `rearm` makes `count` the handler of a vector. -/
def routine : StockHandler → Routine StockHandler
  | .count => .change (fun f => { f with eax := f.eax + 1 }) .done
  | .mix => .change (fun f => { f with ecx := f.errorCode ^^^ f.eip }) .done
  | .forward =>
    .change (fun f => { f with vector := f.eax, eax := f.ebx, ebx := 0 })
      (.dispatch fun _ => .done)
  | .rearm => .look fun f => .register f.edx.toUInt8 .count fun _ => .done

end StockHandler

/-- How many dispatches may be inside one another in a run; any bound would do. -/
def dispatchDepth : Nat := 256

end PaeKernel
