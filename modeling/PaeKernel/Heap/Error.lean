import PaeKernel.Numeral

/-!
# Heap errors
-/

namespace PaeKernel

/-- Why the heap refuses a request. -/
inductive HeapError where
  | alreadyInitialized
  | noSpaces
  | tooManySpaces (max : Nat)
  | invalidRange (start stop : Nat)
  | spaceTooLarge (units : Nat)
  | foreignPointer (pointer : Nat)
  | doubleFree (pointer : Nat)
  | corrupt (space unit : Nat) (reason : String)
  deriving Repr, DecidableEq

/-- The text of a heap error. -/
def HeapError.message : HeapError → String
  | .alreadyInitialized => "heap already initialized"
  | .noSpaces => "no heap space given"
  | .tooManySpaces max => s!"more than {max} heap spaces given"
  | .invalidRange start stop =>
    s!"invalid heap range {Numeral.hex start}..{Numeral.hex stop}"
  | .spaceTooLarge units => s!"heap space of {units} units exceeds the block size limit"
  | .foreignPointer pointer =>
    s!"pointer {Numeral.hex pointer} was not handed out by this heap"
  | .doubleFree pointer => s!"pointer {Numeral.hex pointer} is already free"
  | .corrupt space unit reason => s!"heap space {space} corrupt at unit {unit}: {reason}"

end PaeKernel
