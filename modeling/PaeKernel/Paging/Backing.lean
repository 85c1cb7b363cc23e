import PaeKernel.Address.Virtual

/-!
# Backing frames

A backing decides which frame a page gets when it is first touched. It may have a state of its own.
-/

namespace PaeKernel

/-- A policy for the frames behind pages. -/
class Backing (β : Type) where
  frameFor : VirtualAddress → Exec β (Option PhysicalAddress)

/-- Every page gets the frame of the same number. -/
structure IdentityBacking where
  deriving DecidableEq

instance : Backing IdentityBacking where
  frameFor page := return some page.pageBase.identity

/-- Every page gets the frame so many bytes above it. -/
structure OffsetBacking where
  distance : Nat
  deriving DecidableEq

instance : Backing OffsetBacking where
  frameFor page := do
    let distance ← Exec.view OffsetBacking.distance
    return some (← Exec.check (page.identity.add distance))

/-- Pages get the frames of a list, one after another, until it is used up. -/
structure ListBacking where
  frames : List PhysicalAddress
  deriving DecidableEq

instance : Backing ListBacking where
  frameFor _ := do
    match ← Exec.view ListBacking.frames with
    | [] => return none
    | frame :: rest =>
      Exec.update fun _ => ⟨rest⟩
      return some frame

end PaeKernel
