/-!
# Random draws

Where random reals come from is up to the host: a run is given the whole sequence that it draws
from. Nothing is assumed about the sequence, so what holds of all runs holds whatever they draw.
-/

namespace TagScript

/-- An endless sequence of reals. -/
def RealSequence : Type :=
  Nat → Float

structure Draws where
  /-- The reals that are still to be drawn; hosts take them from zero up to but not including
  one. -/
  ahead : RealSequence := fun _ => 0.0

namespace Draws

/-- The next real of the sequence, and what is then still to be drawn. -/
def next (d : Draws) : Float × Draws :=
  (d.ahead 0, ⟨fun position => d.ahead (position + 1)⟩)

end Draws

end TagScript
