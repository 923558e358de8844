import OnePass.Compile.Compiler
import OnePass.Text.Control

/-!
What the command finds around it: the channels that it prints to, and how deep
it may go down into a text. It relies on no more than that a channel shows a
text without escape characters as it is.
-/

namespace OnePass.Command

structure Channel where
  /-- What is shown of a text that is printed. -/
  shown : String → String
  shown_of_plain : ∀ text : String, '\x1b' ∉ text.toList → shown text = text

namespace Channel

/-- A terminal is sent everything. -/
def terminal : Channel where
  shown text := text
  shown_of_plain _ _ := rfl

/-- Where a text does not go to a terminal, there is no use for control
sequences. -/
def pipe : Channel where
  shown := Text.withoutControl
  shown_of_plain _ := Text.withoutControl_of_not_mem

end Channel

structure Host where
  out : Channel
  err : Channel
  /-- How many levels a text may nest. Where events are logged, there may be
  less room. -/
  levels : (logs : Bool) → Source → Nat

end OnePass.Command
