/-!
Control sequences of a terminal. Such a sequence is an escape character and an
opening bracket, then any number of parameters, which are digits, semicolons and
question marks, and then one letter. A text without them sets no colour and
moves no cursor.
-/

namespace OnePass.Text

def isParameter (c : Char) : Bool :=
  c.isDigit || c = ';' || c = '?'

/-- How many characters the parameters and the letter take up, if the text
starts with them. -/
def parametersLength? : List Char → Option Nat
  | [] => none
  | c :: rest =>
      if c.isAlpha then some 1
      else if isParameter c then (parametersLength? rest).map (· + 1)
      else none

/-- How many characters follow the escape character of a control sequence, if
the text starts with one. -/
def controlLength? : List Char → Option Nat
  | '\x1b' :: '[' :: rest => (parametersLength? rest).map (· + 1)
  | _ => none

/-- The text without its control sequences, once the given number of characters
is skipped. Sequences are looked for in the given text only: one that the
removal of others puts together stays. -/
def skipControl : Nat → List Char → List Char
  | _, [] => []
  | skipped + 1, _ :: rest => skipControl skipped rest
  | 0, c :: rest =>
      match controlLength? (c :: rest) with
      | some length => skipControl length rest
      | none => c :: skipControl 0 rest

def withoutControl (text : String) : String :=
  String.ofList (skipControl 0 text.toList)

theorem skipControl_of_not_mem {text : List Char} (h : '\x1b' ∉ text) :
    skipControl 0 text = text := by
  induction text with
  | nil => rfl
  | cons c rest ih =>
      rw [List.mem_cons, not_or] at h
      have hnone : controlLength? (c :: rest) = none := by
        unfold controlLength?
        split
        · rename_i heq
          exact absurd (List.cons.inj heq).1.symm h.1
        · rfl
      rw [skipControl, hnone]
      exact congrArg (c :: ·) (ih h.2)

theorem withoutControl_of_not_mem {text : String} (h : '\x1b' ∉ text.toList) :
    withoutControl text = text := by
  rw [withoutControl, skipControl_of_not_mem h, String.ofList_toList]

end OnePass.Text
