import OnePass.Text.Decimal
import OnePass.Text.Quoted
import OnePass.Word

namespace OnePass

/-- A variable is its slot in the table. -/
abbrev Variable := Fin 26

namespace Variable

def letter (v : Variable) : Char :=
  Char.ofNat ('a'.toNat + v.val)

def ofLetter? (c : Char) : Option Variable :=
  if h : 'a'.toNat ≤ c.toNat ∧
    c.toNat - 'a'.toNat < 26 then some ⟨c.toNat - 'a'.toNat, h.2⟩
  else none

def ofName? (name : String) : Option Variable :=
  match name.toList with
  | [c] => ofLetter? c
  | _ => none

def ofSlot? (slot : Int) : Option Variable :=
  if h : 0 ≤ slot ∧ slot.toNat < 26 then some ⟨slot.toNat, h.2⟩ else none

/-- A request for a variable that there is not. -/
inductive Unknown where
  | noSuchName (text : String)
  | noSuchSlot (slot : Int)

def Unknown.message : Unknown → String
  | .noSuchName text => s!"not a variable name: {Text.quoted text}"
  | .noSuchSlot slot =>
      match Text.decimal slot with
      | .ok digits => s!"variable slot out of range: {digits}"
      | .error tooLong => tooLong.message

/-- The line that shows a variable with its value. -/
def assignmentLine (v : Variable) (value : Int) : String :=
  s!"{v.letter} = {value}"

/-- Why a list of values has no lines. -/
inductive Unlisted where
  | unknown (e : Unknown)
  | tooLong (e : Text.TooLong)

def Unlisted.message : Unlisted → String
  | .unknown e => e.message
  | .tooLong e => e.message

/-- The lines of the values that are not zero, the first value being in the
given slot. -/
def assignmentLinesFrom (slot : Nat) : List Int → Except Unlisted (List String)
  | [] => .ok []
  | value :: rest =>
      if value = 0 then assignmentLinesFrom (slot + 1) rest
      else
        match ofSlot? slot with
        | none => .error (.unknown (.noSuchSlot slot))
        | some v =>
            if Text.isShort value then
              (assignmentLinesFrom (slot + 1) rest).map
                (assignmentLine v value :: ·)
            else .error (.tooLong ⟨⟩)

/-- The lines of a list of values that need not have the length of a table, and
need not be words. -/
def assignmentLines (values : List Int) : Except Unlisted (List String) :=
  assignmentLinesFrom 0 values

end Variable

/-- The values of all variables. -/
abbrev Table := Vector Int 26

namespace Table

def zero : Table := Vector.replicate 26 0

def value (table : Table) (v : Variable) : Int :=
  table.get v

/-- The table with a new value for one variable. -/
def assign (table : Table) (v : Variable) (n : Int) : Table :=
  table.set v.val n v.isLt

/-- A list that has not one value for each variable. -/
structure WrongSize where
  size : Nat

def WrongSize.message (e : WrongSize) : String :=
  s!"expected 26 variables, got {e.size}"

/-- The table of the given values, each taken into the range of words. -/
def ofValues (values : List Int) : Except WrongSize Table :=
  let words := (values.map Word.wrap).toArray
  if h : words.size = 26 then .ok ⟨words, h⟩ else .error ⟨values.length⟩

/-- The lines of the variables that are not zero, in alphabetical order. -/
def lines (table : Table) : List String :=
  (List.finRange 26).filterMap fun v =>
    if table.value v = 0 then none
      else some (Variable.assignmentLine v (table.value v))

end Table

end OnePass
