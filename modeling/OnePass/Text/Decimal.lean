namespace OnePass.Text

/-- How many digits an integer may have to be written out. -/
def digitLimit : Nat := 4300

def isShort (n : Int) : Bool :=
  (Nat.toDigits 10 n.natAbs).length ≤ digitLimit

/-- An integer that should have been written out has too many digits. -/
structure TooLong where
deriving DecidableEq

def TooLong.message (_ : TooLong) : String :=
  "Exceeds the limit (4300 digits) for integer string conversion; " ++
    "use sys.set_int_max_str_digits() to increase the limit"

def decimal (n : Int) : Except TooLong String :=
  if isShort n then .ok s!"{n}" else .error ⟨⟩

end OnePass.Text
