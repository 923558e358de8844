namespace OnePass.Text

/-- A text of `n` spaces. -/
def spaces (n : Nat) : String :=
  String.ofList (List.replicate n ' ')

/-- The text at the left of a field of `width` characters. -/
def alignLeft (width : Nat) (text : String) : String :=
  text ++ spaces (width - text.length)

/-- The text at the right of a field of `width` characters. -/
def alignRight (width : Nat) (text : String) : String :=
  spaces (width - text.length) ++ text

/-- A decimal in a field of `width` characters, filled up with zeros after the
sign. -/
def zeroFilled (width : Nat) : Int → String
  | .ofNat n => zeros width n ++ n.repr
  | .negSucc n => "-" ++ zeros (width - 1) (n + 1) ++ (n + 1).repr
where
  zeros (width n : Nat) : String :=
    String.ofList (List.replicate (width - n.repr.length) '0')

end OnePass.Text
