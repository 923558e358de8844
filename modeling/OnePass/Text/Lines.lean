namespace OnePass.Text

/-- Line feed, vertical tab, form feed, carriage return, the file, group and
record separators, next line, line separator and paragraph separator. -/
def isLineEnd (c : Char) : Bool :=
  c ∈ ['\n', '\x0b', '\x0c', '\r', '\x1c', '\x1d', '\x1e', '\u0085', '\u2028',
    '\u2029']

/-- The lines of a text, without their ends. -/
def lines : List Char → List (List Char)
  | [] => []
  | '\r' :: '\n' :: rest => [] :: lines rest
  | c :: rest =>
      if isLineEnd c then [] :: lines rest
      else
        match lines rest with
        | [] => [[c]]
        | line :: others => (c :: line) :: others

/-- The lines written one below the other, with nothing after the last. -/
def joinLines (lines : List String) : String :=
  "\n".intercalate lines

/-- Every line followed by a line feed. -/
def terminateLines (lines : List String) : String :=
  String.join (lines.map (· ++ "\n"))

/-- The text with a line feed for every carriage return, and one for a carriage
return and the line feed after it. -/
def unifyLineEnds : List Char → List Char
  | [] => []
  | '\r' :: '\n' :: rest => '\n' :: unifyLineEnds rest
  | c :: rest => (if c = '\r' then '\n' else c) :: unifyLineEnds rest

end OnePass.Text
