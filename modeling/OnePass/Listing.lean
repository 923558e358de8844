import OnePass.Program
import OnePass.Text.Blank
import OnePass.Variable

/-!
Listings of code. A listing is tolerant: a word that is no opcode, or an opcode
whose operand is cut off, takes a line of its own and reading goes on behind it.
-/

namespace OnePass

/-- One instruction as it is listed. -/
structure ListingLine where
  offset : Nat
  opcode : Option Opcode
  mnemonic : String
  operand : Option Int
  operandText : String
  size : Nat
  comment : String
deriving DecidableEq

namespace ListingLine

/-- The text of a line with the given columns; without a comment nothing follows
the operand. -/
def layout (offset : Int) (mnemonic operandText comment : String) : String :=
  let instruction :=
    String.ofList (Text.trimEnd
      (Text.alignLeft 6 mnemonic ++ " " ++ operandText).toList)
  if comment = "" then s!"{Text.zeroFilled 4 offset}: {instruction}"
  else s!"{Text.zeroFilled 4 offset}: {Text.alignLeft 20 instruction} ; {comment}"

def text (l : ListingLine) : String :=
  layout l.offset l.mnemonic l.operandText l.comment

/-- The text of an operand, and the comment on it. Jumps are told apart by their
direction. -/
def describeOperand (size offset : Nat) (kind : OperandKind) (operand : Int) :
    Except Text.TooLong (String × String) :=
  match kind with
  | .variable =>
      match Variable.ofSlot? operand with
      | some v => .ok (String.singleton v.letter, "")
      | none =>
          (Text.decimal operand).map fun digits =>
            (s!"${digits}", "bad variable slot")
  | .constant => (Text.decimal operand).map fun digits => (s!"#{digits}", "")
  | .address =>
      if isShown size operand then
        .ok (s!"@{Text.zeroFilled 4 operand}", if operand ≤ offset then "loop"
          else "forward")
      else .error ⟨⟩
  | .none => .ok ("", "")

/-- The line of the word at an offset in code of the given size, given the words
behind it. -/
def ofWords (size offset : Nat) (word : Int) (rest : List Int) :
    Except Text.TooLong ListingLine :=
  match Opcode.ofWord? word with
  | none =>
      (Text.decimal word).map fun digits =>
        ⟨offset, none, "???", none, digits, 1, "unknown opcode"⟩
  | some op =>
      if op.operandKind = .none then
        .ok ⟨offset, some op, op.mnemonic, none, "", 1, ""⟩
      else
        match rest with
        | [] => .ok ⟨offset, some op, op.mnemonic, none, "", 1, "truncated"⟩
        | operand :: _ =>
            (describeOperand size offset op.operandKind operand).map
              fun (text, comment) =>
              ⟨offset, some op, op.mnemonic, some operand, text, op.size,
                comment⟩

end ListingLine

/-- The lines of a sequence of words that starts at the given offset of code of
the given size. -/
def listWords (size offset : Nat) :
    List Int → Except Text.TooLong (List ListingLine)
  | [] => .ok []
  | [word] => (ListingLine.ofWords size offset word []).map fun line => [line]
  | word :: second :: rest => do
      let line ← ListingLine.ofWords size offset word (second :: rest)
      let lines ←
        if line.size = 1 then listWords size (offset + 1) (second :: rest)
        else listWords size (offset + 2) rest
      return line :: lines

namespace Program

/-- Why there is no line for an offset. -/
inductive NoLine where
  | beyondEnd (offset : Int) (size : Nat)
  | tooLong (e : Text.TooLong)

def NoLine.message : NoLine → String
  | .beyondEnd offset size =>
      match Text.decimal offset with
      | .ok digits => s!"Offset {digits} beyond program length {size}"
      | .error e => e.message
  | .tooLong e => e.message

/-- The line of whatever stands at an offset. -/
def lineAt (p : Program) (offset : Int) : Except NoLine ListingLine :=
  if offset < 0 then .error (.beyondEnd offset p.size)
  else
    match p.code.toList.drop offset.toNat with
    | [] => .error (.beyondEnd offset p.size)
    | word :: rest =>
        (ListingLine.ofWords p.size offset.toNat word rest).mapError .tooLong

/-- The lines of a program in order. There are none if a word that they show is
too long. -/
def listingLines (p : Program) : Except Text.TooLong (List ListingLine) :=
  listWords p.size 0 p.code.toList

def listing (p : Program) : Except Text.TooLong String :=
  p.listingLines.map fun lines => Text.joinLines (lines.map ListingLine.text)

end Program

end OnePass
