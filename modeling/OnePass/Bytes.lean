import OnePass.Program

namespace OnePass

/-- The last `count` digits of `n` to base 256, the most significant first. -/
def bigEndian : Nat → Nat → List UInt8
  | 0, _ => []
  | count + 1, n => bigEndian count (n / 256) ++ [UInt8.ofNat n]

/-- The number with the given digits to base 256, the most significant first. -/
def ofBigEndian (bytes : List UInt8) : Nat :=
  bytes.foldl (fun n b => 256 * n + b.toNat) 0

/-- The eight bytes of a word. -/
def wordBytes (w : Int) : List UInt8 :=
  bigEndian 8 (w % Word.modulus).toNat

/-- The word that eight bytes stand for. -/
def ofWordBytes (bytes : List UInt8) : Int :=
  Word.wrap (ofBigEndian bytes)

/-- A word that eight bytes cannot hold. -/
structure WordTooLarge where
  word : Int

def WordTooLarge.message (_ : WordTooLarge) : String :=
  "int too large to convert"

/-- The bytes of a sequence of words. -/
def writeWords : List Int → Except WordTooLarge (List UInt8)
  | [] => .ok []
  | word :: rest =>
      if Word.InRange word then (writeWords rest).map (wordBytes word ++ ·)
      else .error ⟨word⟩

/-- The words of a sequence of bytes; bytes that make no whole word at the end
are left out. -/
def readWords : List UInt8 → List Int
  | a :: b :: c :: d :: e :: f :: g :: h :: rest =>
      ofWordBytes [a, b, c, d, e, f, g, h] :: readWords rest
  | _ => []

namespace Program

def toBytes (p : Program) : Except WordTooLarge (List UInt8) :=
  writeWords p.code.toList

/-- The program that some bytes stand for. Only whole words are read. -/
def ofBytes (bytes : List UInt8) (name : String) : Except CodeFault Program :=
  if bytes.length % 8 = 0 then .ok ⟨(readWords bytes).toArray, name⟩
  else .error ⟨.incompleteWord bytes.length, none⟩

end Program

end OnePass
