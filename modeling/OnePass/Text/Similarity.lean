namespace OnePass.Text

/-- The number of characters in which two texts agree from their start. -/
def commonStart : List Char → List Char → Nat
  | a :: left, b :: right => if a = b then commonStart left right + 1 else 0
  | _, _ => 0

/-- A block that two texts share, by its place in each and its size. -/
structure Block where
  left : Nat
  right : Nat
  size : Nat

/-- The longest common block; of several, the one that starts first in the left
text, then first in the right one. -/
def longestBlock (left right : List Char) : Block :=
  let places := (List.range left.length).flatMap fun i =>
    (List.range right.length).map fun j =>
      Block.mk i j (commonStart (left.drop i) (right.drop j))
  places.foldl (fun best block => if best.size < block.size then block
    else best) ⟨0, 0, 0⟩

/-- The characters shared in the longest common block and on its two sides. Each
side is shorter, so the left text's length bounds the depth. -/
def sharedWithin : Nat → List Char → List Char → Nat
  | 0, _, _ => 0
  | depth + 1, left, right =>
      let block := longestBlock left right
      if block.size = 0 then 0
      else
        sharedWithin depth (left.take block.left)
          (right.take block.right) + block.size +
          sharedWithin depth (left.drop (block.left + block.size))
            (right.drop (block.right + block.size))

def shared (left right : List Char) : Nat :=
  sharedWithin left.length left right

/-- A candidate with its likeness `2 * shared / total` to some text. -/
structure Likeness where
  name : String
  shared : Nat
  total : Nat

def Likeness.isClose (l : Likeness) : Bool :=
  3 * l.total ≤ 10 * l.shared

/-- Whether the first is listed before the second: the more alike first, of two
equally alike the later in the alphabet. -/
def Likeness.precedes (l m : Likeness) : Bool :=
  m.shared * l.total < l.shared * m.total ||
    (m.shared * l.total == l.shared * m.total && m.name < l.name)

/-- At most three candidates that are close to the text, in alphabetical order.
-/
def closeMatches (text : String) (candidates : List String) : List String :=
  let likenesses := candidates.map fun name =>
    Likeness.mk name (shared name.toList text.toList)
      (name.length + text.length)
  let best :=
    ((likenesses.filter Likeness.isClose).mergeSort Likeness.precedes).take 3
  (best.map Likeness.name).mergeSort (fun a b => a ≤ b)

end OnePass.Text
