import OnePass.Tree.Basic

namespace OnePass.Tree

namespace Statement

/-- Gives an open statement an `else` behind it: the innermost condition at its
end takes it. -/
def attachElse : Statement → Statement → Statement
  | .ifThen c s, t =>
      if s.isOpen then .ifThen c (s.attachElse t) else .ifElse c s t
  | .ifElse c s s', t => .ifElse c s (s'.attachElse t)
  | .whileDo c s, t => .whileDo c (s.attachElse t)
  | s, _ => s

theorem tokens_attachElse : ∀ (s t : Statement), s.isOpen = true →
    (s.attachElse t).tokens = s.tokens ++ .elseWord :: t.tokens
  | .ifThen c s, t, _ => by
      rw [attachElse]
      split
      · rename_i hopen
        simp [tokens, tokens_attachElse s t hopen]
      · simp [tokens]
  | .ifElse c s s', t, hopen => by
      simp [attachElse, tokens, tokens_attachElse s' t hopen]
  | .whileDo c s, t, hopen => by
      simp [attachElse, tokens, tokens_attachElse s t hopen]
  | .doWhile _ _, _, hopen => by cases hopen
  | .block _, _, hopen => by cases hopen
  | .expression _, _, hopen => by cases hopen
  | .empty, _, hopen => by cases hopen

theorem elseNearest_attachElse :
    ∀ (s t : Statement), s.isOpen = true → s.ElseNearest →
      t.ElseNearest → (s.attachElse t).ElseNearest
  | .ifThen c s, t, _, hs, ht => by
      rw [attachElse]
      split
      · rename_i hopen
        exact elseNearest_attachElse s t hopen hs ht
      · rename_i hclosed
        exact ⟨by simpa using hclosed, hs, ht⟩
  | .ifElse c s s', t, hopen, hs, ht =>
      ⟨hs.1, hs.2.1, elseNearest_attachElse s' t hopen hs.2.2 ht⟩
  | .whileDo c s, t, hopen, hs, ht => elseNearest_attachElse s t hopen hs ht
  | .doWhile _ _, _, hopen, _, _ => by cases hopen
  | .block _, _, hopen, _, _ => by cases hopen
  | .expression _, _, hopen, _, _ => by cases hopen
  | .empty, _, hopen, _, _ => by cases hopen

end Statement

mutual

/-- The tree with every `else` moved to the nearest condition. -/
def Statement.bindElse : Statement → Statement
  | .ifThen c s => .ifThen c s.bindElse
  | .ifElse c s t =>
      if s.bindElse.isOpen then .ifThen c (s.bindElse.attachElse t.bindElse)
      else .ifElse c s.bindElse t.bindElse
  | .whileDo c s => .whileDo c s.bindElse
  | .doWhile s c => .doWhile s.bindElse c
  | .block b => .block b.bindElse
  | .expression e => .expression e
  | .empty => .empty

def Block.bindElse : Block → Block
  | .nil => .nil
  | .cons s rest => .cons s.bindElse rest.bindElse

end

mutual

theorem Statement.tokens_bindElse :
    ∀ s : Statement, s.bindElse.tokens = s.tokens
  | .ifThen c s => by
      simp [Statement.bindElse, Statement.tokens, s.tokens_bindElse]
  | .ifElse c s t => by
      rw [Statement.bindElse]
      split
      · rename_i hopen
        simp [Statement.tokens, Statement.tokens_attachElse _ _ hopen,
          s.tokens_bindElse, t.tokens_bindElse]
      · simp [Statement.tokens, s.tokens_bindElse, t.tokens_bindElse]
  | .whileDo c s => by
      simp [Statement.bindElse, Statement.tokens, s.tokens_bindElse]
  | .doWhile s c => by
      simp [Statement.bindElse, Statement.tokens, s.tokens_bindElse]
  | .block b => by
      simp [Statement.bindElse, Statement.tokens, b.tokens_bindElse]
  | .expression e => by simp [Statement.bindElse]
  | .empty => by simp [Statement.bindElse]

theorem Block.tokens_bindElse : ∀ b : Block, b.bindElse.tokens = b.tokens
  | .nil => by simp [Block.bindElse]
  | .cons s rest => by
      simp [Block.bindElse, Block.tokens, s.tokens_bindElse,
        rest.tokens_bindElse]

end

mutual

theorem Statement.elseNearest_bindElse : ∀ s : Statement, s.bindElse.ElseNearest
  | .ifThen c s => by
      simpa [Statement.bindElse,
        Statement.ElseNearest] using s.elseNearest_bindElse
  | .ifElse c s t => by
      rw [Statement.bindElse]
      split
      · rename_i hopen
        exact Statement.elseNearest_attachElse _ _ hopen s.elseNearest_bindElse
          t.elseNearest_bindElse
      · rename_i hclosed
        exact ⟨by simpa using hclosed, s.elseNearest_bindElse,
          t.elseNearest_bindElse⟩
  | .whileDo c s => by
      simpa [Statement.bindElse,
        Statement.ElseNearest] using s.elseNearest_bindElse
  | .doWhile s c => by
      simpa [Statement.bindElse,
        Statement.ElseNearest] using s.elseNearest_bindElse
  | .block b => by
      simpa [Statement.bindElse,
        Statement.ElseNearest] using b.elseNearest_bindElse
  | .expression e => by simp [Statement.bindElse, Statement.ElseNearest]
  | .empty => by simp [Statement.bindElse, Statement.ElseNearest]

theorem Block.elseNearest_bindElse : ∀ b : Block, b.bindElse.ElseNearest
  | .nil => by simp [Block.bindElse, Block.ElseNearest]
  | .cons s rest => by
      simpa [Block.bindElse, Block.ElseNearest] using
        ⟨s.elseNearest_bindElse, rest.elseNearest_bindElse⟩

end

end OnePass.Tree
