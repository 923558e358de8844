import OnePass.Proofs.ReaderSound

namespace OnePass.Tree

namespace Read

variable {α β : Type} {ts : List Token}

theorem bind_of_ok {x : Read α} {f : α → Read β} {a : α} {middle : List Token}
    (h : x ts = .ok a middle) : (x >>= f) ts = f a middle := by
  change EStateM.bind x f ts = f a middle
  simp only [EStateM.bind, h]

theorem advance_append (t : Token) (ts : List Token) (next : Token)
    (later : List Token) :
    advance (t :: (ts ++ next :: later)) = .ok () (ts ++ next :: later) := by
  cases ts with
  | nil => rfl
  | cons first rest => rfl

theorem expect_append (t : Token) (ts : List Token) (next : Token)
    (later : List Token) :
    expect t (t :: (ts ++ next :: later)) = .ok () (ts ++ next :: later) := by
  rw [expect, look_bind, List.headD_cons, if_pos rfl]
  exact advance_append t ts next later

theorem expect_cons (t next : Token) (later : List Token) :
    expect t (t :: next :: later) = .ok () (next :: later) :=
  expect_append t [] next later

/-- What may follow a sum. -/
def EndsSum (next : Token) : Prop :=
  next.extendsExpression = false ∨ next = .less

theorem termsWithin_eq_of_endsSum {term : Read Term} {left : Sum} {next : Token}
    {later : List Token} (hnext : EndsSum next) (count : Nat) :
    termsWithin term count left (next :: later) = .ok left (next :: later) := by
  cases count with
  | zero => rfl
  | succ count =>
      rw [termsWithin, look_bind, List.headD_cons]
      cases next with
      | plus => simp [EndsSum, Token.extendsExpression] at hnext
      | minus => simp [EndsSum, Token.extendsExpression] at hnext
      | _ => rfl

theorem termsWithin_plus {term : Read Term} {left : Sum} {x : Term}
    {count : Nat} {next : Token} {later : List Token}
    (hx : term (x.tokens ++ next :: later) = .ok x (next :: later)) :
    termsWithin term (count + 1) left (.plus :: x.tokens ++ next :: later) =
      termsWithin term count (.add left x) (next :: later) := by
  rw [termsWithin, look_bind]
  exact (bind_of_ok (advance_append _ x.tokens next later)).trans
    (bind_of_ok hx)

theorem termsWithin_minus {term : Read Term} {left : Sum} {x : Term}
    {count : Nat} {next : Token} {later : List Token}
    (hx : term (x.tokens ++ next :: later) = .ok x (next :: later)) :
    termsWithin term (count + 1) left (.minus :: x.tokens ++ next :: later) =
      termsWithin term count (.sub left x) (next :: later) := by
  rw [termsWithin, look_bind]
  exact (bind_of_ok (advance_append _ x.tokens next later)).trans
    (bind_of_ok hx)

def ReadsTerm (bound : Nat) (x : Term) : Prop :=
  ∀ (depth : Nat) (next : Token) (later : List Token), x.depth ≤ depth →
    x.tokens.length ≤ bound →
    term bound depth (x.tokens ++ next :: later) = .ok x (next :: later)

/-- The further terms of a sum are read one after the other; the count goes down
by no more than the number of their tokens. -/
def ReadsTerms (bound : Nat) (s : Sum) : Prop :=
  ∀ (depth count : Nat) (next : Token) (later : List Token),
    s.tailDepth ≤ depth →
    s.tailTokens.length ≤ bound → s.tailTokens.length ≤ count →
      ∃ left, count ≤ left + s.tailTokens.length ∧
        termsWithin (term bound depth) count (.term s.head)
          (s.tailTokens ++ next :: later) =
          termsWithin (term bound depth) left s (next :: later)

structure ReadsSum (bound : Nat) (s : Sum) : Prop where
  head : ReadsTerm bound s.head
  terms : ReadsTerms bound s

structure ReadsTest (bound : Nat) (t : Test) : Prop where
  left : ReadsSum bound t.left
  tail : ∀ (depth : Nat) (next : Token) (later : List Token),
    t.tailDepth ≤ depth →
    t.tailTokens.length ≤ bound → next.extendsExpression = false →
      testTail bound depth t.left (t.tailTokens ++ next :: later) =
        .ok t (next :: later)

def ReadsExpression (bound : Nat) (e : Expression) : Prop :=
  ∀ (depth : Nat) (next : Token) (later : List Token), e.depth ≤ depth →
    e.tokens.length ≤ bound → next.extendsExpression = false →
      expression bound depth (e.tokens ++ next :: later) = .ok e (next :: later)

theorem ReadsExpression.parenthesized {bound : Nat} {e : Expression}
    (he : ReadsExpression bound e) {depth : Nat} (next : Token)
    (later : List Token) (hdepth : 1 + e.depth ≤ depth)
    (hbound : e.parenthesized.length ≤ bound) :
    Read.parenthesized bound depth (e.parenthesized ++ next :: later) =
      .ok e (next :: later) := by
  obtain ⟨depth, rfl⟩ :=
    Nat.exists_eq_add_one_of_ne_zero (n := depth) (by omega)
  simp only [Expression.parenthesized, List.length_cons, List.length_append]
    at hbound
  have htokens : e.parenthesized ++ next :: later =
      .leftParen :: (e.tokens ++ .rightParen :: (next :: later)) := by
    simp [Expression.parenthesized]
  rw [htokens, Read.parenthesized, bind_of_ok (expect_append _ _ _ _),
    bind_of_ok (he depth .rightParen _ (by omega) (by omega) rfl),
    bind_of_ok (expect_cons _ _ _)]
  rfl

theorem readsTerm_variable (bound : Nat) (v : Variable) :
    ReadsTerm bound (.variable v) := by
  intro depth next later hdepth _
  simp only [Term.depth] at hdepth
  obtain ⟨depth, rfl⟩ :=
    Nat.exists_eq_add_one_of_ne_zero (n := depth) (by omega)
  rfl

theorem readsTerm_number (bound n : Nat) : ReadsTerm bound (.number n) := by
  intro depth next later hdepth _
  simp only [Term.depth] at hdepth
  obtain ⟨depth, rfl⟩ :=
    Nat.exists_eq_add_one_of_ne_zero (n := depth) (by omega)
  rfl

theorem ReadsExpression.group {bound : Nat} {e : Expression}
    (he : ReadsExpression bound e) :
    ReadsTerm bound (.group e) := by
  intro depth next later hdepth hbound
  simp only [Term.depth] at hdepth
  obtain ⟨depth, rfl⟩ :=
    Nat.exists_eq_add_one_of_ne_zero (n := depth) (by omega)
  have htokens : (Term.group e).tokens = e.parenthesized := by
    simp [Term.tokens, Expression.parenthesized]
  rw [htokens] at hbound ⊢
  rw [term, look_bind]
  exact bind_of_ok (he.parenthesized next later (by omega) hbound)

theorem readsTerms_term (bound : Nat) (x : Term) :
    ReadsTerms bound (.term x) := by
  intro depth count next later _ _ _
  exact ⟨count, by omega, rfl⟩

theorem ReadsTerms.extend {bound : Nat} {s s' : Sum} {x : Term} {sign : Token}
    (hs : ReadsTerms bound s) (hx : ReadsTerm bound x)
    (hhead : s'.head = s.head)
    (htokens : s'.tailTokens = s.tailTokens ++ sign :: x.tokens)
    (htailDepth : s'.tailDepth = max s.tailDepth x.depth)
    (hsign :
      ∀ {term : Read Term} {count : Nat} {next : Token} {later : List Token},
      term (x.tokens ++ next :: later) = .ok x (next :: later) →
      termsWithin term (count + 1) s (sign :: x.tokens ++ next :: later) =
      termsWithin term count s' (next :: later)) :
    ReadsTerms bound s' := by
  intro depth count next later hdepth hbound hcount
  rw [htailDepth] at hdepth
  simp only [htokens, List.length_append, List.length_cons] at hbound hcount ⊢
  obtain ⟨left, hleft, heq⟩ :=
    hs depth count sign (x.tokens ++ next :: later) (by omega)
    (by omega) (by omega)
  obtain ⟨left, rfl⟩ := Nat.exists_eq_add_one_of_ne_zero (n := left) (by omega)
  refine ⟨left, by omega, ?_⟩
  rw [List.append_assoc, List.cons_append, hhead, heq]
  exact hsign (hx depth next later (by omega) (by omega))

theorem ReadsTerms.add {bound : Nat} {s : Sum} {x : Term}
    (hs : ReadsTerms bound s) (hx : ReadsTerm bound x) :
    ReadsTerms bound (.add s x) :=
  hs.extend hx rfl rfl rfl termsWithin_plus

theorem ReadsTerms.sub {bound : Nat} {s : Sum} {x : Term}
    (hs : ReadsTerms bound s) (hx : ReadsTerm bound x) :
    ReadsTerms bound (.sub s x) :=
  hs.extend hx rfl rfl rfl termsWithin_minus

namespace ReadsSum

variable {bound depth : Nat} {s : Sum} {next : Token} {later : List Token}

theorem tail (hs : ReadsSum bound s) (hdepth : s.tailDepth < depth)
    (hbound : s.tailTokens.length ≤ bound) (hnext : EndsSum next) :
    sumTail bound depth (.term s.head) (s.tailTokens ++ next :: later) =
      .ok s (next :: later) := by
  obtain ⟨depth, rfl⟩ :=
    Nat.exists_eq_add_one_of_ne_zero (n := depth) (by omega)
  obtain ⟨left, -, heq⟩ :=
    hs.terms depth bound next later (by omega) hbound hbound
  rw [sumTail, heq]
  exact termsWithin_eq_of_endsSum hnext left

theorem sum (hs : ReadsSum bound s) (hdepth : s.depth ≤ depth)
    (hbound : s.tokens.length ≤ bound) (hnext : EndsSum next) :
    Read.sum bound depth (s.tokens ++ next :: later) =
      .ok s (next :: later) := by
  simp only [Sum.depth, Sum.headDepth_eq] at hdepth
  rw [s.tokens_eq_head_append, List.length_append] at hbound
  obtain ⟨depth, rfl⟩ :=
    Nat.exists_eq_add_one_of_ne_zero (n := depth) (by omega)
  rw [Read.sum, s.tokens_eq_head_append, List.append_assoc]
  have hhead :
      term bound depth (s.head.tokens ++ (s.tailTokens ++ next :: later)) =
      .ok s.head (s.tailTokens ++ next :: later) := by
    cases s.tailTokens with
    | nil => exact hs.head depth next later (by omega) (by omega)
    | cons first rest =>
        exact hs.head depth first (rest ++ next :: later) (by omega) (by omega)
  rw [bind_of_ok hhead]
  exact hs.tail (by omega) (by omega) hnext

theorem test (hs : ReadsSum bound s) : ReadsTest bound (.sum s) := by
  refine ⟨hs, ?_⟩
  intro depth next later hdepth _ hnext
  simp only [Test.tailDepth] at hdepth
  obtain ⟨depth, rfl⟩ :=
    Nat.exists_eq_add_one_of_ne_zero (n := depth) (by omega)
  have hless : next ≠ .less := by
    rintro rfl
    simp [Token.extendsExpression] at hnext
  simp only [Test.left, Test.tailTokens, List.nil_append]
  rw [testTail, look_bind, List.headD_cons, if_neg hless]
  rfl

theorem less {right : Sum} (hs : ReadsSum bound s)
    (hright : ReadsSum bound right) :
    ReadsTest bound (.less s right) := by
  refine ⟨hs, ?_⟩
  intro depth next later hdepth hbound hnext
  simp only [Test.tailDepth] at hdepth
  simp only [Test.tailTokens, List.length_cons] at hbound
  obtain ⟨depth, rfl⟩ :=
    Nat.exists_eq_add_one_of_ne_zero (n := depth) (by omega)
  simp only [Test.left, Test.tailTokens, List.cons_append]
  rw [testTail, look_bind, List.headD_cons, if_pos rfl,
    bind_of_ok (advance_append _ _ _ _),
    bind_of_ok (hright.sum (by omega) (by omega) (.inl hnext))]
  rfl

end ReadsSum

namespace ReadsTest

variable {bound depth : Nat} {t : Test} {next : Token} {later : List Token}

theorem exists_endsSum (t : Test) (later : List Token)
    (hnext : next.extendsExpression = false) :
    ∃ first rest, t.tailTokens ++ next :: later = first :: rest ∧
      EndsSum first := by
  cases t with
  | sum s => exact ⟨next, later, rfl, .inl hnext⟩
  | less left right =>
      exact ⟨.less, right.tokens ++ next :: later, rfl, .inr rfl⟩

theorem leftThenTail {α : Type} (ht : ReadsTest bound t)
    (hdepth : t.left.tailDepth < depth) (htail : t.tailDepth ≤ depth)
    (hbound : t.tokens.length ≤ bound)
    (hnext : next.extendsExpression = false) (f : Test → Read α) :
    (do
      let left ← sumTail bound depth (.term t.left.head)
      f (← testTail bound depth left))
        (t.left.tailTokens ++ (t.tailTokens ++ next :: later)) =
      f t (next :: later) := by
  rw [t.tokens_eq_left_append, t.left.tokens_eq_head_append] at hbound
  simp only [List.length_append] at hbound
  obtain ⟨first, rest, heq, hends⟩ := exists_endsSum t later hnext
  rw [heq, bind_of_ok (ht.left.tail hdepth (by omega) hends), ← heq,
    bind_of_ok (ht.tail depth next later htail (by omega) hnext)]

theorem test (ht : ReadsTest bound t)
    (hdepth : 1 + max t.left.depth t.tailDepth ≤ depth)
    (hbound : t.tokens.length ≤ bound)
    (hnext : next.extendsExpression = false) :
    Read.test bound depth (t.tokens ++ next :: later) =
      .ok t (next :: later) := by
  obtain ⟨depth, rfl⟩ :=
    Nat.exists_eq_add_one_of_ne_zero (n := depth) (by omega)
  rw [t.tokens_eq_left_append, List.length_append] at hbound
  obtain ⟨first, rest, heq, hends⟩ := exists_endsSum t later hnext
  rw [Read.test, t.tokens_eq_left_append, List.append_assoc, heq,
    bind_of_ok (ht.left.sum (by omega) (by omega) hends), ← heq]
  exact ht.tail depth next later (by omega) (by omega) hnext

theorem headD_ne_assign (t : Test) (later : List Token)
    (hnext : next.extendsExpression = false) :
    (t.left.tailTokens ++ (t.tailTokens ++ next :: later)).headD .endOfInput ≠
      .assign := by
  intro hassign
  obtain ⟨first, rest, heq, hends⟩ := exists_endsSum t later hnext
  have hfirst := t.left.headD_tailTokens_append hassign
  rw [heq, List.headD_cons] at hfirst
  subst hfirst
  simp [EndsSum, Token.extendsExpression] at hends

theorem expression (ht : ReadsTest bound t) :
    ReadsExpression bound (.test t) := by
  intro depth next later hdepth hbound hnext
  simp only [Expression.depth] at hdepth
  simp only [Expression.tokens] at hbound ⊢
  by_cases hhead : ∃ v, t.left.head = .variable v
  · obtain ⟨v, hv⟩ := hhead
    rw [Test.depth_of_variable hv] at hdepth
    obtain ⟨depth, rfl⟩ :=
      Nat.exists_eq_add_one_of_ne_zero (n := depth) (by omega)
    have htokens : t.tokens ++ next :: later =
        .variable v :: (t.left.tailTokens ++ (t.tailTokens ++ next ::
          later)) := by
      rw [t.tokens_eq_left_append, t.left.tokens_eq_head_append, hv]
      simp [Term.tokens]
    have hadvance :
        advance (.variable
        v :: (t.left.tailTokens ++ (t.tailTokens ++ next :: later))) =
        .ok () (t.left.tailTokens ++ (t.tailTokens ++ next :: later)) := by
      rw [← List.append_assoc]
      exact advance_append _ _ next later
    rw [htokens, Read.expression, look_bind]
    refine (bind_of_ok hadvance).trans ?_
    rw [look_bind, if_neg (headD_ne_assign t later hnext), ← hv]
    have hleft : t.left.tailDepth < depth := by omega
    exact ht.leftThenTail hleft (by omega) hbound hnext fun t =>
      pure (Expression.test t)
  · have hne : ∀ v, t.left.head ≠ .variable v := fun v hv => hhead ⟨v, hv⟩
    rw [Test.depth_of_ne_variable hne] at hdepth
    obtain ⟨depth, rfl⟩ :=
      Nat.exists_eq_add_one_of_ne_zero (n := depth) (by omega)
    have htest : Read.test bound depth (t.tokens ++ next :: later) =
        .ok t (next :: later) :=
      ht.test (by omega) hbound hnext
    rw [t.tokens_eq_left_append, t.left.tokens_eq_head_append] at htest ⊢
    rcases hx : t.left.head with v | n | e
    · exact absurd hx (hne v)
    · rw [hx] at htest
      exact bind_of_ok htest
    · rw [hx] at htest
      exact bind_of_ok htest

end ReadsTest

theorem ReadsExpression.assign {bound : Nat} {e : Expression}
    (he : ReadsExpression bound e) (v : Variable) :
    ReadsExpression bound (.assign v e) := by
  intro depth next later hdepth hbound hnext
  simp only [Expression.depth] at hdepth
  simp only [Expression.tokens, List.length_cons] at hbound
  obtain ⟨depth, rfl⟩ :=
    Nat.exists_eq_add_one_of_ne_zero (n := depth) (by omega)
  rw [Read.expression, look_bind]
  refine (bind_of_ok
    (advance_append (.variable v) (.assign :: e.tokens) next later)).trans ?_
  rw [look_bind, List.cons_append, List.headD_cons, if_pos rfl,
    bind_of_ok (advance_append _ _ _ _),
    bind_of_ok (he depth next later (by omega) (by omega) hnext)]
  rfl

mutual

theorem term_complete (bound : Nat) : ∀ x : Term, ReadsTerm bound x
  | .variable v => readsTerm_variable bound v
  | .number n => readsTerm_number bound n
  | .group e => (expression_complete bound e).group

theorem sum_complete (bound : Nat) : ∀ s : Sum, ReadsSum bound s
  | .term x => ⟨term_complete bound x, readsTerms_term bound x⟩
  | .add s x =>
      ⟨(sum_complete bound s).head,
        (sum_complete bound s).terms.add (term_complete bound x)⟩
  | .sub s x =>
      ⟨(sum_complete bound s).head,
        (sum_complete bound s).terms.sub (term_complete bound x)⟩

theorem test_complete (bound : Nat) : ∀ t : Test, ReadsTest bound t
  | .sum s => (sum_complete bound s).test
  | .less left right =>
      (sum_complete bound left).less (sum_complete bound right)

theorem expression_complete (bound : Nat) :
    ∀ e : Expression, ReadsExpression bound e
  | .test t => (test_complete bound t).expression
  | .assign v e => (expression_complete bound e).assign v

end

theorem parenthesized_complete {bound depth : Nat} (e : Expression)
    (next : Token) (later : List Token) (hdepth : 1 + e.depth ≤ depth)
    (hbound : e.parenthesized.length ≤ bound) :
    parenthesized bound depth (e.parenthesized ++ next :: later) =
      .ok e (next :: later) :=
  (expression_complete bound e).parenthesized next later hdepth hbound

def ReadsStatement (bound : Nat) (s : Statement) : Prop :=
  ∀ (depth : Nat) (next : Token) (later : List Token), s.depth ≤ depth →
    s.tokens.length ≤ bound → s.ElseNearest →
    (s.isOpen = true → next ≠ .elseWord) →
      statement bound depth (s.tokens ++ next :: later) = .ok s (next :: later)

def ReadsBlock (bound : Nat) (b : Block) : Prop :=
  ∀ (depth count : Nat) (later : List Token), b.depth ≤ depth →
    b.tokens.length ≤ bound →
    b.tokens.length ≤ count → b.ElseNearest →
      statementsWithin (statement bound depth) count
        (b.tokens ++ .rightBrace :: later) =
        .ok b (.rightBrace :: later)

theorem statement_of_startsExpression {bound depth : Nat} {first : Token}
    {later : List Token} (hfirst : first.startsExpression = true) :
    statement bound (depth + 1) (first :: later) =
      (do
        let e ← expression bound depth
        expect .semicolon
        return .expression e : Read Statement) (first :: later) := by
  rw [statement, look_bind, List.headD_cons]
  split
  any_goals cases hfirst
  rfl

theorem statementsWithin_of_startsStatement {statement : Read Statement}
    {count : Nat} {first : Token} {later : List Token}
    (hfirst : first.startsStatement = true) :
    statementsWithin statement (count + 1) (first :: later) =
      (do
        let s ← statement
        let rest ← statementsWithin statement count
        return .cons s rest : Read Block) (first :: later) := by
  rw [statementsWithin, look_bind, List.headD_cons]
  split
  any_goals cases hfirst
  rfl

theorem readsStatement_expression (bound : Nat) (e : Expression) :
    ReadsStatement bound (.expression e) := by
  intro depth next later hdepth hbound _ _
  simp only [Statement.depth] at hdepth
  simp only [Statement.tokens, List.length_append, List.length_cons] at hbound
  obtain ⟨depth, rfl⟩ :=
    Nat.exists_eq_add_one_of_ne_zero (n := depth) (by omega)
  have htokens : (Statement.expression e).tokens ++ next :: later =
      e.tokens ++ .semicolon :: (next :: later) := by
    simp [Statement.tokens]
  have hread :=
    expression_complete bound e depth .semicolon (next :: later) (by omega)
    (by omega) rfl
  obtain ⟨first, rest, he, hfirst⟩ := e.exists_tokens
  rw [htokens, he, List.cons_append, statement_of_startsExpression hfirst,
    ← List.cons_append, ← he, bind_of_ok hread, bind_of_ok (expect_cons _ _ _)]
  rfl

theorem readsStatement_empty (bound : Nat) : ReadsStatement bound .empty := by
  intro depth next later hdepth _ _ _
  simp only [Statement.depth] at hdepth
  obtain ⟨depth, rfl⟩ :=
    Nat.exists_eq_add_one_of_ne_zero (n := depth) (by omega)
  rfl

theorem advance_condition {α : Type} {bound depth : Nat} {c : Expression}
    (word : Token) (s : Statement) (rest : List Token)
    (hdepth : 1 + c.depth ≤ depth) (hbound : c.parenthesized.length ≤ bound)
    (f : Expression → Read α) :
    (do
      advance
      let e ← parenthesized bound depth
      f e) (word :: (c.parenthesized ++ (s.tokens ++ rest))) =
        f c (s.tokens ++ rest) := by
  obtain ⟨first, later, hs, -⟩ := s.exists_tokens
  rw [hs, List.cons_append, bind_of_ok (advance_append _ _ _ _),
    bind_of_ok (parenthesized_complete c _ _ hdepth hbound)]

namespace ReadsStatement

variable {bound : Nat} {s t : Statement}

theorem ifThen (hs : ReadsStatement bound s) (c : Expression) :
    ReadsStatement bound (.ifThen c s) := by
  intro depth next later hdepth hbound hnearest hopen
  simp only [Statement.depth] at hdepth
  simp only [Statement.tokens, List.length_append, List.length_cons] at hbound
  obtain ⟨depth, rfl⟩ :=
    Nat.exists_eq_add_of_le' (m := 2) (n := depth) (by omega)
  have helse : next ≠ .elseWord := hopen rfl
  have hbody :=
    hs depth next later (by omega) (by omega) hnearest fun _ => helse
  have htokens : (Statement.ifThen c s).tokens ++ next :: later =
      .ifWord :: (c.parenthesized ++ (s.tokens ++ next :: later)) := by
    simp [Statement.tokens]
  rw [htokens, statement, look_bind]
  change ifStatement bound (depth + 1) _ = _
  rw [ifStatement, advance_condition _ _ _ (by omega) (by omega),
    bind_of_ok hbody, look_bind,
    List.headD_cons, if_neg helse]
  rfl

theorem ifElse (hs : ReadsStatement bound s) (ht : ReadsStatement bound t)
    (c : Expression) :
    ReadsStatement bound (.ifElse c s t) := by
  intro depth next later hdepth hbound hnearest hopen
  simp only [Statement.depth] at hdepth
  simp only [Statement.tokens, List.length_append, List.length_cons] at hbound
  obtain ⟨hclosed, hfirstNearest, hsecondNearest⟩ := hnearest
  obtain ⟨depth, rfl⟩ :=
    Nat.exists_eq_add_of_le' (m := 2) (n := depth) (by omega)
  have hfirst :=
    hs depth .elseWord (t.tokens ++ next :: later) (by omega)
    (by omega) hfirstNearest
    (by simp [hclosed])
  have hsecond := ht depth next later (by omega) (by omega) hsecondNearest hopen
  have htokens : (Statement.ifElse c s t).tokens ++ next :: later =
      .ifWord :: (c.parenthesized ++ (s.tokens ++ .elseWord ::
        (t.tokens ++ next :: later))) := by
    simp [Statement.tokens]
  rw [htokens, statement, look_bind]
  change ifStatement bound (depth + 1) _ = _
  rw [ifStatement, advance_condition _ _ _ (by omega) (by omega),
    bind_of_ok hfirst, look_bind,
    List.headD_cons, if_pos rfl, bind_of_ok (advance_append _ _ _ _),
      bind_of_ok hsecond]
  rfl

theorem whileDo (hs : ReadsStatement bound s) (c : Expression) :
    ReadsStatement bound (.whileDo c s) := by
  intro depth next later hdepth hbound hnearest hopen
  simp only [Statement.depth] at hdepth
  simp only [Statement.tokens, List.length_append, List.length_cons] at hbound
  obtain ⟨depth, rfl⟩ :=
    Nat.exists_eq_add_of_le' (m := 2) (n := depth) (by omega)
  have hbody := hs depth next later (by omega) (by omega) hnearest hopen
  have htokens : (Statement.whileDo c s).tokens ++ next :: later =
      .whileWord :: (c.parenthesized ++ (s.tokens ++ next :: later)) := by
    simp [Statement.tokens]
  rw [htokens, statement, look_bind]
  change whileStatement bound (depth + 1) _ = _
  rw [whileStatement, advance_condition _ _ _ (by omega) (by omega),
    bind_of_ok hbody]
  rfl

theorem doWhile (hs : ReadsStatement bound s) (c : Expression) :
    ReadsStatement bound (.doWhile s c) := by
  intro depth next later hdepth hbound hnearest _
  simp only [Statement.depth] at hdepth
  simp only [Statement.tokens, List.length_append, List.length_cons] at hbound
  obtain ⟨depth, rfl⟩ :=
    Nat.exists_eq_add_of_le' (m := 2) (n := depth) (by omega)
  have hbody :=
    hs depth .whileWord (c.parenthesized ++ .semicolon :: (next :: later))
    (by omega)
    (by omega) hnearest (by simp)
  have hcondition := parenthesized_complete c .semicolon (next :: later)
    (by omega : 1 + c.depth ≤ depth) (by omega : c.parenthesized.length ≤ bound)
  have htokens : (Statement.doWhile s c).tokens ++ next :: later =
      .doWord :: (s.tokens ++ .whileWord ::
        (c.parenthesized ++ .semicolon :: (next :: later))) := by
    simp [Statement.tokens]
  rw [htokens, statement, look_bind]
  change doStatement bound (depth + 1) _ = _
  rw [doStatement, bind_of_ok (advance_append _ _ _ _), bind_of_ok hbody,
    look_bind, List.headD_cons, if_pos rfl, bind_of_ok (advance_append _ _ _ _)]
  refine (bind_of_ok hcondition).trans ?_
  rw [bind_of_ok (expect_cons _ _ _)]
  rfl

end ReadsStatement

namespace ReadsBlock

variable {bound : Nat} {b : Block}

theorem nil (bound : Nat) : ReadsBlock bound .nil := by
  intro depth count later _ _ _ _
  cases count with
  | zero => rfl
  | succ count => rfl

theorem cons {s : Statement} (hb : ReadsBlock bound b)
    (hs : ReadsStatement bound s) :
    ReadsBlock bound (.cons s b) := by
  intro depth count later hdepth hbound hcount hnearest
  obtain ⟨first, rest, hfirst, hstarts⟩ := s.exists_tokens
  have hlength : 0 < s.tokens.length := by simp [hfirst]
  simp only [Block.depth] at hdepth
  simp only [Block.tokens, List.length_append] at hbound hcount
  obtain ⟨count, rfl⟩ :=
    Nat.exists_eq_add_one_of_ne_zero (n := count) (by omega)
  -- Neither a further statement nor the closing brace starts with an `else`.
  have hbehind : ∃ next behind,
      b.tokens ++ .rightBrace :: later = next :: behind ∧
      next ≠ .elseWord := by
    cases b with
    | nil => exact ⟨.rightBrace, later, by simp [Block.tokens], by simp⟩
    | cons t b =>
        obtain ⟨next, behind, ht, hnext⟩ := t.exists_tokens
        refine ⟨next, behind ++ (b.tokens ++ .rightBrace ::
          later), by simp [Block.tokens, ht], ?_⟩
        rintro rfl
        cases hnext
  have hrest := hb depth count later (by omega) (by omega) (by omega) hnearest.2
  obtain ⟨next, behind, heq, hnext⟩ := hbehind
  have hstatement :=
    hs depth next behind (by omega) (by omega) hnearest.1 fun _ => hnext
  have htokens : (Block.cons s b).tokens ++ .rightBrace :: later =
      s.tokens ++ next :: behind := by
    rw [Block.tokens, List.append_assoc, heq]
  rw [htokens]
  rw [hfirst] at hstatement ⊢
  rw [List.cons_append] at hstatement ⊢
  rw [statementsWithin_of_startsStatement hstarts, bind_of_ok hstatement, ← heq,
    bind_of_ok hrest]
  rfl

theorem statement (hb : ReadsBlock bound b) :
    ReadsStatement bound (.block b) := by
  intro depth next later hdepth hbound hnearest _
  simp only [Statement.depth] at hdepth
  simp only [Statement.tokens, List.length_append, List.length_cons] at hbound
  obtain ⟨depth, rfl⟩ :=
    Nat.exists_eq_add_of_le' (m := 2) (n := depth) (by omega)
  have hstatements :=
    hb depth bound (next :: later) (by omega) (by omega) (by omega) hnearest
  have htokens : (Statement.block b).tokens ++ next :: later =
      .leftBrace :: (b.tokens ++ .rightBrace :: (next :: later)) := by
    simp [Statement.tokens]
  rw [htokens, Read.statement, look_bind]
  change Read.block bound (depth + 1) _ = _
  rw [Read.block, bind_of_ok (advance_append _ _ _ _), bind_of_ok hstatements,
    bind_of_ok (expect_cons _ _ _)]
  rfl

end ReadsBlock

mutual

theorem statement_complete (bound : Nat) :
    ∀ s : Statement, ReadsStatement bound s
  | .ifThen c s => (statement_complete bound s).ifThen c
  | .ifElse c s t =>
      (statement_complete bound s).ifElse (statement_complete bound t) c
  | .whileDo c s => (statement_complete bound s).whileDo c
  | .doWhile s c => (statement_complete bound s).doWhile c
  | .block b => (block_complete bound b).statement
  | .expression e => readsStatement_expression bound e
  | .empty => readsStatement_empty bound

theorem block_complete (bound : Nat) : ∀ b : Block, ReadsBlock bound b
  | .nil => .nil bound
  | .cons s b => (block_complete bound b).cons (statement_complete bound s)

end

theorem program_complete {bound depth : Nat} (s : Statement)
    (hdepth : s.depth ≤ depth) (hbound : s.tokens.length ≤ bound)
    (hnearest : s.ElseNearest) :
    program bound depth (s.tokens ++ [.endOfInput]) = .ok s [.endOfInput] := by
  have hread :=
    statement_complete bound s depth .endOfInput [] hdepth hbound hnearest
    (by simp)
  rw [program, bind_of_ok hread]
  rfl

end Read

/-- Two trees of the same tokens in which every `else` belongs to the nearest
condition are equal. -/
theorem Statement.eq_of_tokens_eq {s t : Statement} (hs : s.ElseNearest)
    (ht : t.ElseNearest) (htokens : s.tokens = t.tokens) : s = t := by
  have hreadS :=
    Read.program_complete s (Nat.le_max_left s.depth t.depth) (Nat.le_refl _) hs
  have hreadT :=
    Read.program_complete t (Nat.le_max_right s.depth t.depth)
    (Nat.le_refl _) ht
  rw [htokens, hreadT] at hreadS
  cases hreadS
  rfl

end OnePass.Tree
