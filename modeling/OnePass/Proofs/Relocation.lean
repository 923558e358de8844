import OnePass.Proofs.PhraseCode
import OnePass.Proofs.ProgramLayout

/-!
The place of a phrase in the code. Whatever stands in the buffer already and
whichever jumps wait there for their targets, a phrase appends its own
instructions and leaves the rest alone. Main statement: the jumps of a phrase
lead to its own instructions or to its end, and at another offset the phrase is
compiled to the same instructions with exactly these addresses moved.
-/

namespace OnePass

open OnePass.Tree (Read)

/-- The words of an instruction whose address is moved. Only a jump has an
address. -/
def Entry.movedWords (shift : Int) (entry : Entry) : List Int :=
  entry.opcode.word ::
    (if entry.opcode.isJump then entry.operand.map (· + shift)
      else entry.operand).toList

namespace Instruction

/-- The instruction with its address moved on. -/
def moved (shift : Nat) : Instruction → Instruction
  | .jz target => .jz (target + shift)
  | .jnz target => .jnz (target + shift)
  | .jmp target => .jmp (target + shift)
  | i => i

@[simp] theorem length_words_moved (shift : Nat) (i : Instruction) :
    (i.moved shift).words.length = i.words.length := by
  cases i <;> rfl

@[simp] theorem length_encode_map_moved (shift : Nat) (is : List Instruction) :
    (encode (is.map (moved shift))).length = (encode is).length := by
  induction is with
  | nil => rfl
  | cons i is ih => simp [ih]

theorem moved_of_target? {i : Instruction} (h : i.target? = none)
    (shift : Nat) : i.moved shift = i := by
  cases i with
  | jz target | jnz target | jmp target => cases h
  | _ => rfl

theorem map_moved_of_target? {is : List Instruction}
    (h : ∀ i ∈ is, i.target? = none) (shift : Nat) :
    is.map (moved shift) = is := by
  rw [List.map_congr_left fun i hi => moved_of_target? (h i hi) shift,
    List.map_id']

theorem target?_moved (shift : Nat) (i : Instruction) :
    (i.moved shift).target? = i.target?.map (· + shift) := by
  cases i <;> rfl

theorem words_moved (i : Instruction) (offset base base' : Nat) :
    (i.moved base').words =
      Entry.movedWords (base' - base) ⟨offset, (i.moved base).opcode,
        (i.moved base).operand⟩ := by
  have haddress : ∀ target : Nat, ((target + base' : Nat) : Int) =
      ((target + base : Nat) : Int) + ((base' : Int) - base) := by
    intro target
    omega
  cases i with
  | jz target =>
      exact congrArg (fun address => [Opcode.jz.word, address])
        (haddress target)
  | jnz target =>
      exact congrArg (fun address => [Opcode.jnz.word, address])
        (haddress target)
  | jmp target =>
      exact congrArg (fun address => [Opcode.jmp.word, address])
        (haddress target)
  | _ => rfl

theorem encode_map_moved (is : List Instruction) (offset base base' : Nat) :
    encode (is.map (moved base')) =
      (entries offset (is.map (moved base))).flatMap
        (Entry.movedWords (base' - base)) := by
  induction is generalizing offset with
  | nil => rfl
  | cons i is ih =>
      rw [List.map_cons, List.map_cons, entries, encode_cons, List.flatMap_cons,
        i.words_moved offset base base', ih]

/-- Every address of a sequence, counted from its start, is the place of an
instruction or the end. -/
def Closed (is : List Instruction) : Prop :=
  ∀ i ∈ is, ∀ t, i.target? = some t → ∃ before after, is = before ++ after ∧
    t = (encode before).length

theorem closed_of_target? {is : List Instruction}
    (h : ∀ i ∈ is, i.target? = none) : Closed is := by
  intro i hi t ht
  rw [h i hi] at ht
  cases ht

theorem Balanced.closed {is : List Instruction} (h : Balanced 0 is) :
    Closed is := by
  intro i hi t ht
  obtain ⟨before, after, hsplit, hplace, -⟩ := (h.stays i hi).2 t ht
  exact ⟨before, after, hsplit, by rw [hplace, Nat.zero_add]⟩

theorem Closed.target_of_mem_entries {is : List Instruction} (h : Closed is)
    {base : Nat} {entry : Entry}
    (hentry : entry ∈ entries base (is.map (moved base)))
    (hjump : entry.opcode.isJump = true) :
    ∃ target : Nat, entry.operand = some (target : Int) ∧
      (target ∈ (entries base (is.map (moved base))).map Entry.offset ∨
        target = base + (encode (is.map (moved base))).length) := by
  obtain ⟨_, hmoved, hopcode, hoperand⟩ :=
    exists_instruction_of_mem_entries hentry
  obtain ⟨i, hi, rfl⟩ := List.mem_map.mp hmoved
  rw [hopcode] at hjump
  obtain ⟨target, htarget, hoperand'⟩ := exists_target_of_isJump hjump
  refine ⟨target, hoperand.trans hoperand', ?_⟩
  rw [target?_moved] at htarget
  obtain ⟨t, ht, rfl⟩ := Option.map_eq_some_iff.mp htarget
  obtain ⟨before, after, rfl, rfl⟩ := h i hi t ht
  cases after with
  | nil =>
      right
      simp [Nat.add_comm]
  | cons next after =>
      left
      refine mem_offsets_iff.mpr ⟨before.map (moved base), next.moved base,
        after.map (moved base), ?_, ?_⟩
      · simp
      · simp [Nat.add_comm]

theorem exists_encode_of_append {is js : List Instruction} {code : List Int}
    (h : encode is = encode js ++ code) :
    ∃ ks, (∀ k ∈ ks, k ∈ is) ∧ code = encode ks := by
  induction js generalizing is with
  | nil => exact ⟨is, fun k hk => hk, h.symm⟩
  | cons j js ih =>
      cases is with
      | nil => simp [words] at h
      | cons i is =>
          rw [encode_cons, encode_cons, List.append_assoc] at h
          have hopcode : i.opcode = j.opcode :=
            Opcode.eq_of_word_eq (List.cons.inj h).1
          have hlength : i.words.length = j.words.length := by
            rw [length_words, length_words, hopcode]
          obtain ⟨ks, hks, hcode⟩ := ih (List.append_inj h hlength).2
          exact ⟨ks, fun k hk => List.mem_cons_of_mem i (hks k hk), hcode⟩

end Instruction

namespace Tree

open Instruction

theorem Expression.map_moved (e : Expression) (shift : Nat) :
    e.instructions.map (moved shift) = e.instructions :=
  map_moved_of_target? (fun i hi => (e.yields.straight i hi).2) shift

mutual

theorem Statement.instructions_add : ∀ (s : Statement) (base shift : Nat),
    s.instructions (base + shift) = (s.instructions base).map (moved shift)
  | .ifThen c s, base, shift => by
      simp only [Statement.instructions, Nat.add_right_comm _ shift,
        s.instructions_add, length_encode_map_moved, List.map_append,
        c.map_moved, List.map_cons, List.map_nil, moved]
  | .ifElse c s t, base, shift => by
      simp only [Statement.instructions, Nat.add_right_comm _ shift,
        s.instructions_add, t.instructions_add, length_encode_map_moved,
        List.map_append, c.map_moved, List.map_cons, List.map_nil, moved]
  | .whileDo c s, base, shift => by
      simp only [Statement.instructions, Nat.add_right_comm _ shift,
        s.instructions_add, length_encode_map_moved, List.map_append,
        c.map_moved, List.map_cons, List.map_nil, moved]
  | .doWhile s c, base, shift => by
      simp only [Statement.instructions, List.map_append, c.map_moved,
        List.map_cons, List.map_nil, moved, s.instructions_add]
  | .block b, base, shift => b.instructions_add base shift
  | .expression e, base, shift => by
      simp only [Statement.instructions, List.map_append, e.map_moved,
        List.map_cons, List.map_nil, moved]
  | .empty, base, shift => rfl

theorem Block.instructions_add : ∀ (b : Block) (base shift : Nat),
    b.instructions (base + shift) = (b.instructions base).map (moved shift)
  | .nil, base, shift => rfl
  | .cons s rest, base, shift => by
      simp only [Block.instructions, s.instructions_add,
        length_encode_map_moved, List.map_append, Nat.add_right_comm _ shift,
        rest.instructions_add]

end

end Tree

namespace Emitter

open Instruction

/-- Started at `e` with any code, `x` ends in front of the same lexemes as `e'`,
and has appended the instructions of one closed sequence. -/
def Lays (x : Emit Unit) (e e' : Emitter) : Prop :=
  ∃ is, Closed is ∧ ∀ b : Builder, ∃ e'',
    x { e with builder := b } = .ok () e'' ∧
    e''.stream = e'.stream ∧
    e''.builder = b.append (encode (is.map (moved b.here)))

theorem stream_eq_of_upcoming {e e' e'' : Emitter} (h' : e.Later e')
    (h'' : e.Later e'') (h : e''.upcoming = e'.upcoming) :
    e''.stream = e'.stream := by
  have hlength := congrArg List.length h
  rw [upcoming, upcoming, List.length_map, List.length_map] at hlength
  have hsuffix :=
    List.suffix_of_suffix_length_le h''.suffix h'.suffix (Nat.le_of_eq hlength)
  exact Prod.ext (hsuffix.eq_of_length hlength) (h''.error.trans h'.error.symm)

/-- What is read does not depend on the code, so the tree is the same for any
other code. -/
theorem Tracks.exists_tree {α : Type} {A : Token → Prop} {x : Emit Unit}
    {r : Read α} {P : α → Prop} (code : α → Nat → List Int)
    (h : ∀ b, Tracks A b x r fun a _ b' => P a ∧ b' = b.append (code a b.here))
    {e e' : Emitter} (hA : A e.lookahead.token) (hok : x e = .ok () e') :
    ∃ a, P a ∧ ∀ b : Builder, ∃ e'', x { e with builder := b } = .ok () e'' ∧
      e''.stream = e'.stream ∧ e''.builder = b.append (code a b.here) := by
  have hagrees := h e.builder e rfl hA
  rw [hok] at hagrees
  generalize hread : r e.upcoming = reading at hagrees
  cases hagrees with
  | @done a _ _ hlater hcode =>
      refine ⟨a, hcode.1, fun b => ?_⟩
      have hstream : ({ e with builder := b } : Emitter).stream = e.stream :=
        stream_congr rfl rfl
      have hagrees := h b { e with builder := b } rfl hA
      rw [upcoming, hstream, ← upcoming, hread] at hagrees
      generalize x { e with builder := b } = result at hagrees
      generalize hrest : EStateM.Result.ok a e'.upcoming = reading at hagrees
      cases hagrees with
      | @done _ _ e'' hlater' hcode' =>
          obtain ⟨rfl, hupcoming⟩ := EStateM.Result.ok.inj hrest
          have hlater' : e.Later e'' := .trans (.of_stream_eq hstream) hlater'
          exact ⟨e'', rfl, stream_eq_of_upcoming hlater hlater' hupcoming.symm,
            hcode'.2⟩
      | unexpected | missing | tooDeep => cases hrest

theorem Tracks.lays_statement {A : Token → Prop} {x : Emit Unit}
    {r : Read Tree.Statement}
    (h : ∀ b, Tracks A b x r fun s _ b' => b' = b.append (s.code b.here))
    {e e' : Emitter} (hA : A e.lookahead.token) (hok : x e = .ok () e') :
    Lays x e e' := by
  obtain ⟨s, -, hcode⟩ :=
    Tracks.exists_tree (P := fun _ => True) Tree.Statement.code
    (fun b => (h b).conseq fun _ _ _ hb => ⟨trivial, hb⟩) hA hok
  refine ⟨s.instructions 0, (s.balanced 0).closed, fun b => ?_⟩
  obtain ⟨e'', hresult, hstream, hbuilder⟩ := hcode b
  refine ⟨e'', hresult, hstream, ?_⟩
  rw [hbuilder, s.code_eq_encode, ← s.instructions_add, Nat.zero_add]

theorem Tracks.lays_straight {α : Type} {x : Emit Unit} {r : Read α}
    {P : α → Prop} (code : α → List Int)
    (h : ∀ b, Tracks (fun _ => True) b x r fun a _ b' => P a ∧
      b' = b.append (code a))
    (hstraight : ∀ a, P a →
      ∃ is : List Instruction, (∀ i ∈ is, i.target? = none) ∧
      code a = encode is)
    {e e' : Emitter} (hok : x e = .ok () e') : Lays x e e' := by
  obtain ⟨a, ha, hcode⟩ := Tracks.exists_tree (fun a _ => code a) h trivial hok
  obtain ⟨is, his, hencode⟩ := hstraight a ha
  refine ⟨is, closed_of_target? his, fun b => ?_⟩
  obtain ⟨e'', hresult, hstream, hbuilder⟩ := hcode b
  refine ⟨e'', hresult, hstream, ?_⟩
  rw [hbuilder, hencode, map_moved_of_target? his]

theorem Tracks.lays_yields {α : Type} {x : Emit Unit} {r : Read α}
    {code : α → List Int} {instructions : α → List Instruction}
    (hcode : ∀ a, code a = encode (instructions a))
    (hyields : ∀ a, Yields (instructions a))
    (h : ∀ b, Tracks (fun _ => True) b x r fun a _ b' => b' = b.append (code a))
    {e e' : Emitter} (hok : x e = .ok () e') : Lays x e e' := by
  refine lays_straight (P := fun _ => True) code
    (fun b => (h b).conseq fun _ _ _ hb => ⟨trivial, hb⟩) (fun a _ => ?_) hok
  exact ⟨instructions a, fun i hi => ((hyields a).straight i hi).2, hcode a⟩

theorem Tracks.lays_tail {α : Type} {x : Emit Unit} {r : Read α}
    {code : α → List Int} {instructions : α → List Instruction}
    (hcode : ∀ a, code a = encode (instructions a))
    (hyields : ∀ a, Yields (instructions a)) {left : List Int}
    {before : List Instruction} (hleft : left = encode before)
    (h : ∀ b, Tracks (fun _ => True) b x r fun a _ b' => ∃ behind,
      code a = left ++ behind ∧ b' = b.append behind)
    {e e' : Emitter} (hok : x e = .ok () e') : Lays x e e' := by
  refine lays_straight (P := fun a => ∃ behind, code a = left ++ behind)
    (fun a => (code a).drop left.length) (fun b => (h b).conseq ?_) ?_ hok
  · rintro a _ _ ⟨behind, hbehind, rfl⟩
    exact ⟨⟨behind, hbehind⟩, by rw [hbehind, List.drop_left]⟩
  · rintro a ⟨behind, hbehind⟩
    rw [hbehind, List.drop_left]
    rw [hcode a, hleft] at hbehind
    obtain ⟨is, his, hencode⟩ := exists_encode_of_append hbehind
    exact ⟨is, fun i hi => ((hyields a).straight i (his i hi)).2, hencode⟩

/-- A phrase that takes a token to begin with does not depend on which one it
is. -/
theorem advance_bind_of_lookahead {f : Unit → Emit Unit} {e e' : Emitter}
    (h : (advance >>= f) e = .ok () e') (l : Lexeme) :
    (advance >>= f) { e with lookahead := l } = .ok () e' := by
  change EStateM.bind advance f e = _ at h
  change EStateM.bind advance f { e with lookahead := l } = _
  rw [EStateM.bind] at h ⊢
  rcases hnext : e.cursor.next with ⟨error | lexeme, behind⟩
  · rw [advance_of_next_error hnext] at h
    cases h
  · rw [advance_of_next hnext] at h
    rw [advance_of_next (e := { e with lookahead := l }) hnext]
    exact h

theorem Tracks.lays_advance {x : Emit Unit} {r : Read Tree.Statement}
    (h : ∀ b, Tracks (· ≠ .endOfInput) b x r fun s _ b' =>
      b' = b.append (s.code b.here))
    {f : Unit → Emit Unit} (hx : x = Emitter.advance >>= f) {e e' : Emitter}
    (hok : x e = .ok () e') :
    Lays x e e' := by
  -- In front of the end of the input the first token is taken all the same.
  have hother : x { e with lookahead := ⟨.semicolon, e.lookahead.position⟩ } =
      .ok () e' := by
    rw [hx] at hok ⊢
    exact advance_bind_of_lookahead hok _
  obtain ⟨is, hclosed, hlays⟩ := lays_statement h (by simp) hother
  refine ⟨is, hclosed, fun b => ?_⟩
  obtain ⟨e'', hresult, hend⟩ := hlays b
  rw [hx] at hresult ⊢
  exact ⟨e'', advance_bind_of_lookahead hresult e.lookahead, hend⟩

end Emitter

namespace Phrase

open Emitter Instruction

theorem compileWithin_lays {bound depth : Nat} {phrase : Phrase}
    {e e' : Emitter} (h : compileWithin bound depth phrase e = .ok () e') :
    Lays (compileWithin bound depth phrase) e e' := by
  cases depth with
  | zero => cases h
  | succ depth =>
      -- What stands on the left of a tail makes no difference to it.
      let left : Tree.Sum := .term (.number 0)
      cases phrase with
      | statement =>
          exact Tracks.lays_statement
            (statement_tracks bound (depth + 1)) trivial h
      | ifStatement =>
          exact Tracks.lays_advance (ifStatement_tracks bound (depth + 1)) rfl h
      | whileStatement =>
          exact Tracks.lays_advance
            (whileStatement_tracks bound (depth + 1)) rfl h
      | doStatement =>
          exact Tracks.lays_advance (doStatement_tracks bound (depth + 1)) rfl h
      | block =>
          exact Tracks.lays_advance (block_tracks bound (depth + 1)) rfl h
      | parenthesized =>
          exact Tracks.lays_yields (fun c => c.code_eq_encode)
            (fun c => c.yields)
            (parenthesized_tracks bound (depth + 1)) h
      | expression =>
          exact Tracks.lays_yields (fun c => c.code_eq_encode)
            (fun c => c.yields)
            (expression_tracks bound (depth + 1)) h
      | test =>
          exact Tracks.lays_yields (fun t => t.code_eq_encode)
            (fun t => t.yields)
            (test_tracks bound (depth + 1)) h
      | testTail =>
          exact Tracks.lays_tail (fun t => t.code_eq_encode)
            (fun t => t.yields) left.code_eq_encode
            (testTail_tracks bound (depth + 1) left) h
      | sum =>
          exact Tracks.lays_yields (fun s => s.code_eq_encode)
            (fun s => s.yields)
            (sum_tracks bound (depth + 1)) h
      | sumTail =>
          exact Tracks.lays_tail (fun s => s.code_eq_encode)
            (fun s => s.yields) left.code_eq_encode
            (sumTail_tracks bound (depth + 1) left) h
      | term =>
          exact Tracks.lays_yields (fun t => t.code_eq_encode)
            (fun t => t.yields)
            (term_tracks bound (depth + 1)) h

/-- What the compilation of a phrase that leads from `e` to `e'` does to the
code. It appends a segment of whole instructions, and from `e` with any other
code it appends the same instructions, moved. -/
structure Relocates (compile : Emit Unit) (e e' : Emitter)
    (segment : List Int) (entries : List Entry) : Prop where
  words : e'.builder.words = e.builder.words ++ segment.toArray
  pending : e'.builder.pending = e.builder.pending
  instructions : readInstructions e.builder.here segment = (entries, none)
  targets : ∀ entry ∈ entries, entry.opcode.isJump = true →
    ∃ target : Nat, entry.operand = some (target : Int) ∧
      (target ∈ entries.map Entry.offset ∨ target = e'.builder.here)
  elsewhere : ∀ b : Builder, ∃ e'',
    compile { e with builder := b } = .ok () e'' ∧
    e''.stream = e'.stream ∧ e''.builder.pending = b.pending ∧
    e''.builder.words =
      b.words ++ (entries.flatMap
        (Entry.movedWords (b.here - e.builder.here))).toArray

/-- A phrase leaves the code before it and the jumps pending there as they were.
Its own jumps stay within the segment that it appends, and at another offset the
segment differs in exactly their addresses. -/
theorem compilation_relocatable (bound depth : Nat) (phrase : Phrase)
    (e e' : Emitter) (h : compileWithin bound depth phrase e = .ok () e') :
    ∃ segment entries,
      Relocates (compileWithin bound depth phrase) e e' segment entries := by
  obtain ⟨is, hclosed, hlays⟩ := compileWithin_lays h
  let base := e.builder.here
  have hbuilder :
      e'.builder = e.builder.append (encode (is.map (moved base))) := by
    obtain ⟨e'', hresult, -, hbuilder⟩ := hlays e.builder
    obtain ⟨-, rfl⟩ := EStateM.Result.ok.inj (h.symm.trans hresult)
    exact hbuilder
  refine ⟨encode (is.map (moved base)), entries base (is.map (moved base)), ?_,
    ?_, ?_, ?_, ?_⟩
  · rw [hbuilder, Builder.append]
  · rw [hbuilder, Builder.append]
  · exact readInstructions_encode _ base
  · intro entry hentry hjump
    rw [hbuilder, Builder.here_append]
    exact hclosed.target_of_mem_entries hentry hjump
  · intro b
    obtain ⟨e'', hresult, hstream, hbuilder''⟩ := hlays b
    refine ⟨e'', hresult, hstream, ?_, ?_⟩
    · rw [hbuilder'', Builder.append]
    · rw [hbuilder'', Builder.append, encode_map_moved is base base b.here]

/-- A loop inside a condition whose jump still waits for its target. -/
def inCondition : Emitter where
  lookahead := ⟨.whileWord, ⟨1, 8⟩⟩
  cursor := ⟨" (a < 3) if (b) a = a + 1; else b = 1;".toList, ⟨1, 13⟩⟩
  builder := ⟨#[0, 2, 7, -1], [2]⟩

theorem compilation_relocatable_inCondition :
    ∃ e' segment entries,
      compileWithin 40 20 .whileStatement inCondition = .ok () e' ∧
      e'.builder.words =
        #[0, 2, 7, -1, 0, 0, 2, 3, 6, 7, 32, 0, 1, 7, 25, 0, 0, 2, 1, 4, 1, 0,
          3, 9, 30, 2, 1, 1, 1, 3, 9, 4] ∧
      Relocates (compileWithin 40 20 .whileStatement) inCondition e'
        segment entries := by
  have hends : (match compileWithin 40 20 .whileStatement inCondition with
      | .ok _ e' =>
          decide (e'.builder.words = #[0, 2, 7, -1, 0, 0, 2, 3, 6, 7, 32, 0, 1,
            7, 25, 0, 0, 2, 1, 4, 1, 0, 3, 9, 30, 2, 1, 1, 1, 3, 9, 4])
      | .error _ _ => false) = true := by
    decide +kernel
  cases hresult : compileWithin 40 20 .whileStatement inCondition with
  | ok _ e' =>
      rw [hresult] at hends
      obtain ⟨segment, entries, hrelocates⟩ :=
        compilation_relocatable 40 20 _ _ e' hresult
      exact ⟨e', segment, entries, rfl, of_decide_eq_true hends, hrelocates⟩
  | error error e' =>
      rw [hresult] at hends
      cases hends

end Phrase

end OnePass
