import OnePass.Proofs.ErrorReports
import OnePass.Proofs.JumpDirections

namespace OnePass

open OnePass.Text (Plain)

theorem Variable.plain_letter (v : Variable) :
    Plain (String.singleton v.letter) := by
  revert v
  decide

namespace Text

theorem plain_alignLeft {text : String} (h : Plain text) (width : Nat) :
    Plain (alignLeft width text) :=
  h.append (plain_spaces _)

theorem plain_trimEnd {text : String} (h : Plain text) :
    Plain (String.ofList (trimEnd text.toList)) := by
  apply h.of_subset
  intro c hc
  rw [String.toList_ofList, trimEnd, List.mem_reverse] at hc
  exact List.mem_reverse.mp ((List.dropWhile_sublist isBlank).subset hc)

theorem plain_zeros (width n : Nat) : Plain (zeroFilled.zeros width n) := by
  have hzero : Plain "0" := by decide
  refine hzero.of_subset fun c hc => ?_
  rw [zeroFilled.zeros, String.toList_ofList] at hc
  rw [(List.mem_replicate.mp hc).2]
  exact List.mem_cons_self

theorem plain_zeroFilled (width : Nat) (n : Int) :
    Plain (zeroFilled width n) := by
  cases n with
  | ofNat n => exact (plain_zeros width n).append (plain_repr n)
  | negSucc n =>
      have hsign : Plain "-" := by decide
      exact (hsign.append (plain_zeros (width - 1) (n + 1))).append
        (plain_repr (n + 1))

end Text

namespace ListingLine

theorem plain_layout {mnemonic operandText comment : String}
    (hmnemonic : Plain mnemonic) (hoperand : Plain operandText)
    (hcomment : Plain comment) (offset : Int) :
    Plain (layout offset mnemonic operandText comment) := by
  have hoffset : Plain (Text.zeroFilled 4 offset) :=
    Text.plain_zeroFilled 4 offset
  have hcolumns :=
    ((Text.plain_alignLeft hmnemonic 6).append (by decide : Plain " ")).append
    hoperand
  have hinstruction := Text.plain_trimEnd hcolumns
  simp only [layout]
  split
  · exact (hoffset.append (by decide)).append hinstruction
  · exact (((hoffset.append (by decide)).append
      (Text.plain_alignLeft hinstruction 20)).append (by decide)).append
        hcomment

theorem plain_operandColumns (offset : Nat) (kind : OperandKind)
    (operand : Int) :
    Plain (operandColumns offset kind operand).1 := by
  unfold operandColumns
  split
  · split
    · rename_i v _
      exact v.plain_letter
    · exact Text.Plain.append (by decide) (Text.plain_toString operand)
  · exact Text.Plain.append (by decide) (Text.plain_toString operand)
  · exact Text.Plain.append (by decide) (Text.plain_zeroFilled 4 operand)
  · decide

theorem plain_text_ofEntry (e : Entry) : Plain (ofEntry e).text := by
  have hmnemonic : ∀ op : Opcode, Plain op.mnemonic := by
    intro op
    cases op <;> decide
  have hcomments : ∀ comment ∈ ["", "bad variable slot", "loop", "forward"],
      Plain comment := by
    decide
  unfold text
  apply plain_layout
  · rw [mnemonic_ofEntry]
    exact hmnemonic e.opcode
  · unfold ofEntry
    split
    · exact (by decide : Plain "")
    · exact plain_operandColumns _ _ _
  · exact hcomments _ (comment_ofEntry e)

end ListingLine

theorem Source.exists_listing_of_ok {s : Source} {limit : Nat}
    {program : Program} (hok : (s.compileWithin limit).outcome = .ok program) :
    ∃ listing, program.listing = .ok listing ∧ Plain listing := by
  obtain ⟨tree, -, -, rfl⟩ := exists_tree_of_ok hok
  have hlines := listingLines_program tree s.name
  refine ⟨Text.joinLines
    ((Instruction.lines 0 tree.programInstructions).map ListingLine.text), ?_,
    ?_⟩
  · rw [Program.listing, hlines]
    rfl
  · apply Text.plain_joinLines
    intro line hline
    obtain ⟨listed, hlisted, rfl⟩ := List.mem_map.mp hline
    obtain ⟨e, -, rfl⟩ := List.mem_map.mp hlisted
    exact ListingLine.plain_text_ofEntry e

theorem Table.plain_lines (table : Table) :
    ∀ line ∈ table.lines, Plain line := by
  intro line hline
  obtain ⟨v, -, hv⟩ := List.mem_filterMap.mp hline
  split at hv
  · cases hv
  · cases hv
    exact (v.plain_letter.append (by decide)).append (Text.plain_toString _)

end OnePass
