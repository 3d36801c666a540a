import DerivedColumns.Proofs.Formula.Cut
import DerivedColumns.Proofs.Formula.Primary

set_option autoImplicit false

namespace DerivedColumns

theorem Position.after_eq (s : List Char) : Position.after s =
    ⟨(String.ofList s).utf8ByteSize, 1 + s.count '\n', 1 + (s.reverse.takeWhile (· ≠ '\n')).length⟩ := by
  induction s using List.reverseRecOn with
  | nil => rfl
  | append_singleton s c ih =>
    have size : (String.ofList (s ++ [c])).utf8ByteSize = (String.ofList s).utf8ByteSize + c.utf8Size := by
      rw [String.ofList_append, String.utf8ByteSize_append, ← String.singleton_eq_ofList, String.utf8ByteSize_singleton]
    rw [Position.after, List.foldl_append, ← Position.after, ih, List.foldl_cons, List.foldl_nil, size,
      List.reverse_append, List.count_append]
    by_cases newline : c = '\n'
    · subst newline
      rfl
    · have none : [c].count '\n' = 0 := List.count_eq_zero.2 fun h => newline (List.mem_singleton.1 h).symm
      simp [newline, none, Nat.add_assoc]

theorem ParseFault.message_eq_trailing_iff (fault : ParseFault) :
    fault.message = "unexpected trailing input" ↔ fault = .trailing := by
  refine ⟨fun same => ?_, fun same => by rw [same]; rfl⟩
  cases fault with
  | trailing => rfl
  | empty => exact absurd same (by decide)
  | tooDeep => exact absurd same (by decide)
  | missing label expected =>
    have letter := congrArg (fun s : String => s.toList.head?) same
    cases label with
    | none =>
      cases expected with
      | nil => exact absurd same (by decide)
      | cons e es => simp [ParseFault.message, String.toList_append] at letter
    | some label => cases expected <;> simp [ParseFault.message, String.toList_append] at letter

namespace Formula

theorem errorAt_append (before rest : List Char) (fault : ParseFault) :
    errorAt (before ++ rest) rest fault = ⟨fault, .after before⟩ := by
  rw [errorAt, List.length_append, Nat.add_sub_cancel, List.take_left]

theorem Cause.fault_ne_trailing (cause : Cause) : cause.fault ≠ .trailing := by
  cases cause <;> exact nofun

theorem parseChars_eq_error {s : List Char} {e : ParseError} (failed : parseChars s = .error e) :
    ∃ rest fault, rest <:+ s ∧ e = errorAt s rest fault ∧
      (fault = .trailing → ∃ f left, (Grammar.ofLevels maxNesting).choice s = .ok f left ∧ skipLayout left = rest) := by
  have leaves := (Grammar.leaving_ofLevels maxNesting).choice s
  unfold parseChars at failed
  split at failed
  · cases failed
    exact ⟨[], .empty, List.nil_suffix, rfl, nofun⟩
  cases read : (Grammar.ofLevels maxNesting).choice s with
  | ok f left =>
    rw [read] at leaves failed
    dsimp only at failed
    split at failed
    · cases failed
    · cases failed
      exact ⟨_, .trailing, (skipLayout_suffix left).trans leaves, rfl, fun _ => ⟨f, left, rfl, rfl⟩⟩
  | soft failure =>
    rw [read] at leaves failed
    cases failed
    exact ⟨_, _, leaves, rfl, fun trailing => absurd trailing failure.cause.fault_ne_trailing⟩
  | hard failure =>
    rw [read] at leaves failed
    cases failed
    exact ⟨_, _, leaves, rfl, fun trailing => absurd trailing failure.cause.fault_ne_trailing⟩

/-- A formula behind which a text goes on is read from the text before that. -/
theorem parseChars_of_cut {s rest left : List Char} {f : Formula}
    (read : (Grammar.ofLevels maxNesting).choice (s ++ rest) = .ok f left) (behind : skipLayout left = rest) :
    parseChars s = .ok f := by
  have cutting := Grammar.cutting_ofLevels maxNesting
  obtain ⟨ts, passed, again⟩ := cutting.choice _ f left read
  obtain ⟨w, whole, all⟩ := passed.trans (Passed.skip left)
  rw [behind] at whole all
  obtain rfl := List.append_cancel_right whole
  have nothing : tokens [] = [] := tokens_of_nil (by rw [skipLayout])
  have same : tokens s = ts ++ [] := by
    have cut := all [] List.nil_prefix
    rwa [nothing, List.append_nil, List.append_nil] at cut
  obtain ⟨left', read', none⟩ := again s [] same List.nil_prefix
  have some : skipLayout s ≠ [] := by
    intro empty
    have noFormula : (Grammar.level maxNesting 1 [')']).Soft := soft_level blank_nil []
    rw [← Grammar.choice_ofLevels] at noFormula
    obtain ⟨failure, soft⟩ := cutting.fades _ s noFormula (by rw [tokens_of_nil empty]; exact List.nil_prefix)
    rw [read'] at soft
    cases soft
  rw [parseChars, if_neg (by simpa using some), read']
  simp only [(tokens_eq_nil_iff left').1 none]

/-- An error divides the text: its offset is where the second part begins, between two characters, and its line and
column are counted in the first. If only the rest of the text is wrong, then the first part alone is a formula, the one
that had been read before the rest was met. -/
theorem parse_error_place {text : String} {e : ParseError} (failed : parse text = .error e) :
    ∃ before after, text = before ++ after ∧
      e.position.offset = before.utf8ByteSize ∧
      e.position.offset ≤ text.utf8ByteSize ∧
      String.Pos.Raw.IsValid text ⟨e.position.offset⟩ ∧
      e.position.line = 1 + before.toList.count '\n' ∧
      e.position.column = 1 + (before.toList.reverse.takeWhile (· ≠ '\n')).length ∧
      (e.message = "unexpected trailing input" → ∃ f left,
        (Grammar.ofLevels maxNesting).choice text.toList = .ok f left ∧
        skipLayout left = after.toList ∧
        parse before = .ok f) := by
  obtain ⟨rest, fault, ⟨before, chars⟩, rfl, behind⟩ := parseChars_eq_error failed
  have whole : text = String.ofList before ++ String.ofList rest := by
    rw [← String.ofList_append, chars, String.ofList_toList]
  have place : errorAt text.toList rest fault = ⟨fault, .after before⟩ := by rw [← chars, errorAt_append]
  rw [place, Position.after_eq]
  refine ⟨String.ofList before, String.ofList rest, whole, ?_⟩
  simp only [String.toList_ofList, true_and]
  refine ⟨?_, ?_, fun trailing => ?_⟩
  · rw [whole, String.utf8ByteSize_append]
    exact Nat.le_add_right _ _
  · exact String.Pos.Raw.isValid_iff_exists_append.2 ⟨_, _, whole, rfl⟩
  · obtain ⟨f, left, read, left_eq⟩ := behind ((ParseFault.message_eq_trailing_iff fault).1 trailing)
    refine ⟨f, left, read, left_eq, ?_⟩
    rw [← chars] at read
    rw [parse, String.toList_ofList]
    exact parseChars_of_cut read left_eq

theorem parse_error_place_second_line :
    parse "'é' // ü\n 1" = .error ⟨.trailing, ⟨12, 2, 2⟩⟩ ∧
      ∃ before after, "'é' // ü\n 1" = before ++ after ∧
        12 = before.utf8ByteSize ∧
        12 ≤ "'é' // ü\n 1".utf8ByteSize ∧
        String.Pos.Raw.IsValid "'é' // ü\n 1" ⟨12⟩ ∧
        2 = 1 + before.toList.count '\n' ∧
        2 = 1 + (before.toList.reverse.takeWhile (· ≠ '\n')).length ∧
        ∃ f left,
          (Grammar.ofLevels maxNesting).choice "'é' // ü\n 1".toList = .ok f left ∧
          skipLayout left = after.toList ∧
          parse before = .ok f := by
  have found : (match parse "'é' // ü\n 1" with
      | .ok _ => none
      | .error e => some e) = some ⟨.trailing, ⟨12, 2, 2⟩⟩ := by decide +kernel
  cases read : parse "'é' // ü\n 1" with
  | ok f =>
    rw [read] at found
    cases found
  | error e =>
    rw [read] at found
    cases found
    obtain ⟨before, after, whole, offset, inside, boundary, line, column, behind⟩ := parse_error_place read
    exact ⟨rfl, before, after, whole, offset, inside, boundary, line, column, behind rfl⟩

end Formula

end DerivedColumns
