import DerivedColumns.Proofs.Calendar.Iso
import DerivedColumns.Proofs.Json.Text
import DerivedColumns.Value.Json

set_option autoImplicit false

namespace DerivedColumns

open Calendar (Moment)

namespace Codec

/-- What is assumed of a codec: of the scalars without a number, and of the moments, each is read back. -/
structure ReadsBack (c : Codec) : Prop where
  null : c.read? (c.write .null) = some .null
  bool : ∀ b, c.read? (c.write (.bool b)) = some (.bool b)
  string : ∀ s : String, c.read? (c.write (.string s)) = some (.string s.toList)
  moment : ∀ m, c.readMoment? (c.writeMoment m).toList = some m

theorem readsBack_standard : standard.ReadsBack where
  null := rfl
  bool b := by cases b <;> rfl
  string s := by
    have start : Json.Scan.skipGap (Json.quoted s.toList) = Json.quoted s.toList := rfl
    change Json.Scan.wholeScalar? (Json.quoted s.toList) = _
    rw [Json.Scan.wholeScalar?, start, Json.quoted, Json.Scan.scalar?, Json.content?_quoted]
    rfl
  moment m := by
    change Calendar.readIso? (String.ofList m.isoChars).toList = some m
    rw [String.toList_ofList, Calendar.readIso?_isoChars]

end Codec

namespace Value

variable {c : Codec}

theorem decode?_string (reads : c.ReadsBack) (s : String) : decode? c (c.write (.string s)) =
    some (((c.readMoment? s.toList).map .date).getD (.text s)) := by
  rw [decode?, reads.string, Option.bind_some]
  simp only [kinds, List.findSome?_cons, String.ofList_toList]
  cases c.readMoment? s.toList <;> rfl

/-- What is written is read back, the kind with it, unless it is a text in the form of a moment: that is read as
the date. Of a number this takes that its own text is read back. -/
theorem decode?_encode (reads : c.ReadsBack) {v : Value} (finite : ∀ x, v = .number x → x.isFinite = true)
    (number : ∀ x, v = .number x → x.isFinite = true → c.read? (c.write (.number x)) = some (.number x)) :
    ((∀ s, v = .text s → c.readMoment? s.toList = none) → decode? c (v.encode c) = some v) ∧
    ∀ s m, v = .text s → c.readMoment? s.toList = some m → decode? c (v.encode c) = some (.date m) := by
  refine ⟨fun other => ?_, fun s m text form => ?_⟩
  · cases v with
    | null =>
      rw [encode, toJsonBy, decode?, reads.null]
      rfl
    | bool b =>
      rw [encode, toJsonBy, decode?, reads.bool]
      rfl
    | number x =>
      rw [encode, toJsonBy, decode?, number x rfl (finite x rfl)]
      rfl
    | date m =>
      rw [encode, toJsonBy, decode?_string reads, reads.moment]
      rfl
    | text s =>
      rw [encode, toJsonBy, decode?_string reads, other s rfl]
      rfl
  · rw [text, encode, toJsonBy, decode?_string reads, form]
    rfl

/-- One and a half is read back, and a text in the full form of a moment as the moment. -/
theorem decode?_encode_half : Codec.standard.ReadsBack ∧
    ofJson? (Value.number ⟨0x3FF8000000000000⟩).toJson.chars = some (.number ⟨0x3FF8000000000000⟩) ∧
      ∃ m, ofJson? (Value.text "2024-03-09T15:04:05").toJson.chars = some (.date m) := by
  have number : Codec.standard.read? (Codec.standard.write (.number ⟨0x3FF8000000000000⟩)) =
      some (.number ⟨0x3FF8000000000000⟩) := by decide +kernel
  have form : (Calendar.readIso? "2024-03-09T15:04:05".toList).isSome = true := by decide +kernel
  obtain ⟨m, read⟩ := Option.isSome_iff_exists.1 form
  refine ⟨Codec.readsBack_standard, ?_, m, ?_⟩
  · exact (decode?_encode Codec.readsBack_standard (v := .number _) (fun _ same => Value.number.inj same ▸ rfl)
      fun _ same _ => Value.number.inj same ▸ number).1 fun _ same => nomatch same
  · exact (decode?_encode Codec.readsBack_standard (v := .text _) (fun _ same => nomatch same)
      fun _ same => nomatch same).2 _ m rfl read

/-- So not every value is read back, even of those without numbers. -/
theorem not_decode?_encode_text : Codec.standard.ReadsBack ∧
    ¬ ∀ v : Value, (∀ x, v = .number x → x.isFinite = true) →
      (∀ x, v = .number x → Codec.standard.read? (Codec.standard.write (.number x)) = some (.number x)) →
        decode? .standard (v.encode .standard) = some v := by
  refine ⟨Codec.readsBack_standard, fun all => ?_⟩
  have back := all (.text "2024-03-09T15:04:05") (fun _ same => nomatch same) (fun _ same => nomatch same)
  have form : (Calendar.readIso? "2024-03-09T15:04:05".toList).isSome = true := by decide +kernel
  obtain ⟨m, read⟩ := Option.isSome_iff_exists.1 form
  rw [encode, toJsonBy, decode?_string Codec.readsBack_standard] at back
  change some (((Calendar.readIso? "2024-03-09T15:04:05".toList).map Value.date).getD _) = _ at back
  rw [read] at back
  cases back

end Value

end DerivedColumns
