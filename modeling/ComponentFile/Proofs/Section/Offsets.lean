import ComponentFile.Proofs.Section.Contents

/-! The text of a section and the line on which it begins. Because a section begins behind an angle,
no pair of carriage return and line feed is parted by its beginning, and the line is one more than
the number of line breaks in all that stands before it. -/
namespace ComponentFile.Regions

theorem externalExact {s : Section} : s.isExternal = true ↔ ∃ value, s.attribute? "src" = some value :=
  Table.containsExact

theorem sectionLine {source : Text} {tags : List Text} {sections : List Section} {s : Section}
    (made : sectionsOf source tags = .ok sections) (member : s ∈ sections) :
    ∃ before after, source = before ++ after ∧ before.size = s.contentSpan.start ∧
      before.getLast? = some '>' ∧
      (Lines.ofText source).lineAt s.contentSpan.start = before.lineBreaks := by
  obtain ⟨before, inside, after, same, position⟩ := sectionBehindTag made member
  have last : (before ++ ('<' :: inside ++ ['>'])).getLast? = some '>' := by
    rw [← List.append_assoc, List.getLast?_concat]
  refine ⟨_, after, same, position.symm, last, ?_⟩
  rw [position, same]
  refine Lines.lineAtBreaks ?_
  rw [last]
  simp

/- The text of a section is what stands in the document between the two ends of its region. Its
offset is zero exactly when it names a source; otherwise it is the line, from one, on which the text
begins. -/
theorem sectionTextAndOffset {source : Text} {tags : List Text} {sections : List Section}
    {s : Section} (made : sectionsOf source tags = .ok sections) (member : s ∈ sections) :
    s.contentSpan.slice? source = some s.text ∧
      (s.offset = 0 ↔ ∃ value, s.attribute? "src" = some value) ∧
      ∃ before after, source = before ++ after ∧ before.size = s.contentSpan.start ∧
        before.getLast? = some '>' ∧
        (s.attribute? "src" = none → s.offset = 1 + before.lineBreaks) := by
  obtain ⟨slice, recorded⟩ := sectionPlace made member
  obtain ⟨before, after, same, place, last, line⟩ := sectionLine made member
  have offset := recorded.offset
  rw [line] at offset
  refine ⟨slice, ?_, before, after, same, place, last, ?_⟩
  · rw [← externalExact, offset]
    split
    · rename_i external
      simp [external]
    · rename_i inline
      simp [inline]
  · intro inline
    have : ¬ s.isExternal = true := by
      rw [externalExact]
      rintro ⟨value, found⟩
      rw [inline] at found
      contradiction
    rw [offset, if_neg this, Nat.add_comm]

theorem offsetsOfTwo :
    sectionsOf "a\r\nb\r\n<t>\né</t>\r<u src=''>\nz</u>" ["t", "u"] =
        .ok [⟨"t", "\né", [], 3, ⟨9, 12⟩⟩, ⟨"u", "\nz", [("src", [])], 0, ⟨27, 29⟩⟩] ∧
      (∃ before after : Text, "a\r\nb\r\n<t>\né</t>\r<u src=''>\nz</u>".toList = before ++ after ∧
        before.size = 9 ∧ 3 = 1 + Text.lineBreaks before) ∧
      ∃ value, (⟨"u", "\nz", [("src", [])], 0, ⟨27, 29⟩⟩ : Section).attribute? "src" = some value := by
  have made : sectionsOf "a\r\nb\r\n<t>\né</t>\r<u src=''>\nz</u>" ["t", "u"] =
      .ok [⟨"t", "\né", [], 3, ⟨9, 12⟩⟩, ⟨"u", "\nz", [("src", [])], 0, ⟨27, 29⟩⟩] := by
    decide +kernel
  obtain ⟨_, _, before, after, same, place, _, inline⟩ :=
    sectionTextAndOffset made List.mem_cons_self
  obtain ⟨_, external, _⟩ := sectionTextAndOffset made (List.mem_cons_of_mem _ List.mem_cons_self)
  exact ⟨made, ⟨before, after, same, place, inline rfl⟩, external.mp rfl⟩

end ComponentFile.Regions
