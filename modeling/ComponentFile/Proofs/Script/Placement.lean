import ComponentFile.Script.TokenMap
import ComponentFile.Proofs.Mapping.Draft
import ComponentFile.Proofs.Section.Contents
import ComponentFile.Proofs.Text.LineNumbers

/-! Dense maps of extracted script point to the places of the lexemes in the component. The script
is a part of the component, so its line breaks are among those of the component, and a line that
begins inside of the script is the same line in both. -/
namespace ComponentFile.TokenMap

theorem positionCut (a b : Text) :
    ∃ lead line, a = lead ++ line ∧
      lead.size = (Lines.breakEnds 0 b a).getLast?.getD 0 ∧
      positionOf (Lines.ofText (a ++ b)) (a ++ b) a.size =
        ⟨(Lines.breakEnds 0 b a).length, line.units⟩ := by
  obtain ⟨lead, line, rfl, place⟩ := Lines.lineCut a b
  refine ⟨lead, line, rfl, place, ?_⟩
  have slice := Text.sliceMiddle lead line b
  unfold positionOf
  simp only [Lines.lineAtCut, Lines.startAtCut, Option.getD_some]
  rw [← place, Text.sizeAppend, slice]
  rfl

structure MapsLexeme (content : Text) (shift : Nat) (names : List Text) (lexeme : Span) (name : Text)
    (m : Mapping) : Prop where
  nonempty : lexeme.start ≠ lexeme.stop
  slice : lexeme.slice? content = some name
  named : m.name.bind (names[·]?) = some name
  generated : m.generated = positionOf (Lines.ofText content) content lexeme.start
  origin : m.origin = ⟨(m.generated.line + shift) % Word.size32, m.generated.column⟩

def withLexeme (content : Text) (lines : Lines) (shift source : Nat) (b : MapDraft) (lexeme : Span)
    (name : Text) : MapDraft :=
  b.record (positionOf lines content lexeme.start)
    ⟨((positionOf lines content lexeme.start).line + shift) % Word.size32,
      (positionOf lines content lexeme.start).column⟩ source (some name)

theorem mapLexemesCases (content : Text) (lines : Lines) (size shift source stop : Nat)
    (b : MapDraft) (s : Span) (rest : List Span) :
    mapLexemes content lines size shift source stop b (s :: rest) = b ∨
      (∃ stop', (stop' = stop ∨ stop ≤ s.start ∧ stop' = s.stop) ∧
        mapLexemes content lines size shift source stop b (s :: rest) =
          mapLexemes content lines size shift source stop' b rest) ∨
      ∃ name, s.start ≠ s.stop ∧ stop ≤ s.start ∧ s.slice? content = some name ∧
        mapLexemes content lines size shift source stop b (s :: rest) =
          mapLexemes content lines size shift source s.stop
            (withLexeme content lines shift source b s name) rest := by
  rw [mapLexemes]
  split
  · split
    · exact .inl rfl
    · exact .inr (.inl ⟨stop, .inl rfl, rfl⟩)
  · rename_i nonempty
    split
    · exact .inl rfl
    · rename_i later
      have later := Nat.le_of_not_lt later
      split
      · exact .inr (.inl ⟨s.stop, .inr ⟨later, rfl⟩, rfl⟩)
      · rename_i name slice
        exact .inr (.inr ⟨name, nonempty, later, slice, rfl⟩)

section Stream
variable {content : Text} {lines : Lines} {size shift source : Nat}

theorem mapLexemesOnward {stop : Nat} (b : MapDraft) (stream : List Span) :
    b.names.Onward (mapLexemes content lines size shift source stop b stream).names := by
  induction stream generalizing stop b with
  | nil => exact Lexicon.onwardSame b.names
  | cons s rest ih =>
    rcases mapLexemesCases content lines size shift source stop b s rest with
      same | ⟨stop', _, same⟩ | ⟨name, _, _, _, same⟩
    · rw [same]
      exact Lexicon.onwardSame b.names
    · rw [same]
      exact ih b
    · rw [same]
      exact Lexicon.onwardTrans (b.names.internOnward name)
        (ih (withLexeme content lines shift source b s name))

theorem mapLexemesNames {stop most : Nat} {b : MapDraft} {stream : List Span}
    (spans : ∀ s ∈ stream, s.start ≤ s.stop)
    (ends : ∀ s ∈ stream, ∀ name, s.slice? content = some name → s.stop ≤ most)
    (begun : b.names.texts.length ≤ stop) (small : b.names.texts.length ≤ most) :
    (mapLexemes content lines size shift source stop b stream).names.texts.length ≤ most := by
  induction stream generalizing stop b with
  | nil => exact small
  | cons s rest ih =>
    have span := spans s List.mem_cons_self
    have spans' : ∀ s ∈ rest, s.start ≤ s.stop := fun t member =>
      spans t (List.mem_cons_of_mem s member)
    have ends' : ∀ s ∈ rest, ∀ name, s.slice? content = some name → s.stop ≤ most :=
      fun t member => ends t (List.mem_cons_of_mem s member)
    rcases mapLexemesCases content lines size shift source stop b s rest with
      same | ⟨stop', further, same⟩ | ⟨name, nonempty, later, slice, same⟩
    · rw [same]
      exact small
    · rw [same]
      exact ih spans' ends' (by omega) small
    · have here := ends s List.mem_cons_self name slice
      have grown : (withLexeme content lines shift source b s name).names.texts.length ≤
          b.names.texts.length + 1 := b.names.internLength name
      rw [same]
      exact ih spans' ends' (by omega) (by omega)

theorem mapLexemesOrigin {stop : Nat} {b : MapDraft} {stream : List Span} {m : Mapping}
    (indexed : b.names.Indexed)
    (small : (mapLexemes content (Lines.ofText content) size shift source stop b
      stream).names.texts.length ≤ Word.size32)
    (member : m ∈
      (mapLexemes content (Lines.ofText content) size shift source stop b stream).mappings) :
    m ∈ b.mappings ∨ ∃ lexeme ∈ stream, ∃ name, MapsLexeme content shift
      (mapLexemes content (Lines.ofText content) size shift source stop b stream).names.texts
      lexeme name m := by
  induction stream generalizing stop b with
  | nil => exact .inl member
  | cons s rest ih =>
    rcases mapLexemesCases content (Lines.ofText content) size shift source stop b s rest with
      same | ⟨stop', _, same⟩ | ⟨name, nonempty, _, slice, same⟩
    · rw [same] at member
      exact .inl member
    · rw [same] at member small ⊢
      rcases ih indexed small member with old | ⟨lexeme, inRest, maps⟩
      · exact .inl old
      · exact .inr ⟨lexeme, List.mem_cons_of_mem s inRest, maps⟩
    · rw [same] at member small ⊢
      rcases ih (Lexicon.indexedIntern indexed name) small member with
        recorded | ⟨lexeme, inRest, maps⟩
      · rcases List.mem_append.mp recorded with old | new
        · exact .inl old
        · -- the mapping of `s` itself; its name is still found in the longer table
          cases List.mem_singleton.mp new
          have longer := (@mapLexemesOnward content (Lines.ofText content) size shift source s.stop
            (withLexeme content (Lines.ofText content) shift source b s name) rest).texts
          refine .inr ⟨s, List.mem_cons_self, name, nonempty, slice, ?_, rfl, rfl⟩
          exact Lexicon.foundOnward longer
            (Lexicon.internFound indexed name (Nat.le_trans longer.length_le small))
      · exact .inr ⟨lexeme, List.mem_cons_of_mem s inRest, maps⟩

end Stream

/- The place in the component that `m` points to, for a lexeme that begins at byte `start` of the
section. Columns count UTF-16 units; on the first line of the section they leave out what stands
before the section. -/
structure PointsTo (source : Text) (s : Section) (start : Nat) (name : Text) (m : Mapping) : Prop where
  begins : ∃ before after, source = before ++ name ++ after ∧
    before.size = s.contentSpan.start + start
  line : m.origin.line = (Lines.ofText source).lineAt (s.contentSpan.start + start)
  shifted : m.origin.line = m.generated.line + (s.offset - 1)
  fits : m.origin.line < Word.size32
  column : ∃ lineStart line, (Lines.ofText source).start? m.origin.line = some lineStart ∧
    source.slice? lineStart (s.contentSpan.start + start) = some line ∧
    (1 ≤ m.generated.line → m.origin.column = line.units) ∧
    (m.generated.line = 0 → ∃ lead, source.slice? lineStart s.contentSpan.start = some lead ∧
      lead.units ≤ line.units ∧ m.origin.column = line.units - lead.units)

section Inside
variable {source before u v after : Text}

theorem breaksInside (more : v ≠ []) : Lines.breakEnds 0 (v ++ after) (before ++ u) =
    Lines.breakEnds 0 (u ++ (v ++ after)) before ++
      (Lines.breakEnds 0 v u).map (before.size + ·) := by
  have head : (v ++ after).head? = v.head? := by
    rw [List.head?_append, List.head?_eq_some_head more]
    rfl
  rw [Lines.breakEndsAppend, Lines.breakEndsNext _ u head, Nat.zero_add, ← Lines.breakEndsShift,
    Nat.add_zero]

theorem lineInside (cut : source = before ++ (u ++ v) ++ after) (more : v ≠ []) :
    (Lines.ofText source).lineAt (before.size + u.size) =
      (Lines.ofText (u ++ v)).lineAt u.size + (Lines.ofText source).lineAt before.size := by
  have whole : source = (before ++ u) ++ (v ++ after) := by simp [cut]
  have part : source = before ++ (u ++ (v ++ after)) := by simp [cut]
  rw [← Text.sizeAppend, Lines.lineAtCut u v]
  conv_lhs => rw [whole, Lines.lineAtCut, breaksInside more]
  conv_rhs => rw [part, Lines.lineAtCut]
  rw [List.length_append, List.length_map, Nat.add_comm]

theorem columnInside {p : Position} (cut : source = before ++ (u ++ v) ++ after) (more : v ≠ [])
    (here : p = positionOf (Lines.ofText (u ++ v)) (u ++ v) u.size) :
    ∃ lineStart line, (Lines.ofText source).start?
        ((Lines.ofText source).lineAt (before.size + u.size)) = some lineStart ∧
      source.slice? lineStart (before.size + u.size) = some line ∧
      (1 ≤ p.line → p.column = line.units) ∧
      (p.line = 0 → ∃ lead, source.slice? lineStart before.size = some lead ∧
        line.units = lead.units + p.column) := by
  have whole : source = (before ++ u) ++ (v ++ after) := by simp [cut]
  obtain ⟨lead, line, split, place, position⟩ := positionCut u v
  rw [here, position, whole, ← Text.sizeAppend, Lines.lineAtCut, Lines.startAtCut, breaksInside more]
  rcases List.eq_nil_or_concat (Lines.breakEnds 0 v u) with none | ⟨front, last, some⟩
  · -- no break inside of the part: the line began in what stands before it
    obtain ⟨head, first, rfl, start⟩ := Lines.lineCut before (u ++ (v ++ after))
    rw [none] at place ⊢
    have : lead = [] := Text.sizeZero place
    subst this
    simp only [List.map_nil, List.append_nil, List.nil_append] at split ⊢
    subst split
    rw [← start]
    have onward : (head ++ first) ++ u = head ++ (first ++ u) := by simp
    refine ⟨head.size, first ++ u, rfl, ?_, by simp, ?_⟩
    · rw [onward, Text.sizeAppend]
      exact Text.sliceMiddle head (first ++ u) (v ++ after)
    · intro _
      refine ⟨first, ?_, Text.unitsAppend first u⟩
      rw [List.append_assoc, Text.sizeAppend]
      exact Text.sliceMiddle head first (u ++ (v ++ after))
  · -- the last break is inside of the part, and the line is the same there
    rw [List.concat_eq_append] at some
    rw [some] at place ⊢
    simp only [List.getLast?_append, List.getLast?_singleton, Option.some_or,
      Option.getD_some] at place
    subst split
    refine ⟨(before ++ lead).size, line, ?_, ?_, fun _ => rfl, by simp⟩
    · simp [place]
    · have onward : before ++ (lead ++ line) = (before ++ lead) ++ line := by simp
      rw [onward, Text.sizeAppend _ line]
      exact Text.sliceMiddle (before ++ lead) line (v ++ after)

end Inside

theorem lexemeCut {content name : Text} {shift : Nat} {names : List Text} {lexeme : Span}
    {m : Mapping} (maps : MapsLexeme content shift names lexeme name m) :
    ∃ u w, content = u ++ (name ++ w) ∧ u.size = lexeme.start ∧ name ++ w ≠ [] := by
  obtain ⟨u, w, text, atStart, atStop⟩ := Text.sliceExact.mp maps.slice
  refine ⟨u, w, by rw [text, List.append_assoc], atStart, fun empty => ?_⟩
  have : name = [] := (List.append_eq_nil_iff.mp empty).1
  subst this
  exact maps.nonempty atStop

theorem mappedPointsTo {source before after : Text} {s : Section} {names : List Text}
    {lexeme : Span} {name : Text} {m : Mapping} (small : source.size < Word.size32)
    (cut : source = before ++ s.text ++ after) (place : before.size = s.contentSpan.start)
    (offset : s.offset = (Lines.ofText source).lineAt s.contentSpan.start + 1)
    (maps : MapsLexeme s.text (s.offset - 1) names lexeme name m) :
    PointsTo source s lexeme.start name m := by
  obtain ⟨u, w, text, atStart, more⟩ := lexemeCut maps
  rw [text] at cut
  have generated : m.generated = positionOf (Lines.ofText (u ++ (name ++ w))) (u ++ (name ++ w))
      u.size := by
    rw [maps.generated, text, atStart]
  have inside : m.generated.line = (Lines.ofText (u ++ (name ++ w))).lineAt u.size := by
    rw [generated]
    rfl
  have line : m.generated.line + (s.offset - 1) =
      (Lines.ofText source).lineAt (s.contentSpan.start + lexeme.start) := by
    rw [← place, ← atStart, lineInside cut more, inside, offset, place, Nat.add_sub_cancel]
  have word : m.generated.line + (s.offset - 1) < Word.size32 :=
    line ▸ Nat.lt_of_le_of_lt (Lines.lineAtBelow source _) small
  have shifted : m.origin.line = m.generated.line + (s.offset - 1) := by
    rw [maps.origin, Nat.mod_eq_of_lt word]
  have column : m.origin.column = m.generated.column := by rw [maps.origin]
  obtain ⟨lineStart, lineText, starts, slice, later, first⟩ := columnInside cut more generated
  rw [place, atStart] at starts slice
  rw [place] at first
  refine ⟨⟨before ++ u, w ++ after, by simp [cut], ?_⟩, shifted.trans line, shifted,
    shifted ▸ word, lineStart, lineText, ?_, slice, ?_, ?_⟩
  · rw [Text.sizeAppend, place, atStart]
  · rw [shifted, line]
    exact starts
  · intro below
    rw [column]
    exact later below
  · intro onFirst
    obtain ⟨lead, leadSlice, units⟩ := first onFirst
    exact ⟨lead, leadSlice, by omega, by omega⟩

/- The map of any stream of lexemes over the text of an inline section exists, and every mapping of
it points to the place in the component where its lexeme stands. -/
theorem mappingsPointIntoComponent {source file : Text} {tags : List Text}
    {sections : List Section} {s : Section} {stream : List Span} (small : source.size < Word.size32)
    (made : sectionsOf source tags = .ok sections) (member : s ∈ sections)
    (inline : s.isExternal = false) (spans : ∀ token ∈ stream, token.start ≤ token.stop) :
    s.offset < Word.size32 ∧ ∃ map, ofStream s.text file s.offset stream = .ok map ∧
      ∀ m ∈ map.mappings, ∃ token ∈ stream, ∃ name, token.slice? s.text = some name ∧
        m.name.bind (map.names[·]?) = some name ∧
        m.generated = positionOf (Lines.ofText s.text) s.text token.start ∧
        PointsTo source s token.start name m := by
  obtain ⟨slice, recorded⟩ := Regions.sectionPlace made member
  obtain ⟨before, after, cut, place, _⟩ := Text.sliceExact.mp slice
  have below := Regions.sectionLineBelow made member
  have offset : s.offset = (Lines.ofText source).lineAt s.contentSpan.start + 1 := by
    simpa [inline] using recorded.offset
  have shift : ((s.offset : Int) - 1).toNat = s.offset - 1 := by omega
  have fits : Word.fits32 ((s.offset : Int) - 1) = true := Word.fits32Exact.mpr (by omega)
  have part : s.text.size ≤ Word.size32 := by
    rw [cut, Text.sizeAppend, Text.sizeAppend] at small
    omega
  have ends : ∀ token ∈ stream, ∀ name, token.slice? s.text = some name →
      token.stop ≤ s.text.size := fun _ _ _ found => Text.sliceEnds found
  have names := @mapLexemesNames s.text (Lines.ofText s.text) s.text.size (s.offset - 1) 0 0 _
    ((MapDraft.empty.withFile file).internSource file).1 _ spans ends (Nat.le_refl 0) (Nat.zero_le _)
  refine ⟨by omega, _, if_pos fits, ?_⟩
  intro m listed
  rw [shift] at listed ⊢
  rcases mapLexemesOrigin Lexicon.indexedEmpty (Nat.le_trans names part)
      (List.mem_mergeSort.mp listed) with old | ⟨token, inStream, name, maps⟩
  · contradiction
  · exact ⟨token, inStream, name, maps.slice, maps.named, maps.generated,
      mappedPointsTo small cut place offset maps⟩

theorem shortScriptMapped :
    sectionsOf "é\r\n <script>a\r\n  b</script>" ["script"] =
        .ok [⟨"script", "a\r\n  b", [], 2, ⟨13, 19⟩⟩] ∧
      ∃ map, ofStream "a\r\n  b" "App.vue" 2 [⟨0, 1⟩, ⟨5, 6⟩] = .ok map ∧
        map.names = [("a" : Text), "b"] ∧
        map.mappings = [⟨⟨0, 0⟩, ⟨1, 0⟩, 0, some 0⟩, ⟨⟨1, 2⟩, ⟨2, 2⟩, 0, some 1⟩] ∧
        ∀ m ∈ map.mappings, ∃ token ∈ [(⟨0, 1⟩ : Span), ⟨5, 6⟩], ∃ name,
          PointsTo "é\r\n <script>a\r\n  b</script>"
            ⟨"script", "a\r\n  b", [], 2, ⟨13, 19⟩⟩ token.start name m := by
  have made : sectionsOf "é\r\n <script>a\r\n  b</script>" ["script"] =
      .ok [⟨"script", "a\r\n  b", [], 2, ⟨13, 19⟩⟩] := by decide +kernel
  have sorted : SourceMap.sortMappings [⟨⟨0, 0⟩, ⟨1, 0⟩, 0, some 0⟩, ⟨⟨1, 2⟩, ⟨2, 2⟩, 0, some 1⟩] =
      [⟨⟨0, 0⟩, ⟨1, 0⟩, 0, some 0⟩, ⟨⟨1, 2⟩, ⟨2, 2⟩, 0, some 1⟩] :=
    List.mergeSort_of_pairwise (by decide)
  have stored : ofStream "a\r\n  b" "App.vue" 2 [⟨0, 1⟩, ⟨5, 6⟩] =
      .ok ⟨some "App.vue", ["App.vue"], ["a", "b"],
        [⟨⟨0, 0⟩, ⟨1, 0⟩, 0, some 0⟩, ⟨⟨1, 2⟩, ⟨2, 2⟩, 0, some 1⟩]⟩ := by
    rw [← sorted]
    rfl
  have spans : ∀ token ∈ [(⟨0, 1⟩ : Span), ⟨5, 6⟩], token.start ≤ token.stop := by decide
  obtain ⟨_, map, result, places⟩ := mappingsPointIntoComponent (by decide) made
    List.mem_cons_self rfl spans
  cases result.symm.trans stored
  refine ⟨made, _, stored, rfl, rfl, fun m listed => ?_⟩
  obtain ⟨token, inStream, name, _, _, _, points⟩ := places m listed
  exact ⟨token, inStream, name, points⟩

end ComponentFile.TokenMap
