import ComponentFile.Proofs.Related
import ComponentFile.Proofs.Script.Placement
import ComponentFile.Proofs.Text.Places

/-! Maps of extracted script are dense and in order. The stream is read as long as its lexemes come
one behind the other, and each that stands on characters gets a mapping, in the order of the stream;
that is the order of their places as well, so a place on a line is found under the lexeme before it. -/
namespace ComponentFile.TokenMap

/- Lexemes of which none begins before another that precedes it has ended; an empty one does not
count for that, and it does not stand at the end of the content. -/
structure InOrder (content : Text) (read : List Span) : Prop where
  inside : ∀ s ∈ read, s.start = s.stop → s.stop < content.size
  ordered : read.Pairwise fun e s => e.start ≠ e.stop → s.start ≠ s.stop → e.stop ≤ s.start

def Stops (content : Text) (read : List Span) (s : Span) : Prop :=
  (s.start = s.stop ∧ content.size ≤ s.stop) ∨
    (s.start ≠ s.stop ∧ ∃ e ∈ read, e.start ≠ e.stop ∧ s.start < e.stop)

/- A lexeme that gets a mapping once it is read: it is not empty, and stands on whole characters. -/
def mapped (content : Text) (s : Span) : Bool := s.start ≠ s.stop && (s.slice? content).isSome

def Behind (read : List Span) (stop : Nat) : Prop :=
  ∀ n, n < stop ↔ ∃ e ∈ read, e.start ≠ e.stop ∧ n < e.stop

section Reading
variable {content : Text} {read : List Span} {s : Span} {stop : Nat}

theorem inOrderOnward (front : InOrder content read) (onward : ¬ Stops content read s) :
    InOrder content (read ++ [s]) := by
  constructor
  · intro e member empty
    rcases List.mem_append.mp member with old | new
    · exact front.inside e old empty
    · cases List.mem_singleton.mp new
      by_contra past
      exact onward (.inl ⟨empty, Nat.le_of_not_lt past⟩)
  · rw [List.pairwise_append]
    refine ⟨front.ordered, List.pairwise_singleton _ s, ?_⟩
    intro e member _ new some nonempty
    cases List.mem_singleton.mp new
    by_contra overlaps
    exact onward (.inr ⟨nonempty, e, member, some, Nat.lt_of_not_le overlaps⟩)

theorem behindEmpty (behind : Behind read stop) (empty : s.start = s.stop) :
    Behind (read ++ [s]) stop := by
  intro n
  rw [behind n]
  constructor
  · rintro ⟨e, member, rest⟩
    exact ⟨e, List.mem_append_left _ member, rest⟩
  · rintro ⟨e, member, some, before⟩
    rcases List.mem_append.mp member with old | new
    · exact ⟨e, old, some, before⟩
    · cases List.mem_singleton.mp new
      exact absurd empty some

theorem behindNext (behind : Behind read stop) (nonempty : s.start ≠ s.stop)
    (later : stop ≤ s.start) (span : s.start ≤ s.stop) : Behind (read ++ [s]) s.stop := by
  intro n
  constructor
  · intro before
    exact ⟨s, by simp, nonempty, before⟩
  · rintro ⟨e, member, some, before⟩
    rcases List.mem_append.mp member with old | new
    · have := (behind n).mpr ⟨e, old, some, before⟩
      omega
    · cases List.mem_singleton.mp new
      exact before

end Reading

def withToken (content : Text) (lines : Lines) (shift source : Nat) (b : MapDraft) (s : Span) :
    MapDraft :=
  withLexeme content lines shift source b s ((s.slice? content).getD [])

section Stream
variable (content : Text) (lines : Lines) (shift source : Nat)

theorem mapLexemesStep {front : List Span} {stop : Nat} {s : Span} (b : MapDraft) (rest : List Span)
    (behind : Behind front stop) (span : s.start ≤ s.stop) :
    (Stops content front s ∧
        mapLexemes content lines content.size shift source stop b (s :: rest) = b) ∨
      (¬ Stops content front s ∧ ∃ stop', Behind (front ++ [s]) stop' ∧
        mapLexemes content lines content.size shift source stop b (s :: rest) =
          mapLexemes content lines content.size shift source stop'
            (([s].filter (mapped content)).foldl (withToken content lines shift source) b) rest) := by
  rw [mapLexemes]
  by_cases empty : s.start = s.stop
  · rw [if_pos empty]
    by_cases past : content.size ≤ s.stop
    · exact .inl ⟨.inl ⟨empty, past⟩, if_pos past⟩
    · refine .inr ⟨?_, stop, behindEmpty behind empty, ?_⟩
      · rintro (⟨_, atEnd⟩ | ⟨some, _⟩)
        · exact past atEnd
        · exact some empty
      · rw [if_neg past]
        simp [mapped, empty]
  · rw [if_neg empty]
    by_cases overlaps : s.start < stop
    · exact .inl ⟨.inr ⟨empty, (behind s.start).mp overlaps⟩, if_pos overlaps⟩
    · refine .inr ⟨?_, s.stop, behindNext behind empty (Nat.le_of_not_lt overlaps) span, ?_⟩
      · rintro (⟨none, _⟩ | ⟨_, reaches⟩)
        · exact empty none
        · exact overlaps ((behind s.start).mpr reaches)
      · rw [if_neg overlaps]
        cases slice : s.slice? content with
        | none => simp [mapped, slice]
        | some name => simp [mapped, slice, empty, withToken, withLexeme]

theorem mapLexemesReads {front stream : List Span} {stop : Nat} (b : MapDraft)
    (spans : ∀ s ∈ stream, s.start ≤ s.stop) (behind : Behind front stop)
    (ordered : InOrder content front) :
    ∃ read rest, stream = read ++ rest ∧ InOrder content (front ++ read) ∧
      (∀ s ∈ rest.head?, Stops content (front ++ read) s) ∧
      mapLexemes content lines content.size shift source stop b stream =
        (read.filter (mapped content)).foldl (withToken content lines shift source) b := by
  induction stream generalizing stop b front with
  | nil => exact ⟨[], [], rfl, by simpa using ordered, by simp, rfl⟩
  | cons s rest ih =>
    rcases mapLexemesStep content lines shift source b rest behind (spans s List.mem_cons_self) with
      ⟨stops, same⟩ | ⟨onward, stop', reaches, same⟩
    · refine ⟨[], s :: rest, rfl, by simpa using ordered, ?_, same⟩
      rintro _ ⟨⟩
      simpa using stops
    · have later : ∀ t ∈ rest, t.start ≤ t.stop := fun t member =>
        spans t (List.mem_cons_of_mem s member)
      obtain ⟨read, rest', rfl, inOrder, stops, reads⟩ :=
        ih _ later reaches (inOrderOnward ordered onward)
      rw [List.append_assoc, List.singleton_append] at inOrder stops
      refine ⟨s :: read, rest', rfl, inOrder, stops, ?_⟩
      rw [same, reads, ← List.foldl_append, ← List.filter_append, List.singleton_append]

theorem tokensOnward (b : MapDraft) (tokens : List Span) :
    b.names.Onward (tokens.foldl (withToken content lines shift source) b).names := by
  induction tokens generalizing b with
  | nil => exact Lexicon.onwardSame b.names
  | cons s rest ih =>
    exact Lexicon.onwardTrans (b.names.internOnward ((s.slice? content).getD []))
      (ih (withToken content lines shift source b s))

theorem tokensSources (b : MapDraft) (tokens : List Span) :
    (tokens.foldl (withToken content lines shift source) b).sources = b.sources ∧
      (tokens.foldl (withToken content lines shift source) b).file = b.file := by
  induction tokens generalizing b with
  | nil => exact ⟨rfl, rfl⟩
  | cons s rest ih => exact ih (withToken content lines shift source b s)

theorem tokensMapped (b : MapDraft) (tokens : List Span) (indexed : b.names.Indexed)
    (small : (tokens.foldl (withToken content (Lines.ofText content) shift source)
      b).names.texts.length ≤ Word.size32)
    (texts : ∀ s ∈ tokens, mapped content s = true) :
    ∃ made, (tokens.foldl (withToken content (Lines.ofText content) shift source) b).mappings =
        b.mappings ++ made ∧
      List.Forall₂ (fun s m => m.source = source ∧ ∃ name, MapsLexeme content shift
        (tokens.foldl (withToken content (Lines.ofText content) shift source) b).names.texts
        s name m) tokens made := by
  induction tokens generalizing b with
  | nil => exact ⟨[], (List.append_nil _).symm, .nil⟩
  | cons s rest ih =>
    have text := texts s List.mem_cons_self
    simp only [mapped, Bool.and_eq_true, decide_eq_true_eq, Option.isSome_iff_exists] at text
    obtain ⟨nonempty, name, slice⟩ := text
    have same : withToken content (Lines.ofText content) shift source b s =
        withLexeme content (Lines.ofText content) shift source b s name := by
      rw [withToken, slice, Option.getD_some]
    rw [List.foldl_cons, same] at small ⊢
    obtain ⟨made, mappings, related⟩ := ih _ (Lexicon.indexedIntern indexed name) small
      fun t member => texts t (List.mem_cons_of_mem s member)
    have longer := (tokensOnward content (Lines.ofText content) shift source
      (withLexeme content (Lines.ofText content) shift source b s name) rest).texts
    have named := Lexicon.foundOnward longer
      (Lexicon.internFound indexed name (Nat.le_trans longer.length_le small))
    refine ⟨⟨positionOf (Lines.ofText content) content s.start,
      ⟨((positionOf (Lines.ofText content) content s.start).line + shift) % Word.size32,
        (positionOf (Lines.ofText content) content s.start).column⟩, source,
      some (b.names.intern name).2⟩ :: made, ?_, .cons ⟨rfl, name, nonempty, slice, named, rfl, rfl⟩
        related⟩
    rw [mappings]
    simp [withLexeme, MapDraft.record, MapDraft.internName]

end Stream

/- The mapping of a token that is the part `name` of the content. Its place is found by counting
from the beginning, with line breaks of all three kinds and UTF-16 units. -/
structure MapsToken (content : Text) (offset : Int) (names : List Text) (token : Span) (m : Mapping)
    (before name after : Text) : Prop where
  cut : content = before ++ name ++ after
  start : before.size = token.start
  stop : token.start + name.size = token.stop
  nonempty : name ≠ []
  named : m.name.bind (names[·]?) = some name
  source : m.source = 0
  generated : m.generated = Position.walk (name ++ after) ⟨0, 0⟩ before
  line : (m.generated.line : Int) + offset - 1 < Word.size32 →
    (m.origin.line : Int) = m.generated.line + offset - 1
  column : m.origin.column = m.generated.column

theorem positionWalk (a b : Text) :
    positionOf (Lines.ofText (a ++ b)) (a ++ b) a.size = Position.walk b ⟨0, 0⟩ a := by
  obtain ⟨lead, line, split, place, position⟩ := positionCut a b
  obtain ⟨lines, none, some⟩ := Position.walkBreaks ⟨0, 0⟩ 0 b a
  rw [position]
  have column : (Position.walk b ⟨0, 0⟩ a).column = line.units := by
    cases last : (Lines.breakEnds 0 b a).getLast? with
    | none =>
      rw [last] at place
      have first : lead = [] := Text.sizeZero place
      rw [none (List.getLast?_eq_none_iff.mp last), split, first, List.nil_append, Nat.zero_add]
    | some n =>
      rw [last] at place
      obtain ⟨lead', line', split', place', column⟩ := some n last
      have sizes : lead.size = lead'.size := by rw [place, ← place', Nat.zero_add]; rfl
      obtain ⟨between, rfl, rfl⟩ := Text.cutOrder (split.symm.trans split') (Nat.le_of_eq sizes)
      have same : between = [] := Text.sizeZero (by rw [Text.sizeAppend] at sizes; omega)
      rw [column, same, List.nil_append]
  rw [← column]
  refine congrArg₂ Position.mk ?_ rfl
  rw [lines, Nat.zero_add]

def Clears (names : List Text) (m n : Mapping) : Prop :=
  ∃ name, m.name.bind (names[·]?) = some name ∧ name ≠ [] ∧
    (m.generated.line < n.generated.line ∨ (m.generated.line = n.generated.line ∧
      m.generated.column + name.units ≤ n.generated.column))

section Order
variable {content : Text} {offset : Int} {names : List Text} {a b : Span} {m n : Mapping}

theorem clearsBefore (h : Clears names m n) : m.generated.before n.generated = true := by
  obtain ⟨name, _, nonempty, clear⟩ := h
  have := Position.unitsPositive nonempty
  rw [Position.beforeExact]
  omega

theorem tokenOrder {before name after before' name' after' : Text}
    (first : MapsToken content offset names a m before name after)
    (second : MapsToken content offset names b n before' name' after') (order : a.stop ≤ b.start) :
    Clears names m n := by
  have same := first.cut.symm.trans second.cut
  rw [List.append_assoc before'] at same
  obtain ⟨between, rfl, rfl⟩ := Text.cutOrder same (by
    rw [Text.sizeAppend, first.start, first.stop, second.start]
    exact order)
  refine ⟨name, first.named, first.nonempty, ?_⟩
  have next : n.generated =
      Position.walk (name' ++ after') m.generated (name ++ between) := by
    rw [second.generated, first.generated, List.append_assoc before, Position.walkAppend,
      List.append_assoc name]
  have moves := Position.walkMoves m.generated (name' ++ after') (name ++ between)
  rw [← next, Text.unitsAppend] at moves
  omega

theorem coveringFound {map : SourceMap} {front later : List Mapping} {p : Position}
    (ascending : map.mappings.Pairwise fun a b => a.generated.before b.generated = true)
    (cut : map.mappings = front ++ m :: later) (line : p.line = m.generated.line)
    (onward : m.generated.column ≤ p.column)
    (upTo : ∀ n ∈ later.head?, p.before n.generated = true) : map.covering? p = some m := by
  have here : m.generated.atMost p = true := by
    rw [Position.atMostExact]
    omega
  have passed : ∀ a ∈ front, a.generated.atMost p = true := by
    intro a member
    rw [cut, List.pairwise_append] at ascending
    have := ascending.2.2 a member m List.mem_cons_self
    rw [Position.beforeExact] at this
    rw [Position.atMostExact]
    omega
  have stops : later.takeWhile (·.generated.atMost p) = [] := by
    cases later with
    | nil => rfl
    | cons n more =>
      have past := Position.beforeNotAtMost.mp (upTo n rfl)
      simp [past]
  unfold SourceMap.covering?
  rw [cut, List.takeWhile_append_of_pos passed, List.takeWhile_cons, if_pos here, stops,
    List.getLast?_append]
  simp [line]

end Order

theorem tokenSolid {content : Text} {offset : Int} {names : List Text} {token : Span} {m : Mapping}
    {before name after : Text} (maps : MapsToken content offset names token m before name after) :
    token.start ≠ token.stop := by
  have := Text.sizePositive maps.nonempty
  have := maps.stop
  omega

theorem mapsToken {content name : Text} {offset : Int} {names : List Text} {token : Span}
    {m : Mapping} (lowest : 1 ≤ offset) (source : m.source = 0)
    (maps : MapsLexeme content (offset - 1).toNat names token name m) :
    ∃ before after, MapsToken content offset names token m before name after := by
  obtain ⟨before, after, cut, start, stop⟩ := Text.sliceExact.mp maps.slice
  refine ⟨before, after, cut, start, stop, ?_, maps.named, source, ?_, ?_, by rw [maps.origin]⟩
  · rintro rfl
    exact maps.nonempty stop
  · rw [maps.generated, ← start, cut, List.append_assoc]
    exact positionWalk before (name ++ after)
  · intro word
    have fits : m.generated.line + (offset - 1).toNat < Word.size32 := by omega
    rw [maps.origin, Nat.mod_eq_of_lt fits]
    push_cast
    omega

structure Dense (content file : Text) (offset : Int) (stream : List Span) (map : SourceMap) :
    Prop where
  component : map.file = some file
  sources : map.sources = [file]
  tokens : ∃ read rest, stream = read ++ rest ∧ InOrder content read ∧
    (∀ s ∈ rest.head?, Stops content read s) ∧
    List.Forall₂ (fun token m => ∃ before name after,
        MapsToken content offset map.names token m before name after)
      (read.filter (mapped content)) map.mappings
  ascending : map.mappings.Pairwise fun a b => a.generated.before b.generated = true
  found : ∀ front m later p, map.mappings = front ++ m :: later → p.line = m.generated.line →
    m.generated.column ≤ p.column → (∀ n ∈ later.head?, p.before n.generated = true) →
      map.covering? p = some m
  inside : ∀ m ∈ map.mappings, ∀ name, m.name.bind (map.names[·]?) = some name →
    ∀ p : Position, p.line = m.generated.line → m.generated.column ≤ p.column →
      p.column < m.generated.column + name.units → map.covering? p = some m

theorem denseFinish {content file : Text} {offset : Int} {read rest : List Span} {b : MapDraft}
    (component : b.file = some file) (sources : b.sources.texts = [file]) (inOrder : InOrder content read)
    (stops : ∀ s ∈ rest.head?, Stops content read s)
    (related : List.Forall₂ (fun token m => ∃ before name after,
        MapsToken content offset b.names.texts token m before name after)
      (read.filter (mapped content)) b.mappings) :
    Dense content file offset (read ++ rest) b.finish := by
  have clear : b.mappings.Pairwise (Clears b.names.texts) := by
    refine pairwiseRelated ?_ related (inOrder.ordered.filter (mapped content))
    rintro token token' m n ⟨_, _, _, first⟩ ⟨_, _, _, second⟩ order
    exact tokenOrder first second (order (tokenSolid first) (tokenSolid second))
  have ascending : b.mappings.Pairwise fun a b => a.generated.before b.generated = true :=
    clear.imp clearsBefore
  have sorted : SourceMap.sortMappings b.mappings = b.mappings :=
    List.mergeSort_of_pairwise (ascending.imp Position.beforeAtMost)
  have same : b.finish = ⟨b.file, b.sources.texts, b.names.texts, b.mappings⟩ := by
    rw [MapDraft.finish, sorted]
  have found : ∀ front m later p, b.mappings = front ++ m :: later → p.line = m.generated.line →
      m.generated.column ≤ p.column → (∀ n ∈ later.head?, p.before n.generated = true) →
        b.finish.covering? p = some m := by
    rw [same]
    exact fun front m later p cut => coveringFound ascending cut
  have inside : ∀ m ∈ b.mappings, ∀ name, m.name.bind (b.names.texts[·]?) = some name →
      ∀ p : Position, p.line = m.generated.line → m.generated.column ≤ p.column →
        p.column < m.generated.column + name.units → b.finish.covering? p = some m := by
    intro m member name named p line onward upTo
    obtain ⟨front, later, cut⟩ := List.append_of_mem member
    refine found front m later p cut line onward fun n next => ?_
    rw [cut, List.pairwise_append, List.pairwise_cons] at clear
    obtain ⟨name', named', _, apart⟩ := clear.2.1.1 n (List.mem_of_mem_head? next)
    cases named.symm.trans named'
    rw [Position.beforeExact]
    omega
  rw [same] at found inside ⊢
  exact ⟨component, sources, ⟨read, rest, rfl, inOrder, stops, related⟩, ascending, found, inside⟩

/- Any stream over any content gets a dense map that shifts its lines, where the places of its tokens
and the number of the line on which the content begins are words. -/
theorem streamMappedDensely (content file : Text) {offset : Int} {stream : List Span}
    (lowest : 1 ≤ offset) (highest : offset ≤ Word.size32)
    (spans : ∀ s ∈ stream, s.start ≤ s.stop ∧ s.stop < Word.size32) :
    ∃ map, ofStream content file offset stream = .ok map ∧ Dense content file offset stream map := by
  have fits : Word.fits32 (offset - 1) = true := Word.fits32Exact.mpr (by omega)
  have behind : Behind [] 0 := fun n => by simp
  have forward : ∀ s ∈ stream, s.start ≤ s.stop := fun s member => (spans s member).1
  let start : MapDraft := ((MapDraft.empty.withFile file).internSource file).1
  have names := @mapLexemesNames content (Lines.ofText content) content.size (offset - 1).toNat 0 0 _
    start stream forward (fun s member _ _ => Nat.le_of_lt (spans s member).2) (Nat.le_refl 0)
    (Nat.zero_le _)
  obtain ⟨read, rest, rfl, inOrder, stops, reads⟩ :=
    mapLexemesReads content (Lines.ofText content) (offset - 1).toNat 0 start forward behind
      ⟨by simp, .nil⟩
  have texts : ∀ s ∈ read.filter (mapped content), mapped content s = true := fun s member =>
    (List.mem_filter.mp member).2
  rw [reads] at names
  obtain ⟨made, mappings, related⟩ := tokensMapped content (offset - 1).toNat 0 start
    (read.filter (mapped content)) Lexicon.indexedEmpty names texts
  obtain ⟨sources, component⟩ := tokensSources content (Lines.ofText content) (offset - 1).toNat 0
    start (read.filter (mapped content))
  rw [← reads] at mappings related sources component
  rw [show start.mappings = [] from rfl, List.nil_append] at mappings
  rw [← mappings] at related
  refine ⟨_, if_pos fits, denseFinish component ?_ inOrder stops (related.imp ?_)⟩
  · exact congrArg Lexicon.texts sources
  · rintro token m ⟨source, name, maps⟩
    obtain ⟨before, after, token⟩ := mapsToken lowest source maps
    exact ⟨before, name, after, token⟩

theorem shortStreamDense :
    ∃ map, ofStream "a\r\n '😀'\rbé" "App.vue" 3
        [⟨0, 1⟩, ⟨1, 1⟩, ⟨4, 10⟩, ⟨11, 12⟩, ⟨12, 13⟩, ⟨12, 14⟩, ⟨14, 14⟩] = .ok map ∧
      Dense "a\r\n '😀'\rbé" "App.vue" 3
        [⟨0, 1⟩, ⟨1, 1⟩, ⟨4, 10⟩, ⟨11, 12⟩, ⟨12, 13⟩, ⟨12, 14⟩, ⟨14, 14⟩] map :=
  streamMappedDensely _ _ (by decide) (by decide) (by decide)

end ComponentFile.TokenMap
