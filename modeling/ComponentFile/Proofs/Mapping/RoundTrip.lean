import ComponentFile.Mapping.Document
import ComponentFile.Proofs.Json.Spelling
import ComponentFile.Proofs.Mapping.Draft
import ComponentFile.Proofs.Mapping.Fits
import ComponentFile.Proofs.Mapping.Order

/-! The document of a map is read back as the map. -/
namespace ComponentFile.SourceMap
open Json (Node Value Numeral)

theorem stringsReadable (ts : List Text) : Json.ItemsReadable (ts.map .string) := by
  induction ts with
  | nil => trivial
  | cons t rest ih => exact ⟨trivial, ih⟩

theorem stringsKept (ts : List Text) : Json.ItemsKept (ts.map .string) := by
  induction ts with
  | nil => trivial
  | cons t rest ih => exact ⟨trivial, ih⟩

theorem stringsFlat (ts : List Text) :
    Node.depthItems (Json.itemNodes (ts.map .string)) = 0 := by
  induction ts with
  | nil => rfl
  | cons t rest ih => exact (Nat.zero_max _).trans ih

theorem stringsRead {ts : List Text} {n : Node}
    (spelled : (Value.array (ts.map .string)).Spelled n) : n.list? Node.text? = some ts := by
  obtain ⟨ns, rfl, items⟩ := spelled
  unfold Node.list?
  simp only
  induction ts generalizing ns with
  | nil =>
    cases items
    rfl
  | cons t rest ih =>
    obtain ⟨n, ns, rfl, rfl, items⟩ := items
    rw [List.mapM_cons, ih ns items]
    rfl

theorem toValueReadable (m : SourceMap) : m.toValue.Readable := by
  unfold toValue Value.record
  cases m.file with
  | none => exact ⟨trivial, stringsReadable _, stringsReadable _, trivial, trivial⟩
  | some f => exact ⟨trivial, trivial, stringsReadable _, stringsReadable _, trivial, trivial⟩

theorem versionRead {n : Node} (spelled : (Value.int version).Spelled n) :
    n.word? = some version := by
  obtain ⟨w, rfl, whole⟩ := spelled
  rw [Node.word?, whole]
  rfl

theorem fileRead {file : Option Text} {n : Option Node}
    (spelled : Option.Rel Value.Spelled (file.map .string) n) :
    (n.getD .null).optional? Node.text? = some file := by
  cases file with
  | none =>
    cases spelled
    rfl
  | some f =>
    obtain ⟨rfl⟩ := spelled
    rfl

def members (m : SourceMap) : Table Text Value :=
  let rest : Table Text Value := [("sources", .array (m.sources.map .string)),
    ("names", .array (m.names.map .string)), ("mappings", .string (Segments.encode m.mappings))]
  ("version", .int version) :: match m.file with
    | some f => ("file", .string f) :: rest
    | none => rest

theorem toValueMembers (m : SourceMap) : m.toValue = .object m.members := by
  unfold toValue members Value.record
  cases m.file <;> rfl

theorem membersDistinct (m : SourceMap) : m.members.Distinct := by
  have all : (["version", "file", "sources", "names", "mappings"] : List Text).Pairwise
      fun k l => (k == l) = false := by decide
  unfold members
  rw [Table.distinctKeys]
  cases m.file with
  | some f => exact all
  | none => exact all.sublist (.cons_cons _ (.cons _ (.refl _)))

theorem membersGet (m : SourceMap) :
    (["version", "file", "sources", "names", "mappings"] : List Text).map m.members.get? =
      [some (.int version), m.file.map .string, some (.array (m.sources.map .string)),
        some (.array (m.names.map .string)), some (.string (Segments.encode m.mappings))] := by
  unfold members
  cases m.file <;> rfl
theorem toValueKept (m : SourceMap) : m.toValue.Kept := by
  rw [toValueMembers]
  refine ⟨m.membersDistinct, ?_⟩
  unfold members
  cases m.file with
  | none => exact ⟨rfl, stringsKept _, stringsKept _, trivial, trivial⟩
  | some f => exact ⟨rfl, trivial, stringsKept _, stringsKept _, trivial, trivial⟩

theorem toValueDepth (m : SourceMap) : m.toValue.toNode.depth = 2 := by
  rw [toValueMembers]
  unfold members
  cases m.file <;> simp [Value.toNode, Json.memberNodes, Node.depth, Node.depthMembers, stringsFlat]

theorem documentSpelled {m : SourceMap} {n : Node} (spelled : m.toValue.Spelled n) :
    Document.ofNode? n =
      some ⟨version, m.file, m.sources, m.names, Segments.encode m.mappings⟩ := by
  rw [toValueMembers] at spelled
  obtain ⟨fields, given, related⟩ := Node.fieldsSpelled m.membersDistinct spelled
    ["version", "file", "sources", "names", "mappings"]
  rw [membersGet] at related
  obtain - | ⟨⟨version⟩, - | ⟨file, - | ⟨⟨sources⟩, - | ⟨⟨names⟩, - | ⟨⟨rfl⟩, - | _⟩⟩⟩⟩⟩ := related
  unfold Document.ofNode?
  simp only [given, versionRead version, fileRead file, Option.getD_some, stringsRead sources,
    stringsRead names, bind, Option.bind, Node.text?]

structure WellFormed (m : SourceMap) : Prop where
  ascending : m.mappings.Pairwise fun a b => a.generated.atMost b.generated = true
  fits : ∀ n ∈ m.mappings, Segments.Fits ⟨m.sources.length, m.names.length⟩ n

theorem documentedRead {m : SourceMap} (formed : m.WellFormed) {text : Text}
    (documented : m.toValue.Documented text) : ofJson text = .ok m := by
  obtain ⟨n, parsed, spelled⟩ := documented
  have lines := formed.ascending.imp Position.atMostLine
  have read := Segments.encodeRead lines formed.fits
  unfold ofJson
  rw [parsed, Option.bind_some, documentSpelled spelled]
  have sorted : sortMappings m.mappings = m.mappings := List.mergeSort_of_pairwise formed.ascending
  simp only [ofDocument, read, ne_eq, not_true_eq_false, if_false, bind, Except.bind, sorted]

theorem toJsonRead {m : SourceMap} (formed : m.WellFormed) : ofJson m.toJson = .ok m :=
  documentedRead formed (Json.Value.renderDocumented m.toValueReadable)

theorem finishFormed {b : MapDraft} {known : List Nat} (drafted : MapDraft.Drafted b known) :
    b.finish.WellFormed := by
  have sound := MapDraft.draftedSound drafted
  refine ⟨sortedAscending b.mappings, fun m member => ?_⟩
  have refers := sound.mappings m (List.mem_mergeSort.mp member)
  exact ⟨refers.generated.1, refers.generated.2, refers.origin.1, refers.origin.2,
    MapDraft.numbersBelow sound.sources refers.source,
    fun n named => MapDraft.numbersBelow sound.names (refers.name n named)⟩

theorem ofJsonFormed {text : Text} {m : SourceMap} (read : ofJson text = .ok m) : m.WellFormed := by
  unfold ofJson at read
  split at read
  · rename_i document _
    unfold ofDocument at read
    split at read
    · contradiction
    · obtain ⟨found, decoded, made⟩ := bindOk read
      cases made
      refine ⟨sortedAscending found, ?_⟩
      intro n member
      exact Segments.decodeFits decoded n (List.mem_mergeSort.mp member)
  · contradiction

inductive Produced : SourceMap → Prop where
  | built {b known} (drafted : MapDraft.Drafted b known) : Produced b.finish
  | read {text m} (document : ofJson text = .ok m) : Produced m

theorem producedFormed {m : SourceMap} (produced : Produced m) : m.WellFormed := by
  cases produced with
  | built drafted => exact finishFormed drafted
  | read document => exact ofJsonFormed document

/- Every map is read back from its document as it is, and a document that is read, written and read
again gives what it gave at first. -/
theorem documentRoundTrip {m : SourceMap} (produced : Produced m) :
    ofJson m.toJson = .ok m ∧ ∀ text, ofJson text = .ok m → ofJson m.toJson = ofJson text := by
  have same := toJsonRead (producedFormed produced)
  refine ⟨same, fun text document => ?_⟩
  rw [same, document]

theorem shortMapRoundTrip :
    ∃ m, Produced m ∧ m.file = none ∧ m.names = [("\n\x01" : Text)] ∧
      m.mappings = [⟨⟨2, 7⟩, ⟨1, 0⟩, 0, some 0⟩, ⟨⟨2, 7⟩, ⟨0, 40⟩, 0, none⟩] ∧
      ofJson m.toJson = .ok m := by
  have drafted : MapDraft.Drafted
      ⟨none, ⟨["a.vue"], [("a.vue", 0)]⟩, ⟨["\n\x01"], [("\n\x01", 0)]⟩,
        [⟨⟨2, 7⟩, ⟨1, 0⟩, 0, some 0⟩, ⟨⟨2, 7⟩, ⟨0, 40⟩, 0, none⟩]⟩ [0] :=
    .mapping none (.mapping (some "\n\x01") (.source "a.vue" .empty) ⟨by decide, by decide⟩
      ⟨by decide, by decide⟩ (by decide)) ⟨by decide, by decide⟩ ⟨by decide, by decide⟩ (by decide)
  have produced := Produced.built drafted
  have sorted : sortMappings [⟨⟨2, 7⟩, ⟨1, 0⟩, 0, some 0⟩, ⟨⟨2, 7⟩, ⟨0, 40⟩, 0, none⟩] =
      [⟨⟨2, 7⟩, ⟨1, 0⟩, 0, some 0⟩, ⟨⟨2, 7⟩, ⟨0, 40⟩, 0, none⟩] :=
    List.mergeSort_of_pairwise (by decide)
  exact ⟨_, produced, rfl, rfl, sorted, (documentRoundTrip produced).1⟩

end ComponentFile.SourceMap
