import ComponentFile.Plugin.Command
import ComponentFile.Proofs.Mapping.RoundTrip
import ComponentFile.Proofs.Text.Utf8

/-! What a program prints. The map of its record may stand there as an object or as a string that
holds a document of it; either way the map itself comes back. An object goes through a value whose
members are put in order and that is printed again, so it is enough that what is printed still says
the map. -/
namespace ComponentFile
open Json (Node Value)

def Json.Prints (bytes : Utf8.Bytes) (record : Table Text Value) : Prop :=
  ∃ n, Node.ofBytes? bytes = some n ∧ (Value.object record).Spelled n

theorem Json.renderPrints {record : Table Text Value} (readable : (Value.object record).Readable) :
    Json.Prints (Utf8.encode (Value.object record).render) record := by
  refine ⟨_, ?_, (Value.object record).toNodeSpelled⟩
  rw [Node.ofBytes?, Utf8.symbolsEncode]
  exact renderRead readable

namespace ExternalCommand

inductive Gives : Option Value → Option SourceMap → Prop where
  | absent : Gives none none
  | null : Gives (some .null) none
  | object (m : SourceMap) : Gives (some m.toValue) (some m)
  | string {m : SourceMap} {document : Text} (documented : m.toValue.Documented document) :
      Gives (some (.string document)) (some m)

/- A value that was read from an object of a map is no string, and printed it is a document of the
map again. -/
theorem objectDocument {m : SourceMap} {v : Value} (restates : v.Restates m.toValue) :
    m.toValue.Documented (mapDocument v) := by
  have document : mapDocument v = v.render := by
    obtain ⟨ns, known, object, -⟩ := restates.spelled
    cases v with
    | object us => rfl
    | _ => contradiction
  rw [document]
  exact restates.documented

theorem objectRead {m : SourceMap} {n : Node} (spelled : m.toValue.Spelled n) :
    ∃ v, n.optional? (Node.freeValue? 1) = some (some v) ∧ v.Restates m.toValue := by
  have shallow : m.toValue.toNode.depth + 1 ≤ Node.depthLimit := by
    rw [m.toValueDepth]
    decide
  obtain ⟨v, read, restates⟩ := Value.freelyRead m.toValueKept spelled shallow
  refine ⟨v, ?_, restates⟩
  obtain ⟨ns, known, rfl, -⟩ := spelled
  rw [Node.optional?, read, Option.map_some]
  exact nofun

theorem stringRead (t : Text) :
    (Node.string (some t)).optional? (Node.freeValue? 1) = some (some (.string t)) := rfl

theorem mapRead {value : Option Value} {n : Option Node} {map : Option SourceMap}
    (given : Gives value map) (said : Option.Rel Value.Spelled value n) :
    ∃ found, (n.getD .null).optional? (Node.freeValue? 1) = some found ∧
      Option.Rel (fun v m => m.toValue.Documented (mapDocument v)) found map := by
  cases given with
  | absent =>
    cases said
    exact ⟨none, rfl, .none⟩
  | null =>
    obtain ⟨rfl⟩ := said
    exact ⟨none, rfl, .none⟩
  | object m =>
    obtain ⟨spelled⟩ := said
    obtain ⟨v, read, restates⟩ := objectRead spelled
    exact ⟨some v, read, .some (objectDocument restates)⟩
  | string documented =>
    obtain ⟨rfl⟩ := said
    exact ⟨some _, stringRead _, .some documented⟩

theorem outputRead {stdout : Utf8.Bytes} {record : Table Text Value} {text : Text}
    {map : Option SourceMap} (distinct : record.Distinct) (printed : Json.Prints stdout record)
    (here : record.get? "text" = some (.string text)) (given : Gives (record.get? "map") map)
    (produced : ∀ m ∈ map, m.Produced) : readOutput stdout = .ok ⟨text, map⟩ := by
  obtain ⟨n, parsed, spelled⟩ := printed
  obtain ⟨fields, found, related⟩ := Node.fieldsSpelled distinct spelled ["text", "map"]
  rw [List.map_cons, here] at related
  obtain - | ⟨⟨rfl⟩, - | ⟨said, - | _⟩⟩ := related
  obtain ⟨value, read, document⟩ := mapRead given said
  have result : resultOf? n = some (text, value) := by
    simp only [resultOf?, found, Node.text?, read, bind, Option.bind]
  rw [readOutput, parsed, Option.bind_some, result]
  cases document with
  | none => rfl
  | @some v m documented =>
    simp only [SourceMap.documentedRead (SourceMap.producedFormed (produced m rfl)) documented]

/- A program that succeeds gives the text and the map that its record says, in either form of the
map. Nothing is made of a map that is null or missing. -/
theorem recordDelivered {env : Files.Environment} {name input text : Text} {c : ExternalCommand}
    {options : CompileOptions} {done : Files.Completion} {record : Table Text Value}
    {map : Option SourceMap}
    (ran : env.run c.command (c.arguments ++ [options.toJson]) input = .ok done)
    (success : done.status = 0) (distinct : record.Distinct)
    (printed : Json.Prints done.stdout record)
    (here : record.get? "text" = some (.string text)) (given : Gives (record.get? "map") map)
    (produced : ∀ m ∈ map, m.Produced) : c.run env name input options = .ok ⟨text, map⟩ := by
  have succeeded : ¬ done.status ≠ 0 := not_not.mpr success
  simp only [run, ran, if_neg succeeded, outputRead distinct printed here given produced]
  rfl

def printing (stdout : Utf8.Bytes) : Files.Environment :=
  ⟨[([Utf8.encode "p"], .program ⟨fun _ _ => ⟨0, stdout, []⟩⟩ true)], [], [], ⟨[]⟩⟩

theorem printingRan (stdout : Utf8.Bytes) : (printing stdout).run ⟨"/p"⟩
    ([] ++ [CompileOptions.default.toJson]) [] = .ok ⟨0, stdout, []⟩ := rfl

theorem shortRecordsDelivered : ∃ m : SourceMap, m.names = [("\n\"" : Text)] ∧
    ∀ form ∈ ([([("map", m.toValue)], some m), ([("map", .string m.toJson)], some m),
        ([("map", .null)], none), ([], none)] : List (Table Text Value × Option SourceMap)),
      run (printing (Utf8.encode (Value.object (("text", .string "x") :: form.1)).render))
        "sfc-transpile-p" ⟨⟨"/p"⟩, []⟩ [] .default = .ok ⟨"x", form.2⟩ := by
  let draft : MapDraft := ⟨none, ⟨["a.vue"], [("a.vue", 0)]⟩, ⟨["\n\""], [("\n\"", 0)]⟩,
    [⟨⟨0, 0⟩, ⟨2, 0⟩, 0, some 0⟩]⟩
  have drafted : MapDraft.Drafted draft [0] :=
    .mapping (some "\n\"") (.source "a.vue" .empty) ⟨by decide, by decide⟩ ⟨by decide, by decide⟩
      (by decide)
  have whole : ∀ m ∈ some draft.finish, m.Produced := by
    rintro m ⟨⟩
    exact .built drafted
  have none : ∀ m ∈ (none : Option SourceMap), m.Produced := fun m absent =>
    absurd absent (Option.not_mem_none m)
  have readable := SourceMap.toValueReadable draft.finish
  refine ⟨draft.finish, rfl, fun form member => ?_⟩
  simp only [List.mem_cons, List.not_mem_nil, or_false] at member
  rcases member with rfl | rfl | rfl | rfl
  · exact recordDelivered (printingRan _) rfl (Table.distinctKeys.mpr (by decide))
      (Json.renderPrints ⟨trivial, readable, trivial⟩) rfl (.object draft.finish) whole
  · exact recordDelivered (printingRan _) rfl (Table.distinctKeys.mpr (by decide))
      (Json.renderPrints ⟨trivial, trivial, trivial⟩) rfl
      (.string (Value.renderDocumented readable)) whole
  · exact recordDelivered (printingRan _) rfl (Table.distinctKeys.mpr (by decide))
      (Json.renderPrints ⟨trivial, trivial, trivial⟩) rfl .null none
  · exact recordDelivered (printingRan _) rfl (Table.distinctKeys.mpr (by decide))
      (Json.renderPrints ⟨trivial, trivial⟩) rfl .absent none

end ExternalCommand
end ComponentFile
