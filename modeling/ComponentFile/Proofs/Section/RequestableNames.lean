import ComponentFile.Proofs.Markup.Origin
import ComponentFile.Proofs.Section.TagNames
import ComponentFile.Proofs.Text.Case

/-! Which names may be requested. A name is accepted exactly if some document has an opening tag of
that name, in whatever case the two are written; the plainest such document is the bare tag alone. -/
namespace ComponentFile
open Markup (Event State StartTag rawElements)
open Markup.State

section Case

theorem caseAlike {p : Char → Bool} (noLetter : ∀ c, c.isAlpha = true → p c = false) (c : Char) :
    p c.toLower = p c := by
  by_cases upper : Text.IsUpper c
  · have letter : c.isAlpha = true := Bool.or_eq_true_iff.mpr (.inl (decide_eq_true upper))
    rw [noLetter c letter, noLetter _ ((Text.alphaLower c).trans letter)]
  · rw [Text.lowerOfOther upper]

theorem alphaSpoilsNothing {c : Char} (letter : c.isAlpha = true) : spoilsTagName c = false := by
  refine Bool.eq_false_iff.mpr fun spoils => ?_
  simp only [spoilsTagName, Bool.or_eq_true, decide_eq_true_eq] at spoils
  rcases spoils with ((rfl | rfl) | rfl) | rfl <;> contradiction

theorem shapeLower {name : Text} : NameShape (Text.lower name) ↔ NameShape name := by
  have classes (p : Char → Bool) (noLetter : ∀ c, c.isAlpha = true → p c = false) :
      (∀ c ∈ Text.lower name, p c = false) ↔ ∀ c ∈ name, p c = false := by
    simp only [Text.lower, List.forall_mem_map, caseAlike noLetter]
  have letters : (∃ c rest, Text.lower name = c :: rest ∧ c.isAlpha = true) ↔
      ∃ c rest, name = c :: rest ∧ c.isAlpha = true := by
    cases name with
    | nil => simp [Text.lower]
    | cons c rest =>
      constructor
      · rintro ⟨d, more, same, letter⟩
        obtain ⟨rfl, _⟩ := List.cons.inj same
        exact ⟨c, rest, rfl, (Text.alphaLower c).symm.trans letter⟩
      · rintro ⟨d, more, same, letter⟩
        obtain ⟨rfl, _⟩ := List.cons.inj same
        exact ⟨_, _, rfl, (Text.alphaLower _).trans letter⟩
  have whole := classes endsTagName fun c => Markup.alphaInTagName
  have sound := classes spoilsTagName fun c => alphaSpoilsNothing
  exact ⟨fun h => ⟨letters.mp h.letter, whole.mp h.whole, sound.mp h.sound⟩,
    fun h => ⟨letters.mpr h.letter, whole.mpr h.whole, sound.mpr h.sound⟩⟩

end Case

section Delivered

theorem deliveredShape {chunks : List Text} {tag : StartTag}
    (member : .opened tag ∈ (start.feed chunks).1) :
    ∃ name, NameShape name ∧ tag.name = Text.lower name := by
  obtain ⟨front, later, cut⟩ := List.append_of_mem member
  obtain ⟨here, next, before, more, delivers⟩ := feedOrigin (Prod.ext cut rfl)
  obtain ⟨final, emits⟩ := delivers.emits
  obtain ⟨name, inside, opens, letter, sound⟩ := stepOpens emits
  refine ⟨name, ⟨?_, opens.whole, sound⟩, opens.named⟩
  cases name with
  | nil => contradiction
  | cons c rest => exact ⟨c, rest, rfl, letter⟩

def behindBareTag (name : Text) : State :=
  ⟨(bareTag name).size, [],
    if rawElements.contains (Text.lower name) then some (Text.lower name) else none⟩

theorem bareTagWritten {name : Text} (valid : isTagName name = true) :
    start.write (bareTag name) =
      ([.opened ⟨Text.lower name, [], ⟨0, (bareTag name).size⟩, false⟩],
        .ok (behindBareTag name)) := by
  have opens : (start.extend (bareTag name)).step false =
      .emit (bareTagEvent name 0) (behindBareTag name) := by
    have emits : (start.extend (bareTag name)).step false = _ :=
      bareTagStep valid rfl (List.append_nil _).symm
    simpa [start, moved, behindBareTag] using emits
  have waits : (behindBareTag name).step false = .wait := by
    unfold step behindBareTag
    split <;> rfl
  change (start.extend (bareTag name)).drain false = _
  rw [drainEmit opens, drainWait waits, bareTagEvent, Nat.zero_add]

end Delivered

/- A name may be requested exactly if a document in some pieces delivers an opening tag whose name
it is in lower case. The bare tag of such a name is delivered as soon as it is written, and nothing
else with it. -/
theorem requestableNames (name : Text) :
    ((∃ requested, requestedTags [name] = .ok requested) ↔
        ∃ chunks tag, .opened tag ∈ (start.feed chunks).1 ∧ tag.name = Text.lower name) ∧
      ∀ requested, requestedTags [name] = .ok requested →
        start.write (bareTag name) =
          ([.opened ⟨Text.lower name, [], ⟨0, (bareTag name).size⟩, false⟩],
            .ok (behindBareTag name)) := by
  have written (requested : List Text) (accepted : requestedTags [name] = .ok requested) :=
    bareTagWritten (requestedOne.mp accepted).1
  refine ⟨⟨?_, ?_⟩, written⟩
  · rintro ⟨requested, accepted⟩
    refine ⟨[bareTag name], ⟨Text.lower name, [], ⟨0, (bareTag name).size⟩, false⟩, ?_, rfl⟩
    rw [feedOnward [] (written requested accepted)]
    exact List.mem_append_left _ List.mem_cons_self
  · rintro ⟨chunks, tag, member, named⟩
    obtain ⟨own, shape, same⟩ := deliveredShape member
    have lowered : NameShape (Text.lower name) := by
      rw [← named, same]
      exact shapeLower.mpr shape
    exact ⟨_, requestedOne.mpr ⟨tagNameShape.mpr (shapeLower.mp lowered), rfl⟩⟩

theorem mixedCaseRequestable :
    (∃ requested, requestedTags ["My-É"] = .ok requested) ∧
      start.write "<My-É>" = ([.opened ⟨"my-É", [], ⟨0, 7⟩, false⟩], .ok ⟨7, [], none⟩) := by
  obtain ⟨delivered, written⟩ := requestableNames "My-É"
  have opened : .opened ⟨"my-É", [⟨"a", [], ⟨7, 8⟩⟩], ⟨0, 9⟩, false⟩ ∈
      (start.feed ["<mY-", "É a>"]).1 := by decide +kernel
  obtain ⟨requested, accepted⟩ := delivered.mpr ⟨_, _, opened, rfl⟩
  exact ⟨⟨requested, accepted⟩, written requested accepted⟩

end ComponentFile
