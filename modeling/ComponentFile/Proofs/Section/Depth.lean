import ComponentFile.Section.Basic

/-! Depths of tags, counted over the events of a document alone, and the regions that they mark.
Nothing here looks at how sections are extracted. -/
namespace ComponentFile.Regions
open Markup (Event StartTag Attribute)

def depthAfter (tag : Text) (depth : Nat) : Event → Nat
  | .opened start => if start.name = tag ∧ start.selfClosing = false then depth + 1 else depth
  | .closed name _ => if name = tag then depth - 1 else depth
  | .text _ => depth
  | .comment _ => depth

def depth (tag : Text) (events : List Event) : Nat := events.foldl (depthAfter tag) 0

def firstOfEach : List Attribute → Table Text Text
  | [] => []
  | a :: rest => (a.name, a.value) :: (firstOfEach rest).filter fun entry => entry.1 != a.name

/- The opening tag at `j` raised its depth from zero, and before `n` it has not come back. -/
structure OpenSince (events : List Event) (n j : Nat) (start : StartTag) : Prop where
  earlier : j < n
  here : events[j]? = some (.opened start)
  lasting : start.selfClosing = false
  outermost : depth start.name (events.take j) = 0
  inside : ∀ k, j < k → k ≤ n → 0 < depth start.name (events.take k)

structure Describes (s : Section) (start : StartTag) (content : Span) : Prop where
  tag : s.tag = start.name
  attributes : s.attributes = firstOfEach start.attributes
  content : s.contentSpan = content

inductive Completes (requested : List Text) (events : List Event) (i : Nat) (s : Section) : Prop where
  | region {j : Nat} {start : StartTag} {span : Span} (asked : start.name ∈ requested)
      (since : OpenSince events i j start)
      (here : events[i]? = some (.closed start.name span))
      (back : depth start.name (events.take (i + 1)) = 0)
      (made : Describes s start ⟨start.span.stop, span.start⟩)
  | selfClosed {start : StartTag} (asked : start.name ∈ requested)
      (here : events[i]? = some (.opened start)) (closed : start.selfClosing = true)
      (outermost : depth start.name (events.take i) = 0)
      (made : Describes s start ⟨start.span.stop, start.span.stop⟩)

def EndsSection (requested : List Text) (events : List Event) (i : Nat) : Prop :=
  (∃ tag ∈ requested, depth tag (events.take i) = 1 ∧ depth tag (events.take (i + 1)) = 0) ∨
  ∃ start, events[i]? = some (.opened start) ∧ start.selfClosing = true ∧
    start.name ∈ requested ∧ depth start.name (events.take i) = 0

theorem depthStep {events : List Event} {n : Nat} {e : Event} (tag : Text)
    (here : events[n]? = some e) :
    depth tag (events.take (n + 1)) = depthAfter tag (depth tag (events.take n)) e := by
  unfold depth
  rw [List.take_add_one, here, Option.toList_some, List.foldl_append]
  rfl

section Step
variable {events : List Event} {n : Nat}

theorem sinceStep {j : Nat} {start : StartTag} (since : OpenSince events n j start)
    (positive : 0 < depth start.name (events.take (n + 1))) : OpenSince events (n + 1) j start := by
  refine ⟨Nat.lt_succ_of_lt since.earlier, since.here, since.lasting, since.outermost, ?_⟩
  intro k after upTo
  by_cases last : k = n + 1
  · subst last; exact positive
  · exact since.inside k after (by omega)

theorem sincePositive {j : Nat} {start : StartTag} (since : OpenSince events n j start) :
    0 < depth start.name (events.take n) := since.inside n since.earlier (Nat.le_refl _)

theorem depthClosed {name : Text} {span : Span} (here : events[n]? = some (.closed name span)) :
    depth name (events.take (n + 1)) = depth name (events.take n) - 1 := by
  rw [depthStep name here]
  exact if_pos rfl

theorem depthClosedOther {name tag : Text} {span : Span}
    (here : events[n]? = some (.closed name span)) (other : name ≠ tag) :
    depth tag (events.take (n + 1)) = depth tag (events.take n) := by
  rw [depthStep tag here]
  exact if_neg other

theorem depthOpened {start : StartTag} (here : events[n]? = some (.opened start))
    (lasting : start.selfClosing = false) :
    depth start.name (events.take (n + 1)) = depth start.name (events.take n) + 1 := by
  rw [depthStep start.name here]
  exact if_pos ⟨rfl, lasting⟩

theorem depthOpenedOther {tag : Text} {start : StartTag} (here : events[n]? = some (.opened start))
    (other : start.name ≠ tag ∨ start.selfClosing = true) :
    depth tag (events.take (n + 1)) = depth tag (events.take n) := by
  rw [depthStep tag here]
  refine if_neg ?_
  rintro ⟨same, lasting⟩
  rcases other with h | h
  · exact h same
  · rw [lasting] at h; contradiction

theorem endsByClosing {requested : List Text} {name : Text} {span : Span}
    (here : events[n]? = some (.closed name span)) (h : EndsSection requested events n) :
    name ∈ requested ∧ depth name (events.take n) = 1 := by
  rcases h with ⟨tag, asked, one, zero⟩ | ⟨start, opened, _⟩
  · by_cases same : name = tag
    · subst same; exact ⟨asked, one⟩
    · rw [depthClosedOther here same] at zero
      omega
  · rw [here] at opened
    cases opened

theorem endsByOpening {requested : List Text} {start : StartTag}
    (here : events[n]? = some (.opened start)) (h : EndsSection requested events n) :
    start.name ∈ requested ∧ start.selfClosing = true ∧ depth start.name (events.take n) = 0 := by
  rcases h with ⟨tag, asked, one, zero⟩ | ⟨other, opened, closed, asked, zero⟩
  · rw [depthStep tag here] at zero
    simp only [depthAfter] at zero
    split at zero <;> omega
  · rw [here] at opened
    cases opened
    exact ⟨asked, closed, zero⟩

end Step

theorem endsWithin {requested : List Text} {events : List Event} {i : Nat}
    (h : EndsSection requested events i) : i < events.length := by
  rcases h with ⟨tag, _, one, zero⟩ | ⟨start, here, _⟩
  · by_cases inside : i < events.length
    · exact inside
    · rw [List.take_of_length_le (by omega)] at one zero
      omega
  · exact (List.getElem?_eq_some_iff.mp here).1

end ComponentFile.Regions
