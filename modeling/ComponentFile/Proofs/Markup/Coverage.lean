import Mathlib.Control.Monad.Basic
import ComponentFile.Proofs.Markup.Tiling

/-! Nothing of a document is lost and nothing is made up: the spans of the events lie side by side
from its first byte on. They cover all of it, or all up to a place that the error does not precede. -/
namespace ComponentFile.Markup

inductive Tiles (document : Text) : Nat → List Event → Nat → Prop where
  | nil (pos : Nat) : Tiles document pos [] pos
  | cons {e events stop} {piece : Text} (slice : e.span.slice? document = some piece)
      (nonempty : piece ≠ []) (tail : Tiles document e.span.stop events stop) :
      Tiles document e.span.start (e :: events) stop

def covered (document : Text) (events : List Event) : Text :=
  events.flatMap fun e => (e.span.slice? document).getD []

theorem cutsTile {pos : Nat} {before t rest : Text} {events : List Event}
    (h : Cuts pos t events rest) (place : before.size = pos) :
    Tiles (before ++ t) pos events (pos + t.size - rest.size) ∧
      covered (before ++ t) events ++ rest = t := by
  induction h generalizing before with
  | nil pos t =>
    rw [Nat.add_sub_cancel]
    exact ⟨.nil pos, rfl⟩
  | @cons pos t e events rest taken nonempty span angles tail ih =>
    have slice : e.span.slice? (before ++ (taken ++ t)) = some taken := by
      rw [span, ← List.append_assoc]
      exact Text.sliceExact.mpr ⟨before, t, rfl, place, rfl⟩
    have behind : (before ++ taken).size = pos + taken.size := by simp [place]
    obtain ⟨tiles, covers⟩ := ih behind
    rw [List.append_assoc] at tiles covers
    constructor
    · have first : pos = e.span.start := by rw [span]
      have next : pos + taken.size = e.span.stop := by rw [span]
      rw [Text.sizeAppend, ← Nat.add_assoc]
      rw [next] at tiles ⊢
      conv => arg 2; rw [first]
      exact .cons slice nonempty tiles
    · unfold covered at covers ⊢
      rw [List.flatMap_cons, slice, Option.getD_some, List.append_assoc, covers]

namespace State

theorem marksSlice {s : State} {span : Span} {before : Text} (h : s.Marks span)
    (place : before.size = s.pos) : s.pos ≤ span.start ∧ span.start ≤ span.stop ∧
      span.stop ≤ s.total ∧ ∃ piece, span.slice? (before ++ s.pending) = some piece := by
  obtain ⟨front, piece, after, splits, rfl⟩ := h
  refine ⟨Nat.le_add_right _ _, Nat.le_add_right _ _, ?_, piece, ?_⟩
  · simp only [total, splits, Text.sizeAppend]
    omega
  · refine Text.sliceExact.mpr ⟨before ++ front, after, ?_, ?_, rfl⟩
    · simp [splits]
    · simp [place]

theorem reachesTile {t : Text} {events : List Event} {last : Except ParseError State}
    {held : State} (later : Text) (h : Reaches 0 t events last held) :
    Tiles (t ++ later) 0 events held.pos ∧
      covered (t ++ later) events ++ (held.pending ++ later) = t ++ later := by
  have total := h.total
  obtain ⟨tiles, covers⟩ := cutsTile (cutsMore later h.cuts) Text.sizeNil
  have stop : 0 + (t ++ later).size - (held.pending ++ later).size = held.pos := by
    simp only [State.total, Text.sizeAppend] at total ⊢
    omega
  rw [stop] at tiles
  exact ⟨tiles, covers⟩

/- Written in any pieces, a document is covered from its start by events without gap or overlap.
Without an error they cover all of it; an error is about a part of what was written so far, behind
all events. -/
theorem eventsTile (chunks : List Text) :
    ∃ stop, Tiles chunks.flatten 0 (start.feed chunks).1 stop ∧
      (∀ last, (start.feed chunks).2 = .ok last → stop = Text.size chunks.flatten ∧
        covered chunks.flatten (start.feed chunks).1 = chunks.flatten) ∧
      ∀ e, (start.feed chunks).2 = .error e →
        stop ≤ e.span.start ∧ e.span.start ≤ e.span.stop ∧
          e.span.stop ≤ (start.written chunks).size ∧
          ∃ piece, e.span.slice? (start.written chunks) = some piece := by
  obtain ⟨held, reaches, whole⟩ := feedReaches start chunks
  change Reaches 0 (start.written chunks) _ _ held at reaches
  have total := reaches.total
  obtain ⟨later, cut⟩ := writtenBegins start chunks
  obtain ⟨tiles, covers⟩ := reachesTile later reaches
  rw [cut] at tiles covers
  refine ⟨held.pos, tiles, ?_, ?_⟩
  · intro last done
    have same : last = held := by
      rcases reaches.ended with ok | ⟨e, failed, _⟩
      · rw [done] at ok; cases ok; rfl
      · rw [done] at failed; contradiction
    obtain ⟨empty, all⟩ := whole (same ▸ done)
    have none : later = [] := by simpa [all] using cut
    subst none
    rw [empty, List.append_nil] at covers
    refine ⟨?_, by simpa using covers⟩
    rw [← all]
    simpa [State.total, empty] using total
  · intro e failed
    have marks : held.Marks e.span := by
      rcases reaches.ended with ok | ⟨other, same, marks⟩
      · rw [failed] at ok; contradiction
      · rw [failed] at same; cases same; exact marks
    obtain ⟨before, splits, place⟩ := reachesFront reaches
    rw [Nat.zero_add] at place
    obtain ⟨lower, order, upper, piece, slice⟩ := marksSlice marks place
    rw [total, Nat.zero_add] at upper
    rw [← splits] at slice
    exact ⟨lower, order, upper, piece, slice⟩

theorem cutTagsTiled :
    covered "é<a b>" (start.feed ["é<a", " b>"]).1 = "é<a b>".toList ∧
      ∃ stop e, (start.feed ["é<a", " b=", ">", "c"]).2 = .error e ∧ stop ≤ e.span.start ∧
        e.span.stop ≤ Text.size "é<a b=>" ∧
        Tiles "é<a b=>c" 0 (start.feed ["é<a", " b=", ">", "c"]).1 stop := by
  obtain ⟨_, _, whole, _⟩ := eventsTile ["é<a", " b>"]
  obtain ⟨stop, tiles, _, failing⟩ := eventsTile ["é<a", " b=", ">", "c"]
  have read : (start.feed ["é<a", " b>"]).2 = .ok ⟨7, [], none⟩ := by decide +kernel
  have failed : (start.feed ["é<a", " b=", ">", "c"]).2 =
      .error ⟨.invalidAttribute (.unexpectedValue "b" .rightAngle), ⟨7, 8⟩⟩ := by decide +kernel
  have written : start.written ["é<a", " b=", ">", "c"] = "é<a b=>".toList := by decide +kernel
  obtain ⟨before, _, upper, _⟩ := failing _ failed
  rw [written] at upper
  exact ⟨(whole _ read).2, stop, _, failed, before, upper, tiles⟩

end State

end ComponentFile.Markup
