import Mathlib.Data.List.Infix
import ComponentFile.Section.Outline
import ComponentFile.Proofs.Markup.Concatenation
import ComponentFile.Proofs.Section.Depth
import ComponentFile.Proofs.Table

/-! Events in which the tags of one name are balanced. An element of that name that is open before
them is open behind them again, at the same depth, and has not been closed on the way. -/
namespace ComponentFile.Regions
open Markup (Event)

def opensTag (tag : Text) : Event → Bool
  | .opened start => start.name = tag && !start.selfClosing
  | _ => false

def closesTag (tag : Text) : Event → Bool
  | .closed name _ => name = tag
  | _ => false

structure Balanced (tag : Text) (events : List Event) : Prop where
  covered : ∀ front, front <+: events → front.countP (closesTag tag) ≤ front.countP (opensTag tag)
  settled : events.countP (closesTag tag) = events.countP (opensTag tag)

instance (tag : Text) (events : List Event) : Decidable (Balanced tag events) :=
  decidable_of_iff
    ((∀ front ∈ events.inits, front.countP (closesTag tag) ≤ front.countP (opensTag tag)) ∧
      events.countP (closesTag tag) = events.countP (opensTag tag))
    ⟨fun h => ⟨fun front starts => h.1 front ((List.mem_inits _ _).mpr starts), h.2⟩,
      fun h => ⟨fun front starts => h.1 front ((List.mem_inits _ _).mp starts), h.2⟩⟩

theorem balancedNil (tag : Text) : Balanced tag [] := by
  refine ⟨fun front starts => ?_, rfl⟩
  rw [List.prefix_nil.mp starts]
  exact Nat.le_refl 0

theorem countTags {p : Event → Bool} (n : Nat) (still : ∀ e, p (e.shift n) = p e)
    (tags : ∀ span, p (.text span) = false) (events : List Event) :
    ((Markup.withoutText events).map (Event.shift n)).countP p = events.countP p := by
  have moved : p ∘ Event.shift n = p := funext still
  have kept : (fun e : Event => p e && !e.isText) = p := by
    funext e
    cases e with
    | text span => simp [tags]
    | opened tag => simp [Event.isText]
    | closed name span => simp [Event.isText]
    | comment span => simp [Event.isText]
  rw [List.countP_map, moved, Markup.withoutText, List.countP_filter, kept]

theorem balancedMoved {tag : Text} {events : List Event} (n : Nat) (h : Balanced tag events) :
    Balanced tag ((Markup.withoutText events).map (Event.shift n)) := by
  have closes := countTags (p := closesTag tag) n (by rintro (_ | _ | _ | _) <;> rfl) fun _ => rfl
  have opens := countTags (p := opensTag tag) n (by rintro (_ | _ | _ | _) <;> rfl) fun _ => rfl
  constructor
  · rintro front ⟨back, cut⟩
    obtain ⟨kept, _, split, rfl, _⟩ := List.map_eq_append_iff.mp cut.symm
    obtain ⟨first, second, rfl, rfl, _⟩ := List.filter_eq_append_iff.mp split
    have before := h.covered first (List.prefix_append first second)
    rw [← closes, ← opens] at before
    exact before
  · rw [closes, opens, h.settled]

theorem depthAfterCounts {tag : Text} {d : Nat} {e : Event} (room : closesTag tag e = true → 0 < d) :
    depthAfter tag d e + (if closesTag tag e then 1 else 0) =
      d + if opensTag tag e then 1 else 0 := by
  cases e with
  | opened start =>
    simp only [depthAfter, closesTag, opensTag, Bool.and_eq_true, decide_eq_true_eq,
      Bool.not_eq_true']
    split <;> rfl
  | closed name span =>
    simp only [depthAfter, closesTag, opensTag, decide_eq_true_eq] at room ⊢
    split
    · rename_i same
      exact Nat.sub_add_cancel (room same)
    · rfl
  | text span => rfl
  | comment span => rfl

theorem depthCounts {tag : Text} {events : List Event} {d : Nat}
    (covered : ∀ front, front <+: events →
      front.countP (closesTag tag) ≤ d + front.countP (opensTag tag)) :
    events.foldl (depthAfter tag) d + events.countP (closesTag tag) =
      d + events.countP (opensTag tag) := by
  induction events generalizing d with
  | nil => rfl
  | cons e rest ih =>
    have room : closesTag tag e = true → 0 < d := by
      intro closes
      have first := covered [e] (List.cons_prefix_cons.mpr ⟨rfl, List.nil_prefix⟩)
      have still : opensTag tag e = false := by cases e <;> first | rfl | contradiction
      rw [List.countP_singleton, List.countP_singleton, if_pos closes, still] at first
      exact first
    have one := depthAfterCounts room
    have onward (front : List Event) (starts : front <+: rest) :
        front.countP (closesTag tag) ≤ depthAfter tag d e + front.countP (opensTag tag) := by
      have := covered (e :: front) (List.cons_prefix_cons.mpr ⟨rfl, starts⟩)
      simp only [List.countP_cons] at this
      omega
    have later := ih onward
    rw [List.foldl_cons, List.countP_cons, List.countP_cons]
    omega

section Inside
variable {tag source : Text} {r : OpenRegion} {sections : List Section}

theorem insideStep {e : Event} (inside : 0 < depthAfter tag r.depth e) :
    Outline.step [tag] source ⟨[(tag, r)], sections⟩ e =
      ⟨[(tag, { r with depth := depthAfter tag r.depth e })], sections⟩ := by
  cases e with
  | opened start =>
    by_cases same : start.name = tag
    · cases closing : start.selfClosing <;>
        simp [Outline.step, Outline.enter, Table.getCons, Table.put, depthAfter, same, closing]
    · simp [Outline.step, depthAfter, same]
  | closed name span =>
    by_cases same : name = tag
    · have deeper : 1 < r.depth := by
        simp only [depthAfter, same, if_true] at inside
        omega
      simp [Outline.step, Outline.leave, Table.getCons, Table.put, depthAfter, same, deeper]
    · have other : ¬ tag = name := fun h => same h.symm
      simp [Outline.step, Outline.leave, Table.getCons, Table.getNil, depthAfter, same, other]
  | text span => rfl
  | comment span => rfl

theorem insideRun {events : List Event}
    (inside : ∀ front, front <+: events → 0 < front.foldl (depthAfter tag) r.depth) :
    events.foldl (Outline.step [tag] source) ⟨[(tag, r)], sections⟩ =
      ⟨[(tag, { r with depth := events.foldl (depthAfter tag) r.depth })], sections⟩ := by
  induction events generalizing r with
  | nil => rfl
  | cons e rest ih =>
    have onward (front : List Event) (starts : front <+: rest) :=
      inside (e :: front) (List.cons_prefix_cons.mpr ⟨rfl, starts⟩)
    rw [List.foldl_cons, insideStep (onward [] List.nil_prefix), ih onward]
    rfl

theorem balancedRun {events : List Event} (balanced : Balanced tag events) (opened : 0 < r.depth) :
    events.foldl (Outline.step [tag] source) ⟨[(tag, r)], sections⟩ = ⟨[(tag, r)], sections⟩ := by
  have counts (front : List Event) (starts : front <+: events) :
      front.foldl (depthAfter tag) r.depth + front.countP (closesTag tag) =
        r.depth + front.countP (opensTag tag) :=
    depthCounts fun shorter begins =>
      Nat.le_trans (balanced.covered shorter (begins.trans starts)) (Nat.le_add_left _ _)
  have inside (front : List Event) (starts : front <+: events) :
      0 < front.foldl (depthAfter tag) r.depth := by
    have := counts front starts
    have := balanced.covered front starts
    omega
  have same : events.foldl (depthAfter tag) r.depth = r.depth := by
    have := counts events List.prefix_rfl
    have := balanced.settled
    omega
  rw [insideRun inside, same]

end Inside

theorem enclosedRun {tag source : Text} {start : Markup.StartTag} {span : Span}
    {events : List Event} (named : start.name = tag) (lasting : start.selfClosing = false)
    (balanced : Balanced tag events) :
    Outline.run [tag] source (.opened start :: (events ++ [.closed tag span])) =
      Outline.empty.record source tag (Outline.distinct start.attributes)
        ⟨start.span.stop, span.start⟩ := by
  have entered : Outline.step [tag] source Outline.empty (.opened start) =
      ⟨[(tag, ⟨1, Outline.distinct start.attributes, start.span.stop, start.span⟩)], []⟩ := by
    simp [Outline.step, Outline.enter, Outline.empty, Table.getNil, Table.put, named, lasting]
  unfold Outline.run
  rw [List.foldl_cons, entered, List.foldl_append, balancedRun balanced Nat.one_pos]
  simp [Outline.step, Outline.leave, Outline.empty, Table.getCons, Table.erase]

end ComponentFile.Regions
