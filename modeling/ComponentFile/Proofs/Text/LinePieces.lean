import ComponentFile.Proofs.Text.LineBreaks
import ComponentFile.Proofs.Text.LineEndings

/-! A text in pieces, each of them a line and what ends it. The lines hold no line feed and no carriage
return, so what is cut off the end of a slice is its one ending and nothing of the line. -/
namespace ComponentFile
namespace Text

structure Piece where
  line : Text
  ending : Text
  deriving DecidableEq, Repr

def Piece.whole (p : Piece) : Text := p.line ++ p.ending

def joined (pieces : List Piece) : Text := pieces.flatMap Piece.whole

def inFront (c : Char) : List Piece → List Piece
  | [] => [⟨[c], []⟩]
  | p :: more => ⟨c :: p.line, p.ending⟩ :: more

def pieces : Text → List Piece
  | [] => [⟨[], []⟩]
  | '\r' :: '\n' :: rest => ⟨[], ['\r', '\n']⟩ :: pieces rest
  | c :: rest =>
      if c = '\n' ∨ c = '\r' then ⟨[], [c]⟩ :: pieces rest else inFront c (pieces rest)

def Ended : List Piece → Prop
  | [] => False
  | [p] => p.ending = []
  | p :: more =>
      p.ending ∈ lineEndings ∧ (p.ending = ['\r'] → (joined more).head? ≠ some '\n') ∧ Ended more

theorem piecesSome (t : Text) : ∃ p more, pieces t = p :: more := by
  fun_cases pieces t with
  | case1 => exact ⟨_, _, rfl⟩
  | case2 rest => exact ⟨_, _, rfl⟩
  | case3 c rest single ends => exact ⟨_, _, rfl⟩
  | case4 c rest single other =>
    cases pieces rest with
    | nil => exact ⟨_, _, rfl⟩
    | cons p more => exact ⟨_, _, rfl⟩

theorem joinedInFront (c : Char) (ps : List Piece) : joined (inFront c ps) = c :: joined ps := by
  cases ps <;> rfl

theorem joinedPieces (t : Text) : joined (pieces t) = t := by
  fun_induction pieces t with
  | case1 => rfl
  | case2 rest ih => exact congrArg (['\r', '\n'] ++ ·) ih
  | case3 c rest single ends ih => exact congrArg (c :: ·) ih
  | case4 c rest single other ih => rw [joinedInFront, ih]

theorem piecesClean {t : Text} {p : Piece} (member : p ∈ pieces t) :
    ∀ c ∈ p.line, c ≠ '\n' ∧ c ≠ '\r' := by
  fun_induction pieces t generalizing p with
  | case1 =>
    cases List.mem_singleton.mp member
    exact nofun
  | case2 rest ih =>
    rcases List.mem_cons.mp member with rfl | later
    · exact nofun
    · exact ih later
  | case3 c rest single ends ih =>
    rcases List.mem_cons.mp member with rfl | later
    · exact nofun
    · exact ih later
  | case4 c rest single other ih =>
    obtain ⟨first, more, same⟩ := piecesSome rest
    rw [same] at ih member
    rcases List.mem_cons.mp member with rfl | later
    · exact List.forall_mem_cons.mpr ⟨not_or.mp other, ih List.mem_cons_self⟩
    · exact ih (List.mem_cons_of_mem _ later)

theorem endedCons {p : Piece} {ps : List Piece} (known : p.ending ∈ lineEndings)
    (apart : p.ending = ['\r'] → (joined ps).head? ≠ some '\n') (ended : Ended ps) :
    Ended (p :: ps) := by
  cases ps with
  | nil => exact ended.elim
  | cons q more => exact ⟨known, apart, ended⟩

theorem piecesEnded (t : Text) : Ended (pieces t) := by
  fun_induction pieces t with
  | case1 => rfl
  | case2 rest ih => exact endedCons (by decide) nofun ih
  | case3 c rest single ends ih =>
    refine endedCons ?_ ?_ ih
    · rcases ends with rfl | rfl <;> decide
    · rintro ⟨⟩ feed
      rw [joinedPieces] at feed
      obtain ⟨more, same⟩ := List.head?_eq_some_iff.mp feed
      exact single more rfl same
  | case4 c rest single other ih =>
    obtain ⟨first, more, same⟩ := piecesSome rest
    rw [same] at ih ⊢
    cases more with
    | nil => exact ih
    | cons q later => exact ih

theorem endedMember {ps : List Piece} (ended : Ended ps) {p : Piece} (member : p ∈ ps) :
    p.ending = [] ∨ p.ending ∈ lineEndings := by
  induction ps with
  | nil => exact ended.elim
  | cons q more ih =>
    cases more with
    | nil =>
      cases List.mem_singleton.mp member
      exact .inl ended
    | cons r later =>
      rcases List.mem_cons.mp member with rfl | behind
      · exact .inr ended.1
      · exact ih ended.2.2 behind

theorem endingEnds {ending : Text} (known : ending = [] ∨ ending ∈ lineEndings) :
    ∀ c ∈ ending, (c = '\n' || c = '\r') = true := by
  have every : ∀ e ∈ [] :: lineEndings, e.all (fun c => c = '\n' || c = '\r') = true := by decide
  exact List.all_eq_true.mp (every ending (List.mem_cons.mpr known))

theorem joinedCons (p : Piece) (ps : List Piece) : joined (p :: ps) = p.whole ++ joined ps :=
  List.flatMap_cons

theorem joinedAppend (a b : List Piece) : joined (a ++ b) = joined a ++ joined b :=
  List.flatMap_append

theorem trimEnding {line ending : Text} {p : Char → Bool} (clean : ∀ c ∈ line, p c = false)
    (ends : ∀ c ∈ ending, p c = true) : trimEnd p (line ++ ending) = line := by
  have passed : ∀ c ∈ ending.reverse, p c = true := fun c member => ends c (List.mem_reverse.mp member)
  have stops : line.reverse.dropWhile p = line.reverse := by
    cases backward : line.reverse with
    | nil => rfl
    | cons c more =>
      have last := clean c (List.mem_reverse.mp (backward ▸ List.mem_cons_self))
      exact List.dropWhile_cons_of_neg (by simp [last])
  unfold trimEnd
  rw [List.reverse_append, List.dropWhile_append_of_pos passed, stops, List.reverse_reverse]

theorem cutAt {ps : List Piece} {l : Nat} {p : Piece} (here : ps[l]? = some p) :
    ∃ front later, ps = front ++ p :: later ∧ front.length = l := by
  obtain ⟨inBounds, same⟩ := List.getElem?_eq_some_iff.mp here
  refine ⟨ps.take l, ps.drop (l + 1), ?_, List.length_take_of_le (Nat.le_of_lt inBounds)⟩
  rw [← same, ← List.drop_eq_getElem_cons inBounds, List.take_append_drop]

def places (pos : Nat) : List Piece → List Nat
  | [] => []
  | p :: rest => pos :: places (pos + p.whole.size) rest

theorem placesLength (pos : Nat) (ps : List Piece) : (places pos ps).length = ps.length := by
  induction ps generalizing pos with
  | nil => rfl
  | cons p rest ih => exact congrArg (· + 1) (ih _)

theorem placeAt (pos : Nat) (front : List Piece) (p : Piece) (later : List Piece) :
    (places pos (front ++ p :: later))[front.length]? = some (pos + (joined front).size) := by
  induction front generalizing pos with
  | nil => rfl
  | cons q more ih =>
    rw [List.cons_append, places, List.length_cons, List.getElem?_cons_succ, ih, joinedCons,
      sizeAppend, Nat.add_assoc]

theorem placeBehind (pos : Nat) (front : List Piece) (p : Piece) (later : List Piece) :
    ((places pos (front ++ p :: later))[front.length + 1]?).getD
        (pos + (joined (front ++ p :: later)).size) =
      pos + (joined front).size + p.whole.size := by
  cases later with
  | nil =>
    have none : (places pos (front ++ [p]))[front.length + 1]? = none := by
      rw [List.getElem?_eq_none_iff, placesLength, List.length_append, List.length_singleton]
    rw [none, Option.getD_none, joinedAppend, sizeAppend, joinedCons, sizeAppend, Nat.add_assoc]
    rfl
  | cons q more =>
    have next := placeAt pos (front ++ [p]) q more
    rw [List.append_assoc, List.singleton_append, List.length_append, List.length_singleton,
      joinedAppend, sizeAppend, joinedCons, sizeAppend] at next
    rw [next, Option.getD_some, Nat.add_assoc]
    rfl

end Text

namespace Lines
open Text

theorem startsPieces (pos : Nat) (t : Text) : pos :: startsFrom pos t = places pos (pieces t) := by
  fun_induction pieces t generalizing pos with
  | case1 => rfl
  | case2 rest ih =>
    rw [startsFrom, ih]
    rfl
  | case3 c rest single ends ih =>
    rw [startsFrom, if_pos ends, ih]
    · rcases ends with rfl | rfl <;> rfl
    · exact single
  | case4 c rest single other ih =>
    obtain ⟨first, more, same⟩ := piecesSome rest
    have onward := ih (pos + c.utf8Size)
    rw [same] at onward ⊢
    rw [startsFrom, if_neg other, inFront, places, (List.cons.inj onward).2, Nat.add_assoc]
    · rfl
    · exact single

section Lines
variable {t : Text} {front later : List Piece} {p : Piece}

theorem pieceSlice (cut : pieces t = front ++ p :: later) :
    (ofText t).start? front.length = some (joined front).size ∧
      slice? t (joined front).size (((ofText t).start? (front.length + 1)).getD t.size) =
        some p.whole := by
  have text : t = joined front ++ p.whole ++ joined later := by
    rw [← joinedPieces t, cut, joinedAppend, joinedCons, List.append_assoc]
  have table : (ofText t).starts = places 0 (front ++ p :: later) := by
    rw [← cut]
    exact startsPieces 0 t
  have size : t.size = 0 + (joined (front ++ p :: later)).size := by
    rw [← cut, joinedPieces, Nat.zero_add]
  constructor
  · rw [start?, table, placeAt, Nat.zero_add]
  · rw [start?, table, size, placeBehind, Nat.zero_add]
    exact sliceExact.mpr ⟨joined front, joined later, text, rfl, rfl⟩

theorem pieceText (cut : pieces t = front ++ p :: later) :
    (ofText t).text? front.length t = some p.line := by
  obtain ⟨start, slice⟩ := pieceSlice cut
  have member : p ∈ pieces t := by simp [cut]
  have clean : ∀ c ∈ p.line, (c = '\n' || c = '\r') = false := by
    intro c inside
    simpa using piecesClean member c inside
  have ends := endingEnds (endedMember (piecesEnded t) member)
  unfold text?
  simp only [start, slice, Option.bind_eq_bind, Option.bind_some]
  exact congrArg some (trimEnding clean ends)

theorem countPieces (t : Text) : (ofText t).count = (pieces t).length := by
  unfold count ofText
  rw [startsPieces, placesLength]

theorem textPieces (t : Text) (l : Nat) :
    (ofText t).text? l t = ((pieces t)[l]?).map Piece.line := by
  cases here : (pieces t)[l]? with
  | some p =>
    obtain ⟨front, later, cut, rfl⟩ := cutAt here
    exact pieceText cut
  | none =>
    have past : (ofText t).start? l = none := by
      rw [List.getElem?_eq_none_iff, ← countPieces] at here
      exact List.getElem?_eq_none_iff.mpr here
    unfold text?
    rw [past]
    rfl

end Lines

/- Exactly the numbers below the count have a line, and no line holds a line feed or a carriage return.
The text is made of its lines in order, each with one whole ending behind it but the last, and each line
with its ending is a slice between characters. -/
theorem linesPartition (t : Text) :
    (∀ l, ((ofText t).text? l t).isSome ↔ l < (ofText t).count) ∧
      (∀ l line, (ofText t).text? l t = some line → ∀ c ∈ line, c ≠ '\n' ∧ c ≠ '\r') ∧
      ∃ ps : List Piece, joined ps = t ∧ Ended ps ∧ ps.length = (ofText t).count ∧
        ∀ l, (ofText t).text? l t = (ps[l]?).map Piece.line ∧
          ∀ p ∈ ps[l]?, ∃ start, (ofText t).start? l = some start ∧
            slice? t start (((ofText t).start? (l + 1)).getD t.size) = some p.whole := by
  refine ⟨fun l => ?_, fun l line found => ?_, pieces t, joinedPieces t, piecesEnded t,
    (countPieces t).symm, fun l => ⟨textPieces t l, fun p here => ?_⟩⟩
  · rw [textPieces, Option.isSome_map, countPieces, Option.isSome_iff_ne_none, ne_eq,
      List.getElem?_eq_none_iff, Nat.not_le]
  · rw [textPieces] at found
    obtain ⟨p, here, rfl⟩ := Option.map_eq_some_iff.mp found
    exact piecesClean (List.mem_of_getElem? here)
  · obtain ⟨front, later, cut, rfl⟩ := cutAt here
    exact ⟨_, pieceSlice cut⟩

end Lines
end ComponentFile
