import Mathlib.Data.List.TakeWhile
import ComponentFile.Proofs.Markup.Trace

/-! What a step answers without the end of input in sight stays the same when more is written and
when the end comes, with one exception: text at the end of what is pending may go on. -/
namespace ComponentFile.Markup

theorem breakOnExtend {needle t before found : Text} (more : Text)
    (h : Text.breakOn? needle t = some (before, found)) :
    Text.breakOn? needle (t ++ more) = some (before, found ++ more) := by
  induction t generalizing before with
  | nil =>
    simp only [Text.breakOn?] at h
    split at h
    · rename_i empty
      cases h
      have : needle = [] := List.isEmpty_iff.mp empty
      subst this
      cases more <;> simp [Text.breakOn?]
    · contradiction
  | cons c rest ih =>
    simp only [Text.breakOn?] at h
    split at h
    · rename_i starts
      cases h
      have longer : needle.isPrefixOf (c :: (rest ++ more)) = true := by
        rw [List.isPrefixOf_iff_prefix] at starts ⊢
        exact starts.trans (List.prefix_append (c :: rest) more)
      simp [Text.breakOn?, longer]
    · rename_i starts
      obtain ⟨⟨b, f⟩, inner, same⟩ := Option.map_eq_some_iff.mp h
      cases same
      -- the needle fits into `rest`, so it does not reach into `more` from here either
      have fits : needle.length ≤ rest.length := by
        have := congrArg List.length (State.breakOnCut inner)
        simp only [List.length_append] at this
        omega
      have shorter : needle.isPrefixOf (c :: (rest ++ more)) = false := by
        rw [← Bool.not_eq_true, List.isPrefixOf_iff_prefix] at *
        intro longer
        apply starts
        have := List.prefix_of_prefix_length_le longer (List.prefix_append (c :: rest) more)
          (by simp only [List.length_cons]; omega)
        exact this
      simp [Text.breakOn?, shorter, ih inner]

theorem takeWhileExtend {t : Text} {p : Char → Bool} (more : Text) (stops : t.dropWhile p ≠ []) :
    (t ++ more).takeWhile p = t.takeWhile p := by
  rw [List.takeWhile_append, if_neg]
  intro whole
  apply stops
  have cut := congrArg List.length (List.takeWhile_append_dropWhile (p := p) (l := t))
  rw [List.length_append, whole] at cut
  exact List.length_eq_zero_iff.mp (by omega)

theorem dropWhileExtend {t : Text} {p : Char → Bool} (more : Text) (stops : t.dropWhile p ≠ []) :
    (t ++ more).dropWhile p = t.dropWhile p ++ more := by
  rw [List.dropWhile_append, if_neg (by rwa [List.isEmpty_iff])]

theorem tagEndExtend {quote : Option Char} {t inside rest : Text} (more : Text)
    (h : tagEnd? quote t = some (inside, rest)) :
    tagEnd? quote (t ++ more) = some (inside, rest ++ more) := by
  induction t generalizing quote inside with
  | nil => cases quote <;> simp [tagEnd?] at h
  | cons c after ih =>
    cases quote with
    | none =>
      simp only [tagEnd?] at h
      split at h
      · rename_i angle
        cases h
        simp [tagEnd?, angle]
      · rename_i other
        obtain ⟨⟨b, f⟩, inner, same⟩ := Option.map_eq_some_iff.mp h
        cases same
        simp [tagEnd?, other, ih inner]
    | some q =>
      simp only [tagEnd?] at h
      obtain ⟨⟨b, f⟩, inner, same⟩ := Option.map_eq_some_iff.mp h
      cases same
      simp [tagEnd?, ih inner]

theorem rawEndRoom {name t before rest : Text} (h : rawEnd name false t = .found before rest) :
    name.length + 2 ≤ rest.length ∧ rest.head? = some '<' := by
  induction t generalizing before with
  | nil => simp [rawEnd] at h
  | cons c more ih =>
    have later (same : (rawEnd name false more).after c = .found before rest) :
        name.length + 2 ≤ rest.length ∧ rest.head? = some '<' := by
      obtain ⟨inner, found, _⟩ := RawEnd.afterFound.mp same
      exact ih found
    simp only [rawEnd] at h
    split at h
    · rename_i cond
      split at h
      · contradiction
      · rename_i d tail here
        split at h
        · cases h
          have := congrArg List.length here
          simp only [List.length_drop, List.length_cons] at this ⊢
          exact ⟨by omega, by simp [cond.1]⟩
        · exact later h
    · exact later h

theorem namePartExtend {t : Text} {n : Nat} (more : Text) (room : n + 1 ≤ t.length) :
    ((t ++ more).drop 1).take n = (t.drop 1).take n := by
  rw [List.drop_append_of_le_length (by omega),
    List.take_append_of_le_length (by rw [List.length_drop]; omega)]

theorem rawEndNotMissing {name t : Text} : rawEnd name false t ≠ .missing := by
  induction t with
  | nil => simp [rawEnd]
  | cons c more ih =>
    have later : (rawEnd name false more).after c ≠ .missing := mt RawEnd.afterMissing.mp ih
    simp only [rawEnd]
    split
    · split
      · simp
      · split
        · simp
        · exact later
    · exact later

theorem rawEndExtend {name t before rest : Text} {final : Bool} (more : Text)
    (h : rawEnd name false t = .found before rest) :
    rawEnd name final (t ++ more) = .found before (rest ++ more) := by
  induction t generalizing before with
  | nil => simp [rawEnd] at h
  | cons c after ih =>
    have later (same : (rawEnd name false after).after c = .found before rest) :
        (rawEnd name final (after ++ more)).after c = .found before (rest ++ more) ∧
          name.length + 2 ≤ after.length := by
      obtain ⟨inner, found, inFront⟩ := RawEnd.afterFound.mp same
      have splits := congrArg List.length (rawEndSplits found)
      have room := (rawEndRoom found).1
      rw [List.length_append] at splits
      exact ⟨RawEnd.afterFound.mpr ⟨inner, ih found, inFront⟩, by omega⟩
    have head (room : 0 < after.length) : (after ++ more).head? = after.head? := by
      rw [List.head?_append, List.head?_eq_some_head (List.length_pos_iff.mp room)]; rfl
    simp only [rawEnd] at h
    split at h
    · rename_i cond
      split at h
      · contradiction
      · rename_i d tail here
        have room := congrArg List.length here
        simp only [List.length_drop, List.length_cons] at room
        have next : (after ++ more).drop (1 + name.length) = d :: (tail ++ more) := by
          rw [List.drop_append_of_le_length (by omega), here]; rfl
        rw [← head (by omega), ← namePartExtend more (by omega)] at cond
        rw [List.cons_append, rawEnd, if_pos cond]
        simp only [next]
        split at h
        · rename_i ends
          cases h
          rw [if_pos ends]
          rfl
        · rename_i ends
          rw [if_neg ends]
          exact (later h).1
    · rename_i cond
      obtain ⟨found, room⟩ := later h
      rw [← head (by omega), ← namePartExtend more (by omega)] at cond
      rw [List.cons_append, rawEnd, if_neg cond]
      exact found

namespace State

def extend (s : State) (more : Text) : State := { s with pending := s.pending ++ more }

@[simp] theorem extendPos (s : State) (more : Text) : (s.extend more).pos = s.pos := rfl

@[simp] theorem extendRaw (s : State) (more : Text) : (s.extend more).raw = s.raw := rfl

@[simp] theorem extendPending (s : State) (more : Text) :
    (s.extend more).pending = s.pending ++ more := rfl

theorem extendNil (s : State) : s.extend [] = s := by simp [extend]

theorem extendAppend (s : State) (a b : Text) : s.extend (a ++ b) = (s.extend a).extend b := by
  simp [extend]

end State

def Step.extend (more : Text) : Step → Step
  | .emit e next => .emit e (next.extend more)
  | other => other

namespace State

theorem declarationUntilExtend {s : State} {opening : Nat} {terminator : Text} (more : Text)
    (room : opening ≤ s.pending.length)
    (decided : s.declarationUntil false opening terminator ≠ .wait) :
    (s.extend more).declarationUntil true opening terminator =
      (s.declarationUntil false opening terminator).extend more := by
  unfold declarationUntil at decided ⊢
  rw [extendPending, List.drop_append_of_le_length room, List.take_append_of_le_length room]
  cases here : Text.breakOn? terminator (s.pending.drop opening) with
  | none => simp [here, awaiting] at decided
  | some parts =>
    obtain ⟨before, found⟩ := parts
    have long : terminator.length ≤ found.length :=
      (List.isPrefixOf_iff_prefix.mp (Text.breakOnStarts here)).length_le
    simp only [breakOnExtend more here, List.drop_append_of_le_length long]
    rfl

theorem declarationExtend {s : State} (more : Text) (room : 2 ≤ s.pending.length)
    (decided : s.declaration false ≠ .wait) :
    (s.extend more).declaration true = (s.declaration false).extend more := by
  unfold declaration at decided ⊢
  by_cases comment : "<!--".toList.isPrefixOf s.pending = true
  · have longer : "<!--".toList.isPrefixOf (s.extend more).pending = true := by
      rw [List.isPrefixOf_iff_prefix] at comment ⊢
      exact comment.trans (List.prefix_append _ _)
    rw [if_pos comment] at decided ⊢
    rw [if_pos longer]
    have fits := (List.isPrefixOf_iff_prefix.mp comment).length_le
    exact declarationUntilExtend more (by simpa using fits) decided
  · rw [if_neg comment] at decided ⊢
    by_cases opens : (!false && s.pending.isPrefixOf "<!--".toList) = true
    · rw [if_pos opens] at decided
      exact absurd rfl decided
    · rw [if_neg opens] at decided ⊢
      -- what is pending already differs from the opening of a comment, so it stays different
      have longer : ¬ "<!--".toList.isPrefixOf (s.extend more).pending = true := by
        simp only [Bool.not_false, Bool.true_and] at opens
        rw [List.isPrefixOf_iff_prefix] at comment opens ⊢
        intro starts
        rcases List.prefix_or_prefix_of_prefix starts (List.prefix_append s.pending more) with h | h
        · exact comment h
        · exact opens h
      have ended : ¬ (!true && (s.extend more).pending.isPrefixOf "<!--".toList) = true := by
        simp only [Bool.not_true, Bool.false_and, Bool.false_eq_true, not_false_eq_true]
      rw [if_neg longer, if_neg ended]
      exact declarationUntilExtend more room decided

theorem endTagExtend {s : State} (more : Text) (decided : s.endTag false ≠ .wait) :
    (s.extend more).endTag true = (s.endTag false).extend more := by
  unfold endTag at decided ⊢
  cases here : Text.breakOn? ['>'] s.pending with
  | none => simp [here, awaiting] at decided
  | some parts =>
    obtain ⟨before, found⟩ := parts
    have long : 1 ≤ found.length :=
      (List.isPrefixOf_iff_prefix.mp (Text.breakOnStarts here)).length_le
    rw [extendPending, breakOnExtend more here]
    simp only [List.drop_append_of_le_length long]
    split
    · rfl
    · rfl

theorem startTagExtend {s : State} (more : Text) (room : 1 ≤ s.pending.length)
    (decided : s.startTag false ≠ .wait) :
    (s.extend more).startTag true = (s.startTag false).extend more := by
  unfold startTag at decided ⊢
  simp only [extendPending, extendPos, List.drop_append_of_le_length room] at decided ⊢
  by_cases ends : ((s.pending.drop 1).dropWhile fun c => !endsTagName c).isEmpty = true
  · rw [if_pos ends] at decided
    simp [awaiting] at decided
  · -- the name ends inside of what is pending, so it is the same name with more behind it
    have stops : (s.pending.drop 1).dropWhile (fun c => !endsTagName c) ≠ [] := by
      rwa [List.isEmpty_iff] at ends
    have stays : ¬ (((s.pending.drop 1).dropWhile fun c => !endsTagName c) ++ more).isEmpty = true := by
      rw [List.isEmpty_iff, List.append_eq_nil_iff]
      exact fun empty => stops empty.1
    rw [takeWhileExtend more stops, dropWhileExtend more stops, if_neg stays]
    rw [if_neg ends] at decided ⊢
    split
    · rfl
    · rename_i valid
      rw [if_neg valid] at decided
      cases here : tagEnd? none ((s.pending.drop 1).dropWhile fun c => !endsTagName c) with
      | none =>
        simp only [here] at decided
        exact absurd rfl decided
      | some parts =>
        obtain ⟨inside, rest⟩ := parts
        simp only [tagEndExtend more here]
        split
        · rfl
        · rfl

theorem constructExtend {s : State} {rest : Text} (more : Text) (angle : s.pending = '<' :: rest)
    (decided : s.construct false rest ≠ .wait) :
    (s.extend more).construct true (rest ++ more) = (s.construct false rest).extend more := by
  cases rest with
  | nil => simp [construct] at decided
  | cons c after =>
    simp only [construct, List.cons_append] at decided ⊢
    split
    · rename_i marked
      rw [if_pos marked] at decided
      exact declarationExtend more (by simp [angle]) decided
    · rename_i unmarked
      rw [if_neg unmarked] at decided
      split
      · rename_i slash
        rw [if_pos slash] at decided
        exact endTagExtend more decided
      · rename_i noSlash
        rw [if_neg noSlash] at decided
        split
        · rename_i letter
          rw [if_pos letter] at decided
          exact startTagExtend more (by simp [angle]) decided
        · rfl

theorem textStep {final : Bool} {s : State} {taken rest : Text} (raw : s.raw = none)
    (splits : s.pending = taken ++ rest) (nonempty : taken ≠ []) (free : ∀ c ∈ taken, c ≠ '<')
    (stop : ∀ c ∈ rest.head?, c = '<') :
    s.step final = .emit (.text (s.spanOf taken)) (s.moved taken rest) := by
  have all : ∀ c ∈ taken, decide (c ≠ '<') = true := by simpa using free
  have ended : rest.takeWhile (fun c => decide (c ≠ '<')) = [] ∧
      rest.dropWhile (fun c => decide (c ≠ '<')) = rest := by
    cases rest with
    | nil => exact ⟨rfl, rfl⟩
    | cons c after =>
      have := stop c rfl
      subst c
      exact ⟨rfl, rfl⟩
  cases taken with
  | nil => contradiction
  | cons c after =>
    rw [List.cons_append] at splits
    have other : c ≠ '<' := free c (by simp)
    unfold step plain
    simp only [raw, splits, if_neg other]
    rw [← List.cons_append, List.takeWhile_append_of_pos all, List.dropWhile_append_of_pos all,
      ended.1, ended.2, List.append_nil]
    rfl

def InText (s : State) : Prop := s.raw = none ∧ s.pending ≠ [] ∧ ∀ c ∈ s.pending, c ≠ '<'

theorem inTextStep {s : State} (text : s.InText) :
    s.step false = .emit (.text (s.spanOf s.pending)) (s.moved s.pending []) :=
  textStep text.1 (List.append_nil _).symm text.2.1 text.2.2 (by simp)

theorem plainExtend {s : State} (more : Text) (decided : s.plain false ≠ .wait) :
    (s.extend more).plain true = (s.plain false).extend more ∨
      s.pending ≠ [] ∧ ∀ c ∈ s.pending, c ≠ '<' := by
  cases here : s.pending with
  | nil => simp [plain, here] at decided
  | cons c rest =>
    by_cases angle : c = '<'
    · subst c
      simp only [plain, here, if_true] at decided
      left
      simp only [plain, extendPending, here, List.cons_append, if_true]
      exact constructExtend more here decided
    · by_cases whole : (c :: rest).dropWhile (fun d => decide (d ≠ '<')) = []
      · right
        refine ⟨by simp, ?_⟩
        simpa [List.dropWhile_eq_nil_iff] using whole
      · left
        simp only [plain, extendPending, here, List.cons_append, if_neg angle]
        rw [← List.cons_append, takeWhileExtend more whole, dropWhileExtend more whole]
        rfl

theorem stepExtend {s : State} (more : Text) (decided : s.step false ≠ .wait) :
    (s.extend more).step true = (s.step false).extend more ∨ s.InText := by
  cases raw : s.raw with
  | none =>
    simp only [step, raw, extendRaw] at decided ⊢
    rcases plainExtend more decided with same | text
    · exact .inl same
    · exact .inr ⟨raw, text⟩
  | some name =>
    simp only [step, raw, extendRaw, extendPending] at decided ⊢
    cases here : rawEnd name false s.pending with
    | wait => simp [here] at decided
    | missing =>
      exact absurd here rawEndNotMissing
    | found before rest =>
      rw [rawEndExtend more here]
      cases before with
      | cons c more => exact .inl rfl
      | nil =>
        simp only [here] at decided
        rcases plainExtend more decided with same | ⟨nonempty, free⟩
        · exact .inl same
        · -- an end tag begins with an angle
          have head := (rawEndRoom here).2
          have same : rest = s.pending := rawEndSplits here
          subst same
          exact absurd rfl (free '<' (List.mem_of_mem_head? head))

end State

end ComponentFile.Markup
