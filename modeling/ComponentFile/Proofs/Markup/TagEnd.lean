import ComponentFile.Proofs.Markup.Origin
import ComponentFile.Proofs.Markup.TokenShapes

/-! Where a tag ends. The search for its end goes over the characters and only knows whether it is
between quotes; the scan cuts the same text into tokens. They agree: the tag ends with the first
token that ends a tag, and up to there every quote is closed. So no tag whose end was found has an
open quote or an equals sign at its end, and it closes itself exactly if its text says so. -/
namespace ComponentFile.Markup

def TokenKind.EndsTag (kind : TokenKind) : Prop := kind = .rightAngle ∨ kind = .slashRightAngle

instance (kind : TokenKind) : Decidable kind.EndsTag := inferInstanceAs (Decidable (_ ∨ _))

def inFront (front : Text) (found : Option (Text × Text)) : Option (Text × Text) :=
  found.map fun (inside, rest) => (front ++ inside, rest)

theorem inFrontNil (found : Option (Text × Text)) : inFront [] found = found := by
  cases found <;> rfl

theorem inFrontAppend (a b : Text) (found : Option (Text × Text)) :
    inFront a (inFront b found) = inFront (a ++ b) found := by
  cases found <;> simp [inFront]

theorem tagEndOther {c : Char} (rest : Text) (noAngle : c ≠ '>') (noQuote : ¬ (c = '"' ∨ c = '\'')) :
    tagEnd? none (c :: rest) = inFront [c] (tagEnd? none rest) := by
  rw [tagEnd?, if_neg noAngle, if_neg noQuote]
  rfl

theorem tagEndInName {front : Text} (rest : Text)
    (whole : ∀ c ∈ front, Token.isNameCharacter c = true) :
    tagEnd? none (front ++ rest) = inFront front (tagEnd? none rest) := by
  induction front with
  | nil => exact (inFrontNil _).symm
  | cons c more ih =>
    obtain ⟨_, noQuote, _, noAngle, _, _⟩ :=
      Token.nameCharacterExact.mp (whole c List.mem_cons_self)
    rw [List.cons_append, tagEndOther _ noAngle noQuote,
      ih fun d member => whole d (List.mem_cons_of_mem c member), inFrontAppend]
    rfl

theorem tagEndQuoted {quote : Char} {inside : Text} (after : Text) (absent : quote ∉ inside) :
    tagEnd? (some quote) (inside ++ quote :: after) =
      inFront (inside ++ [quote]) (tagEnd? none after) := by
  induction inside with
  | nil => simp [tagEnd?, inFront]
  | cons c rest ih =>
    simp only [List.mem_cons, not_or] at absent
    rw [List.cons_append, tagEnd?, if_neg (Ne.symm absent.1), ih absent.2]
    exact inFrontAppend [c] _ _

theorem tagEndUnclosed {quote : Char} {t : Text} (never : Token.untilQuote quote t = none) :
    tagEnd? (some quote) t = none := by
  induction t with
  | nil => rfl
  | cons c rest ih =>
    rw [Token.untilQuote] at never
    split at never
    · contradiction
    · rename_i other
      rw [tagEnd?, if_neg other, ih (Option.map_eq_none_iff.mp never)]
      rfl

theorem tagEndQuote {quote : Char} (rest : Text) (known : quote = '"' ∨ quote = '\'') :
    tagEnd? none (quote :: rest) = inFront [quote] (tagEnd? (some quote) rest) := by
  have noAngle : quote ≠ '>' := by rcases known with rfl | rfl <;> decide
  rw [tagEnd?, if_neg noAngle, if_pos known]
  rfl

structure EndsHere (c : Char) (kind : TokenKind) (text : Text) : Prop where
  ends : kind.EndsTag
  alone : ∃ more, text = c :: more ∧ Token.Shape c more kind text []
  closing : kind = .slashRightAngle ↔ ['/', '>'] <:+ text

theorem tagEndFirst {c : Char} {rest text after : Text} {kind : TokenKind}
    (shape : Token.Shape c rest kind text after) :
    (EndsHere c kind text ∧ tagEnd? none (c :: rest) = some (text, after)) ∨
      (kind = .invalid ∧ after = [] ∧ tagEnd? none (c :: rest) = none) ∨
      (¬ kind.EndsTag ∧ kind ≠ .invalid ∧
        tagEnd? none (c :: rest) = inFront text (tagEnd? none after)) := by
  cases shape with
  | rightAngle => exact .inl ⟨⟨.inl rfl, ⟨[], rfl, .rightAngle []⟩, by decide⟩, rfl⟩
  | slashRightAngle => exact .inl ⟨⟨.inr rfl, ⟨['>'], rfl, .slashRightAngle []⟩, by decide⟩, rfl⟩
  | slash =>
    exact .inr (.inr ⟨by decide, by decide, tagEndOther _ (by decide) (by decide)⟩)
  | equals =>
    exact .inr (.inr ⟨by decide, by decide, tagEndOther _ (by decide) (by decide)⟩)
  | leftAngle =>
    exact .inr (.inr ⟨by decide, by decide, tagEndOther _ (by decide) (by decide)⟩)
  | quoted after known absent =>
    have other : ¬ (Token.quotedKind c).EndsTag ∧ Token.quotedKind c ≠ .invalid := by
      rcases known with rfl | rfl <;> decide
    refine .inr (.inr ⟨other.1, other.2, ?_⟩)
    rw [tagEndQuote _ known, tagEndQuoted _ absent, inFrontAppend]
    rfl
  | unclosed known never =>
    refine .inr (.inl ⟨rfl, rfl, ?_⟩)
    rw [tagEndQuote _ known, tagEndUnclosed never]
    rfl
  | name letter whole stops =>
    exact .inr (.inr ⟨by decide, by decide,
      tagEndInName after (List.forall_mem_cons.mpr ⟨letter, whole⟩)⟩)

theorem tagEndBlank {c : Char} (rest : Text) (blank : Text.isBlank c = true) :
    tagEnd? none (c :: rest) = inFront [c] (tagEnd? none rest) := by
  apply tagEndOther
  · rintro rfl
    contradiction
  · rintro (rfl | rfl) <;> contradiction

structure TagTokens (front : List Token) (last : Token) : Prop where
  inside : ∀ t ∈ front, ¬ t.kind.EndsTag ∧ t.kind ≠ .invalid
  ends : last.kind.EndsTag

structure CutTokens (pos : Nat) (inside rest : Text) (front : List Token) (last : Token)
    (behind : List Token) : Prop where
  tokens : TagTokens front last
  upTo : Token.Scans pos inside (front ++ [last])
  onward : Token.Scans (pos + Text.size inside) rest behind
  place : last.span.stop = pos + Text.size inside
  closing : last.kind = .slashRightAngle ↔ ['/', '>'] <:+ inside

theorem inFrontSome {front inside rest : Text} {found : Option (Text × Text)}
    (h : inFront front found = some (inside, rest)) :
    ∃ more, found = some (more, rest) ∧ inside = front ++ more := by
  obtain ⟨⟨more, behind⟩, here, same⟩ := Option.map_eq_some_iff.mp h
  cases same
  exact ⟨more, here, rfl⟩

theorem closingBehind {front inner : Text} (nonempty : inner ≠ [])
    (apart : inner = ['>'] → front.getLast? ≠ some '/') :
    ['/', '>'] <:+ inner ↔ ['/', '>'] <:+ front ++ inner := by
  constructor
  · exact fun suffix => suffix.trans (List.suffix_append front inner)
  · rintro ⟨lead, same⟩
    rcases List.append_eq_append_iff.mp same with ⟨x, rfl, right⟩ | ⟨x, rfl, right⟩
    · match x, right with
      | [], right => exact ⟨[], right⟩
      | [d], right =>
        obtain ⟨rfl, rfl⟩ := List.cons.inj right
        exact absurd (by simp) (apart rfl)
      | [d, e], right =>
        obtain ⟨_, right⟩ := List.cons.inj right
        exact absurd (List.cons.inj right).2.symm nonempty
    · exact ⟨x, right.symm⟩

theorem cutBlank {pos : Nat} {c : Char} {inner rest : Text} {front behind : List Token}
    {last : Token} (blank : Text.isBlank c = true) (ends : ∃ before, inner = before ++ ['>'])
    (cut : CutTokens (pos + c.utf8Size) inner rest front last behind) :
    CutTokens pos (c :: inner) rest front last behind where
  tokens := cut.tokens
  upTo := .blank blank cut.upTo
  onward := by simpa [Nat.add_assoc] using cut.onward
  place := by simpa [Nat.add_assoc] using cut.place
  closing := by
    obtain ⟨before, rfl⟩ := ends
    have apart : [c].getLast? ≠ some '/' := by
      rintro ⟨⟩
      contradiction
    exact cut.closing.trans (closingBehind (by simp) fun _ => apart)

theorem cutToken {pos : Nat} {c : Char} {more text inner rest : Text} {kind : TokenKind}
    {front behind : List Token} {last : Token} (solid : Text.isBlank c = false)
    (shape : Token.Shape c more kind text (inner ++ rest)) (onward : ¬ kind.EndsTag)
    (closed : kind ≠ .invalid) (ends : ∃ before, inner = before ++ ['>'])
    (cut : CutTokens (pos + text.size) inner rest front last behind) :
    CutTokens pos (text ++ inner) rest (⟨kind, ⟨pos, pos + text.size⟩, text⟩ :: front) last behind
    where
  tokens := ⟨List.forall_mem_cons.mpr ⟨⟨onward, closed⟩, cut.tokens.inside⟩, cut.tokens.ends⟩
  upTo := by
    have head : inner.head? = (inner ++ rest).head? := by
      obtain ⟨before, rfl⟩ := ends
      cases before <;> rfl
    obtain ⟨tail, same, alone⟩ := Token.shapeOther shape closed head
    have again := Token.Scans.token solid (Token.shapeFirst alone) cut.upTo
    rwa [← List.cons_append, ← same] at again
  onward := by simpa [Nat.add_assoc] using cut.onward
  place := by simpa [Nat.add_assoc] using cut.place
  closing := by
    obtain ⟨before, rfl⟩ := ends
    refine cut.closing.trans (closingBehind (by simp) fun angle slash => ?_)
    exact Token.shapeSlash shape closed slash (by rw [angle]; rfl)

theorem scansTagEnd {pos : Nat} {t inside rest : Text} {tokens : List Token}
    (h : Token.Scans pos t tokens) (found : tagEnd? none t = some (inside, rest)) :
    ∃ front last behind, tokens = front ++ last :: behind ∧
      CutTokens pos inside rest front last behind := by
  induction h generalizing inside with
  | done pos => simp [tagEnd?] at found
  | @blank pos c more tokens here tail ih =>
    rw [tagEndBlank _ here] at found
    obtain ⟨inner, onward, rfl⟩ := inFrontSome found
    obtain ⟨front, last, behind, rfl, cut⟩ := ih onward
    exact ⟨front, last, behind, rfl, cutBlank here (State.tagEndStops onward) cut⟩
  | @token pos c more kind text after tokens solid here tail ih =>
    have shape := Token.firstShape solid here
    rcases tagEndFirst shape with ⟨stops, same⟩ | ⟨_, _, never⟩ | ⟨other, closed, goesOn⟩
    · rw [found] at same
      cases same
      obtain ⟨body, same, alone⟩ := stops.alone
      refine ⟨[], _, tokens, rfl, ⟨by simp, stops.ends⟩, ?_, tail, rfl, stops.closing⟩
      have whole := Token.Scans.token solid (Token.shapeFirst alone) (.done (pos + text.size))
      rwa [← same] at whole
    · rw [found] at never
      contradiction
    · rw [goesOn] at found
      obtain ⟨inner, onward, rfl⟩ := inFrontSome found
      obtain ⟨front, last, behind, rfl, cut⟩ := ih onward
      have splits := tagEndSplits onward
      subst splits
      exact ⟨_ :: front, last, behind, rfl,
        cutToken solid shape other closed (State.tagEndStops onward) cut⟩

theorem scansNoTagEnd {pos : Nat} {t : Text} {tokens : List Token} (h : Token.Scans pos t tokens)
    (missing : tagEnd? none t = none) : ∀ token ∈ tokens, ¬ token.kind.EndsTag := by
  induction h with
  | done pos => simp
  | blank here tail ih =>
    rw [tagEndBlank _ here] at missing
    exact ih (Option.map_eq_none_iff.mp missing)
  | token solid here tail ih =>
    rcases tagEndFirst (Token.firstShape solid here) with ⟨_, same⟩ | ⟨rfl, rfl, _⟩ |
      ⟨other, _, goesOn⟩
    · rw [missing] at same
      contradiction
    · cases tail
      simp [TokenKind.EndsTag]
    · rw [goesOn] at missing
      exact List.forall_mem_cons.mpr ⟨other, ih (Option.map_eq_none_iff.mp missing)⟩

/- The faults of a tag that was cut too early: a value is missing, or a quote is open. -/
inductive AttributeFault.CutShort : AttributeFault → Prop where
  | missingValue (name : Text) : CutShort (.missingValue name)
  | openValue (name : Text) : CutShort (.unexpectedValue name .invalid)
  | openQuote : CutShort (.unexpectedToken .invalid)

theorem tagTokensCons {t last : Token} {front rest : List Token} (same : t :: rest = front ++ [last])
    (tokens : TagTokens front last) :
    (t = last ∧ rest = []) ∨ ((¬ t.kind.EndsTag ∧ t.kind ≠ .invalid) ∧
      ∃ more, rest = more ++ [last] ∧ TagTokens more last) := by
  cases front with
  | nil => exact .inl (List.cons.inj same)
  | cons f more =>
    obtain ⟨rfl, rfl⟩ := List.cons.inj same
    obtain ⟨here, inside⟩ := List.forall_mem_cons.mp tokens.inside
    exact .inr ⟨here, more, rfl, inside, tokens.ends⟩

theorem tagTokensClosed {t last : Token} {front rest : List Token}
    (same : t :: rest = front ++ [last]) (tokens : TagTokens front last) : t.kind ≠ .invalid := by
  rcases tagTokensCons same tokens with ⟨rfl, _⟩ | ⟨here, _⟩
  · rcases tokens.ends with kind | kind <;> simp [kind]
  · exact here.2

theorem tagTokensLeft {last : Token} {front taken left : List Token}
    (same : taken ++ left = front ++ [last]) (tokens : TagTokens front last)
    (onward : ∀ t ∈ taken, ¬ t.kind.EndsTag) :
    ∃ more, left = more ++ [last] ∧ TagTokens more last := by
  induction taken generalizing front with
  | nil => exact ⟨front, same, tokens⟩
  | cons t rest ih =>
    rcases tagTokensCons same tokens with ⟨rfl, _⟩ | ⟨_, more, behind, inside⟩
    · exact absurd tokens.ends (onward t List.mem_cons_self)
    · exact ih behind inside fun u member => onward u (List.mem_cons_of_mem t member)

namespace Attributes

theorem glueTakes (stop : Nat) (ts : List Token) :
    ∃ taken, ts = taken ++ (glue stop ts).2.2 ∧ ∀ t ∈ taken, ¬ t.kind.EndsTag := by
  induction ts generalizing stop with
  | nil => exact ⟨[], rfl, by simp⟩
  | cons t rest ih =>
    simp only [glue]
    split
    · rename_i glued
      obtain ⟨taken, same, onward⟩ := ih t.span.stop
      refine ⟨t :: taken, by rw [List.cons_append, ← same], List.forall_mem_cons.mpr ⟨?_, onward⟩⟩
      rcases glued.1 with kind | kind | kind <;> rw [kind] <;> decide
    · exact ⟨[], rfl, by simp⟩

theorem valueTakes {name : Token} {ts : List Token} {text : Text} {last : Nat} {left : List Token}
    (h : value name ts = .ok (text, last, left)) :
    ∃ taken, ts = taken ++ left ∧ ∀ t ∈ taken, ¬ t.kind.EndsTag := by
  unfold value at h
  split at h
  · cases h; exact ⟨[], rfl, by simp⟩
  · rename_i e rest
    split at h
    · rename_i equals
      split at h
      · contradiction
      · rename_i v more
        have both (kind : TokenKind) (here : v.kind = kind) (other : ¬ kind.EndsTag) :
            ∀ t ∈ [e, v], ¬ t.kind.EndsTag := by
          simp only [List.forall_mem_cons, equals, here]
          exact ⟨by decide, other, by simp⟩
        have glued (kind : TokenKind) (here : v.kind = kind) (other : ¬ kind.EndsTag) :
            ∃ taken, e :: v :: more = taken ++ (glue v.span.stop more).2.2 ∧
              ∀ t ∈ taken, ¬ t.kind.EndsTag := by
          obtain ⟨taken, same, onward⟩ := glueTakes v.span.stop more
          refine ⟨[e, v] ++ taken, by rw [List.append_assoc, ← same]; rfl, fun t member => ?_⟩
          exact (List.mem_append.mp member).elim (both kind here other t) (onward t)
        split at h
        · rename_i kind; cases h; exact ⟨[e, v], rfl, both _ kind (by decide)⟩
        · rename_i kind; cases h; exact ⟨[e, v], rfl, both _ kind (by decide)⟩
        · rename_i kind; cases h; exact glued _ kind (by decide)
        · rename_i kind; cases h; exact glued _ kind (by decide)
        · contradiction
    · cases h; exact ⟨[], rfl, by simp⟩

theorem valueFault {name last : Token} {ts front : List Token} {e : ParseError}
    (h : value name ts = .error e) (same : ts = front ++ [last]) (tokens : TagTokens front last) :
    ∃ fault, e.fault = .invalidAttribute fault ∧ ¬ fault.CutShort := by
  unfold value at h
  split at h
  · contradiction
  · rename_i sign rest
    split at h
    · rename_i equals
      rcases tagTokensCons same tokens with ⟨rfl, _⟩ | ⟨_, more, behind, inside⟩
      · exact absurd tokens.ends (by rw [equals]; decide)
      · split at h
        · simp at behind
        · rename_i v left
          have closed := tagTokensClosed behind inside
          split at h
          · contradiction
          · contradiction
          · contradiction
          · contradiction
          · cases h
            refine ⟨_, rfl, fun short => ?_⟩
            generalize kind : v.kind = found at closed short
            cases short
            contradiction
    · contradiction

theorem readsTag {last : Token} {ts front : List Token}
    {result : Except ParseError (List Attribute × Bool)} (h : Reads ts result)
    (same : ts = front ++ [last]) (tokens : TagTokens front last) :
    (∀ e, result = .error e → ∃ fault, e.fault = .invalidAttribute fault ∧ ¬ fault.CutShort) ∧
      ∀ attributes selfClosing, result = .ok (attributes, selfClosing) →
        (selfClosing = true ↔ last.kind = .slashRightAngle) := by
  induction h generalizing front with
  | done => simp at same
  | @refused t rest e named here =>
    rcases tagTokensCons same tokens with ⟨rfl, _⟩ | ⟨_, more, behind, inside⟩
    · exact absurd tokens.ends (by rw [named]; decide)
    · refine ⟨fun _ failed => ?_, nofun⟩
      cases failed
      exact valueFault here behind inside
  | @valued t rest text stop left result named here tail ih =>
    rcases tagTokensCons same tokens with ⟨rfl, _⟩ | ⟨_, more, behind, inside⟩
    · exact absurd tokens.ends (by rw [named]; decide)
    · obtain ⟨taken, cut, onward⟩ := valueTakes here
      obtain ⟨others, leaves, later⟩ := tagTokensLeft (cut.symm.trans behind) inside onward
      obtain ⟨faults, closes⟩ := ih leaves later
      cases result with
      | error e => exact ⟨fun _ failed => by cases failed; exact faults e rfl, nofun⟩
      | ok made => exact ⟨nofun, fun _ _ read => by cases read; exact closes _ _ rfl⟩
  | @skipped t rest result kind tail ih =>
    rcases tagTokensCons same tokens with ⟨rfl, rfl⟩ | ⟨_, more, behind, inside⟩
    · cases tail
      refine ⟨nofun, fun _ _ read => ?_⟩
      cases read
      rcases kind with kind | kind <;> simp [kind]
    · exact ih behind inside
  | @closing t rest result kind tail ih =>
    rcases tagTokensCons same tokens with ⟨rfl, rfl⟩ | ⟨other, _⟩
    · cases tail
      exact ⟨nofun, fun _ _ read => by cases read; simp [kind]⟩
    · exact absurd (.inr kind) other.1
  | @unexpected t rest kind =>
    have closed := tagTokensClosed same tokens
    refine ⟨fun _ failed => ?_, nofun⟩
    cases failed
    refine ⟨_, rfl, fun short => ?_⟩
    generalize t.kind = found at closed short
    cases short
    contradiction

end Attributes

structure EndsAlike (base : Nat) (interior inside rest : Text) : Prop where
  splits : inside ++ rest = interior
  tokens : ∃ front last behind, Token.scan base interior = front ++ last :: behind ∧
    Token.scan base inside = front ++ [last] ∧ TagTokens front last ∧
    last.span.stop = base + inside.size
  faults : ∀ e, Attributes.read (Token.scan base inside) = .error e →
    ∃ fault, e.fault = .invalidAttribute fault ∧ ¬ fault.CutShort
  closing : ∀ attributes selfClosing,
    Attributes.read (Token.scan base inside) = .ok (attributes, selfClosing) →
      (selfClosing = true ↔ ['/', '>'] <:+ inside)

theorem endsAlike (base : Nat) {interior inside rest : Text}
    (found : tagEnd? none interior = some (inside, rest)) : EndsAlike base interior inside rest := by
  obtain ⟨front, last, behind, tokens, cut⟩ := scansTagEnd (Token.scanScans base interior) found
  have upTo := Token.scansScan cut.upTo
  obtain ⟨faults, closes⟩ := Attributes.readsTag (Attributes.readReads _) upTo cut.tokens
  exact ⟨tagEndSplits found, ⟨front, last, behind, tokens, upTo, cut.tokens, cut.place⟩, faults,
    fun attributes selfClosing read => (closes attributes selfClosing read).trans cut.closing⟩

/- The search finds the end of a tag exactly if the scan has a token that ends one, and then the end
of the first such token. In no document, however it is written, are attributes cut short; a tag
closes itself exactly if its text ends with a slash and an angle. -/
theorem tagEndsAlike (base : Nat) (interior : Text) (chunks : List Text) :
    ((tagEnd? none interior).isSome = true ↔
        ∃ t ∈ Token.scan base interior, t.kind.EndsTag) ∧
      (∀ inside rest, tagEnd? none interior = some (inside, rest) →
        EndsAlike base interior inside rest) ∧
      (∀ e fault, (State.start.feed chunks).2 = .error e → e.fault = .invalidAttribute fault →
        ¬ fault.CutShort) ∧
      ∀ tag, .opened tag ∈ (State.start.feed chunks).1 →
        ∃ text, tag.span.slice? chunks.flatten = some text ∧
          (tag.selfClosing = true ↔ ['/', '>'] <:+ text) := by
  refine ⟨⟨?_, ?_⟩, fun inside rest => endsAlike base, ?_, ?_⟩
  · intro some
    obtain ⟨⟨inside, rest⟩, found⟩ := Option.isSome_iff_exists.mp some
    obtain ⟨front, last, behind, same, _, tokens, _⟩ := (endsAlike base found).tokens
    exact ⟨last, by simp [same], tokens.ends⟩
  · rintro ⟨t, member, ends⟩
    by_contra none
    have missing := Option.not_isSome_iff_eq_none.mp none
    exact scansNoTagEnd (Token.scanScans base interior) missing t member ends
  · intro e fault failed blames
    obtain ⟨here, final, stops⟩ := State.feedFailure failed
    obtain ⟨pos, t, inside, rest, ends, read⟩ := State.stepFault stops blames
    obtain ⟨other, same, whole⟩ := (endsAlike pos ends).faults e read
    rw [blames] at same
    cases same
    exact whole
  · intro tag member
    obtain ⟨front, later, cut⟩ := List.append_of_mem member
    obtain ⟨here, next, before, more, delivers⟩ := State.feedOrigin (Prod.ext cut rfl)
    obtain ⟨name, inside, opens, document, span⟩ := State.deliveredTag delivers
    refine ⟨'<' :: name ++ inside, ?_, ?_⟩
    · rw [document, span]
      exact Text.sliceMiddle before _ _
    · -- a name has no slash, so the one before the angle stands behind it
      refine ((endsAlike _ opens.ends).closing _ _ opens.read).trans ?_
      obtain ⟨lead, same⟩ := State.tagEndStops opens.ends
      refine closingBehind (by simp [same]) fun _ slash => ?_
      rcases List.mem_cons.mp (List.mem_of_getLast? slash) with angle | inName
      · exact absurd angle (by decide)
      · exact absurd (opens.whole '/' inName) (by decide)

theorem quotedAngleSkipped :
    EndsAlike 2 " a='>'/>b" " a='>'/>" "b" ∧
      ∃ text, Span.slice? ⟨0, 10⟩ "<t a='>'/>b" = some text ∧ ['/', '>'] <:+ text := by
  obtain ⟨_, alike, _, closing⟩ := tagEndsAlike 2 " a='>'/>b" ["<t a='>", "'/>b"]
  have found : tagEnd? none " a='>'/>b" = some (" a='>'/>".toList, "b".toList) := by decide
  have opened : .opened ⟨"t", [⟨"a", ">", ⟨3, 8⟩⟩], ⟨0, 10⟩, true⟩ ∈
      (State.start.feed ["<t a='>", "'/>b"]).1 := by decide +kernel
  obtain ⟨text, slice, closes⟩ := closing _ opened
  exact ⟨alike _ _ found, text, slice, closes.mp rfl⟩

end ComponentFile.Markup
