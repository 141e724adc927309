import ComponentFile.Proofs.Markup.Shift
import ComponentFile.Proofs.Markup.TokenShapes
import ComponentFile.Proofs.Text.LineTable

/-! The tokens of a tag as a partition of its inside. They follow each other without overlap, all that
lies between them is blank, and each is spelled as its kind says, as far as the text around it lets it
reach. A quote that is never closed is the last token, up to the end. -/
namespace ComponentFile.Markup
open Utf8 (encode)

namespace Token

inductive Spelled : TokenKind → (before text after : Text) → Prop where
  | rightAngle (before after : Text) : Spelled .rightAngle before ['>'] after
  | slashRightAngle (before after : Text) : Spelled .slashRightAngle before ['/', '>'] after
  | slash (before : Text) {after : Text} (noAngle : after.head? ≠ some '>') :
      Spelled .slash before ['/'] after
  | equals (before after : Text) : Spelled .equals before ['='] after
  | leftAngle (before after : Text) : Spelled .leftAngle before ['<'] after
  | doubleQuoted (before after : Text) {inside : Text} (absent : '"' ∉ inside) :
      Spelled .doubleQuoted before ('"' :: inside ++ ['"']) after
  | singleQuoted (before after : Text) {inside : Text} (absent : '\'' ∉ inside) :
      Spelled .singleQuoted before ('\'' :: inside ++ ['\'']) after
  | name {before text after : Text} (nonempty : text ≠ [])
      (whole : ∀ d ∈ text, isNameCharacter d = true)
      (starts : ∀ d ∈ before.getLast?, isNameCharacter d = false)
      (stops : ∀ d ∈ after.head?, isNameCharacter d = false) : Spelled .name before text after
  | unclosed (before : Text) {quote : Char} {rest : Text} (known : quote = '"' ∨ quote = '\'')
      (never : quote ∉ rest) : Spelled .invalid before (quote :: rest) []

def Placed (base : Nat) (t : Text) (token : Token) : Prop :=
  ∃ before after, t = before ++ token.text ++ after ∧
    token.span = ⟨base + before.size, base + before.size + token.text.size⟩ ∧
    Spelled token.kind before token.text after

def Covers (token : Token) (place : Nat) : Prop :=
  token.span.start ≤ place ∧ place < token.span.stop

def Quoted (kind : TokenKind) : Prop :=
  kind = .doubleQuoted ∨ kind = .singleQuoted ∨ kind = .invalid

def Parted (lead t : Text) : Prop :=
  ∀ c ∈ lead.getLast?, ∀ d ∈ t.head?, isNameCharacter c = true → isNameCharacter d = false

section Spelling
variable {c : Char} {rest text after : Text} {kind : TokenKind}

theorem untilQuoteNever {quote : Char} {t : Text} (never : untilQuote quote t = none) :
    quote ∉ t := by
  intro member
  obtain ⟨front, back, rfl, absent⟩ := List.eq_append_cons_of_mem member
  rw [untilQuoteFirst back absent] at never
  contradiction

theorem shapeSpelled (shape : Shape c rest kind text after) (lead : Text)
    (parted : Parted lead (c :: rest)) : Spelled kind lead text after := by
  cases shape with
  | rightAngle => exact .rightAngle lead _
  | slashRightAngle => exact .slashRightAngle lead _
  | slash noAngle => exact .slash lead noAngle
  | equals => exact .equals lead _
  | leftAngle => exact .leftAngle lead _
  | quoted after known absent =>
    rcases known with rfl | rfl
    · exact .doubleQuoted lead after absent
    · exact .singleQuoted lead after absent
  | unclosed known never => exact .unclosed lead known (untilQuoteNever never)
  | name letter whole stops =>
    refine .name (List.cons_ne_nil _ _) (List.forall_mem_cons.mpr ⟨letter, whole⟩) ?_ stops
    intro d last
    refine Bool.eq_false_iff.mpr fun inName => ?_
    rw [parted d last c rfl inName] at letter
    contradiction

theorem spelledNonempty {before : Text} (spelled : Spelled kind before text after) : text ≠ [] := by
  cases spelled with
  | name nonempty => exact nonempty
  | _ => simp

theorem shapeParted (shape : Shape c rest kind text after) (lead : Text) :
    Parted (lead ++ text) after := by
  have closing {final : Char} (front : Text) (solid : isNameCharacter final = false) :
      Parted (lead ++ (front ++ [final])) after := by
    intro c last d _ inName
    rw [← List.append_assoc, List.getLast?_concat] at last
    cases last
    rw [solid] at inName
    contradiction
  cases shape with
  | rightAngle => exact closing [] rfl
  | slashRightAngle => exact closing ['/'] rfl
  | slash => exact closing [] rfl
  | equals => exact closing [] rfl
  | leftAngle => exact closing [] rfl
  | quoted after known absent =>
    rcases known with rfl | rfl
    · exact closing _ rfl
    · exact closing _ rfl
  | unclosed => exact fun _ _ d here => by contradiction
  | name letter whole stops => exact fun _ _ d here _ => stops d here

theorem quoteNoSlash {quote : Char} (known : quote = '"' ∨ quote = '\'') : quote ≠ '/' := by
  rcases known with rfl | rfl
  · decide
  · decide

theorem quoteOpens {quote : Char} {inside before y : Text} (known : quote = '"' ∨ quote = '\'')
    (cut : quote :: inside = before ++ '/' :: y) : before ≠ [] := by
  rintro rfl
  exact quoteNoSlash known (List.cons.inj cut).1

theorem quoteCloses {quote : Char} {inside before y behind : Text}
    (known : quote = '"' ∨ quote = '\'') (cut : quote :: inside ++ [quote] = before ++ '/' :: y)
    (inner : y ++ after = '>' :: behind) : ∃ tail, y = '>' :: tail := by
  cases y with
  | nil =>
    have last := congrArg List.getLast? cut
    rw [List.getLast?_concat, List.getLast?_concat] at last
    exact absurd (Option.some.inj last) (quoteNoSlash known)
  | cons d tail =>
    obtain ⟨rfl, _⟩ := List.cons.inj inner
    exact ⟨tail, rfl⟩

theorem slashFirst {before y : Text} (cut : ['/', '>'] = before ++ '/' :: y) :
    before = [] ∧ y = ['>'] := by
  cases before with
  | nil => exact ⟨rfl, (List.cons.inj cut).2.symm⟩
  | cons d more =>
    have alone : ['>'] = more ++ '/' :: y := (List.cons.inj cut).2
    have member : '/' ∈ ['>'] := alone ▸ List.mem_append_right more List.mem_cons_self
    exact absurd member (by decide)

theorem shapeSlashAngle (shape : Shape c rest kind text after) {before y behind : Text}
    (cut : text = before ++ '/' :: y) (inner : y ++ after = '>' :: behind) :
    (kind = .slashRightAngle ∧ before = [] ∧ y = ['>']) ∨
      (Quoted kind ∧ before ≠ [] ∧ ∃ tail, y = '>' :: tail) := by
  have slash : '/' ∈ text := by simp [cut]
  cases shape with
  | rightAngle => simp at slash
  | equals => simp at slash
  | leftAngle => simp at slash
  | slashRightAngle => exact .inl ⟨rfl, slashFirst cut⟩
  | slash noAngle =>
    obtain ⟨_, none⟩ : before = [] ∧ y = [] := by
      simpa [List.append_eq_cons_iff, eq_comm] using cut
    rw [none, List.nil_append] at inner
    rw [inner] at noAngle
    exact absurd rfl noAngle
  | quoted after known absent =>
    refine .inr ⟨?_, quoteOpens known cut, quoteCloses known cut inner⟩
    rcases known with rfl | rfl
    · exact .inl rfl
    · exact .inr (.inl rfl)
  | unclosed known never =>
    rw [List.append_nil] at inner
    exact .inr ⟨.inr (.inr rfl), quoteOpens known cut, behind, inner⟩
  | name letter whole stops =>
    rcases List.mem_cons.mp slash with rfl | later
    · contradiction
    · exact absurd (whole '/' later) (by decide)

end Spelling

section Scan
variable {pos : Nat} {t : Text} {tokens : List Token}

theorem scansPlaced {base : Nat} (h : Scans pos t tokens) (lead : Text) (parted : Parted lead t)
    (place : base + lead.size = pos) : ∀ token ∈ tokens, Placed base (lead ++ t) token := by
  induction h generalizing lead with
  | done => simp
  | @blank pos c rest tokens here tail ih =>
    have border : Parted (lead ++ [c]) rest := by
      intro d last e _ inName
      rw [List.getLast?_concat] at last
      cases last
      rw [(nameCharacterExact.mp inName).1] at here
      contradiction
    have onward := ih (lead ++ [c]) border (by simp [← place, Nat.add_assoc])
    rwa [List.append_assoc] at onward
  | @token pos c rest kind text after tokens solid here tail ih =>
    have shape := firstShape solid here
    have splits := (firstSplits here).1
    refine List.forall_mem_cons.mpr ⟨⟨lead, after, ?_, ?_, shapeSpelled shape lead parted⟩, ?_⟩
    · rw [splits, List.append_assoc]
    · rw [place]
    · have onward := ih (lead ++ text) (shapeParted shape lead) (by simp [← place, Nat.add_assoc])
      rwa [List.append_assoc, ← splits] at onward

theorem scansOrdered (h : Scans pos t tokens) :
    tokens.Pairwise fun a b => a.span.stop ≤ b.span.start := by
  induction h with
  | done => exact .nil
  | blank here tail ih => exact ih
  | token solid here tail ih =>
    refine .cons (fun token member => ?_) ih
    obtain ⟨before, after, _, place⟩ := scansPlace tail member
    rw [place]
    exact Nat.le_add_right _ _

theorem scansEmpty {tokens : List Token} (h : Scans pos [] tokens) : tokens = [] := by
  cases h
  rfl

theorem scansUnclosed (h : Scans pos t tokens) {front back : List Token} {token : Token}
    (cut : tokens = front ++ token :: back) (unclosed : token.kind = .invalid) : back = [] := by
  induction h generalizing front with
  | done => simp at cut
  | blank here tail ih => exact ih cut
  | @token pos c rest kind text after tokens solid here tail ih =>
    cases front with
    | cons first more => exact ih (List.cons.inj cut).2
    | nil =>
      obtain ⟨rfl, rfl⟩ := List.cons.inj cut
      have shape := firstShape solid here
      simp only at unclosed
      subst unclosed
      generalize ended : TokenKind.invalid = kind at shape
      cases shape with
      | unclosed => exact scansEmpty tail
      | quoted after known => rcases known with rfl | rfl <;> cases ended
      | _ => cases ended

theorem slashBehind {first : Token} {place : Nat}
    (h : (∃ token ∈ tokens, token.kind = .slashRightAngle ∧ token.span = ⟨place, place + 2⟩) ∨
      ∃ token ∈ tokens, Quoted token.kind ∧ token.span.start < place ∧
        place + 2 ≤ token.span.stop) :
    (∃ token ∈ first :: tokens, token.kind = .slashRightAngle ∧
        token.span = ⟨place, place + 2⟩) ∨
      ∃ token ∈ first :: tokens, Quoted token.kind ∧ token.span.start < place ∧
        place + 2 ≤ token.span.stop := by
  rcases h with ⟨token, member, whole⟩ | ⟨token, member, inside⟩
  · exact .inl ⟨token, List.mem_cons_of_mem _ member, whole⟩
  · exact .inr ⟨token, List.mem_cons_of_mem _ member, inside⟩

theorem scansSlashAngle (h : Scans pos t tokens) {before behind : Text}
    (cut : t = before ++ '/' :: '>' :: behind) :
    (∃ token ∈ tokens, token.kind = .slashRightAngle ∧
        token.span = ⟨pos + before.size, pos + before.size + 2⟩) ∨
      ∃ token ∈ tokens, Quoted token.kind ∧ token.span.start < pos + before.size ∧
        pos + before.size + 2 ≤ token.span.stop := by
  induction h generalizing before with
  | done => simp at cut
  | @blank pos c rest tokens here tail ih =>
    cases before with
    | nil =>
      obtain ⟨rfl, _⟩ := List.cons.inj cut
      contradiction
    | cons d more =>
      obtain ⟨rfl, inner⟩ := List.cons.inj cut
      simpa [Nat.add_assoc] using ih inner
  | @token pos c rest kind text after tokens solid here tail ih =>
    have splits := (firstSplits here).1
    rw [splits] at cut
    rcases List.append_eq_append_iff.mp cut with ⟨more, rfl, inner⟩ | ⟨x, same, inner⟩
    · rw [Text.sizeAppend, ← Nat.add_assoc]
      exact slashBehind (ih inner)
    · cases x with
      | nil =>
        rw [List.append_nil] at same
        subst same
        exact slashBehind (@ih [] inner.symm)
      | cons d y =>
        obtain ⟨rfl, angle⟩ := List.cons.inj inner
        rcases shapeSlashAngle (firstShape solid here) same angle.symm with
          ⟨rfl, rfl, rfl⟩ | ⟨quoted, later, tail, rfl⟩
        · refine .inl ⟨_, List.mem_cons_self, rfl, ?_⟩
          rw [same]
          rfl
        · refine .inr ⟨_, List.mem_cons_self, quoted, ?_, ?_⟩
          · exact Nat.lt_add_of_pos_right (Text.sizePositive later)
          · have two : Text.size ('/' :: '>' :: tail) = 2 + Text.size tail := by
              simp only [Text.sizeCons, ← Nat.add_assoc]
              rfl
            simp only [same, Text.sizeAppend, two]
            omega

def blankBytes : Utf8.Bytes := [0x20, 0x09, 0x0A, 0x0C, 0x0D]

theorem blankWritten {c : Char} (blank : Text.isBlank c = true) :
    ∃ b ∈ blankBytes, String.utf8EncodeChar c = [b] := by
  simp only [Text.isBlank, Bool.or_eq_true, decide_eq_true_eq] at blank
  rcases blank with (((rfl | rfl) | rfl) | rfl) | rfl
  · exact ⟨0x20, by decide, rfl⟩
  · exact ⟨0x09, by decide, rfl⟩
  · exact ⟨0x0A, by decide, rfl⟩
  · exact ⟨0x0C, by decide, rfl⟩
  · exact ⟨0x0D, by decide, rfl⟩

theorem scansCover (h : Scans pos t tokens) {i : Nat} {b : UInt8} (here : (encode t)[i]? = some b) :
    (∃ token ∈ tokens, token.Covers (pos + i)) ∨ b ∈ blankBytes := by
  induction h generalizing i with
  | done => simp [encode] at here
  | @blank pos c rest tokens blank tail ih =>
    obtain ⟨byte, known, written⟩ := blankWritten blank
    have one : c.utf8Size = 1 := by rw [← String.length_utf8EncodeChar, written]; rfl
    rw [Utf8.encodeCons, written] at here
    cases i with
    | zero =>
      cases here
      exact .inr known
    | succ i =>
      have onward := ih (i := i) (by simpa using here)
      rwa [one, Nat.add_assoc, Nat.add_comm 1 i] at onward
  | @token pos c rest kind text after tokens solid first tail ih =>
    rw [(firstSplits first).1, encode, List.flatMap_append] at here
    by_cases inside : i < text.size
    · exact .inl ⟨_, List.mem_cons_self, Nat.le_add_right _ _, Nat.add_lt_add_left inside pos⟩
    · have behind : text.size ≤ i := Nat.not_lt.mp inside
      have length : (encode text).length = text.size := Lines.encodeLength text
      rw [List.getElem?_append_right (by rw [← length] at behind; exact behind)] at here
      rcases ih here with ⟨token, member, covers⟩ | known
      · refine .inl ⟨token, List.mem_cons_of_mem _ member, ?_⟩
        have place : pos + text.size + (i - (encode text).length) = pos + i := by omega
        rwa [← place]
      · exact .inr known

end Scan

/- Wherever the inside of a tag stands, its tokens are those it has at the start of a document, moved
there. They ascend without overlap, none is empty, and each is spelled as its kind says; a slash and
an angle outside of quotes are always one token; what no token covers is blank; an open quote is the
last token. -/
theorem tokensPartition (base : Nat) (t : Text) :
    scan base t = (scan 0 t).map (Token.shift base) ∧
      (scan base t).Pairwise (fun a b => a.span.stop ≤ b.span.start) ∧
      (∀ token ∈ scan base t, token.span.start < token.span.stop ∧ Placed base t token) ∧
      (∀ i b, (encode t)[i]? = some b → (∀ token ∈ scan base t, ¬ token.Covers (base + i)) →
        b ∈ blankBytes) ∧
      (∀ before behind, t = before ++ '/' :: '>' :: behind →
        (∃ token ∈ scan base t, token.kind = .slashRightAngle ∧
            token.span = ⟨base + before.size, base + before.size + 2⟩) ∨
          ∃ token ∈ scan base t, Quoted token.kind ∧ token.span.start < base + before.size ∧
            base + before.size + 2 ≤ token.span.stop) ∧
      ∀ front token back, scan base t = front ++ token :: back → token.kind = .invalid →
        back = [] := by
  have scans := scanScans base t
  have placed : ∀ token ∈ scan base t, Placed base t token :=
    scansPlaced scans [] (fun _ last => by contradiction) rfl
  refine ⟨scanShift base 0 t, scansOrdered scans, fun token member => ⟨?_, placed token member⟩,
    ?_, fun before behind => scansSlashAngle scans, fun front token back => scansUnclosed scans⟩
  · obtain ⟨before, after, _, span, spelled⟩ := placed token member
    rw [span]
    exact Nat.lt_add_of_pos_right (Text.sizePositive (spelledNonempty spelled))
  · intro i b here uncovered
    rcases scansCover scans here with ⟨token, member, covers⟩ | known
    · exact absurd covers (uncovered token member)
    · exact known

example : (scan 4 "a='/>' /> b=\"c />").map (fun t => (t.kind, t.span)) =
    [(.name, ⟨4, 5⟩), (.equals, ⟨5, 6⟩), (.singleQuoted, ⟨6, 10⟩), (.slashRightAngle, ⟨11, 13⟩),
      (.name, ⟨14, 15⟩), (.equals, ⟨15, 16⟩), (.invalid, ⟨16, 21⟩)] := by
  decide +kernel

end Token
end ComponentFile.Markup
