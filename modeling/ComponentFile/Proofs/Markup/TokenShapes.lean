import Mathlib.Data.List.TakeWhile
import ComponentFile.Proofs.Markup.Tokens

/-! The shapes of the tokens of a tag, with what follows them. A token goes as far as it can: a slash
takes the angle behind it, a name all characters of names, and a quote everything up to the next
quote of its kind. Where a token ends is decided by the first character behind it. -/
namespace ComponentFile.Markup.Token

theorem untilQuoteAbsent {quote : Char} {t inside after : Text}
    (h : untilQuote quote t = some (inside, after)) : quote ∉ inside := by
  induction t generalizing inside with
  | nil => simp [untilQuote] at h
  | cons c rest ih =>
    simp only [untilQuote] at h
    split at h
    · cases h; simp
    · rename_i other
      obtain ⟨⟨i, a⟩, found, same⟩ := Option.map_eq_some_iff.mp h
      cases same
      simp [ih found, Ne.symm other]

theorem untilQuoteFirst {quote : Char} {inside : Text} (after : Text) (absent : quote ∉ inside) :
    untilQuote quote (inside ++ quote :: after) = some (inside, after) := by
  induction inside with
  | nil => simp [untilQuote]
  | cons c rest ih =>
    simp only [List.mem_cons, not_or] at absent
    rw [List.cons_append, untilQuote, if_neg (Ne.symm absent.1), ih absent.2]
    rfl

/- `Shape c rest kind text after`: `c` and `rest` begin with the token `text`, and leave `after`. -/
inductive Shape : Char → Text → TokenKind → Text → Text → Prop where
  | rightAngle (after : Text) : Shape '>' after .rightAngle ['>'] after
  | slashRightAngle (after : Text) : Shape '/' ('>' :: after) .slashRightAngle ['/', '>'] after
  | slash {after : Text} (noAngle : after.head? ≠ some '>') : Shape '/' after .slash ['/'] after
  | equals (after : Text) : Shape '=' after .equals ['='] after
  | leftAngle (after : Text) : Shape '<' after .leftAngle ['<'] after
  | quoted {quote : Char} {inside : Text} (after : Text) (known : quote = '"' ∨ quote = '\'')
      (absent : quote ∉ inside) :
      Shape quote (inside ++ quote :: after) (quotedKind quote) (quote :: inside ++ [quote]) after
  | unclosed {quote : Char} {rest : Text} (known : quote = '"' ∨ quote = '\'')
      (never : untilQuote quote rest = none) : Shape quote rest .invalid (quote :: rest) []
  | name {c : Char} {more after : Text} (letter : isNameCharacter c = true)
      (whole : ∀ d ∈ more, isNameCharacter d = true)
      (stops : ∀ d ∈ after.head?, isNameCharacter d = false) :
      Shape c (more ++ after) .name (c :: more) after

theorem nameCharacterExact {c : Char} : isNameCharacter c = true ↔ Text.isBlank c = false ∧
    ¬ (c = '"' ∨ c = '\'') ∧ c ≠ '<' ∧ c ≠ '>' ∧ c ≠ '/' ∧ c ≠ '=' := by
  simp [isNameCharacter, and_assoc]

section Shape
variable {c : Char} {rest text after : Text} {kind : TokenKind}

theorem firstShape (solid : Text.isBlank c = false) (h : first c rest = (kind, text, after)) :
    Shape c rest kind text after := by
  unfold first at h
  split at h
  · rename_i same; cases h; subst same; exact .rightAngle _
  rename_i noAngle
  split at h
  · rename_i same; cases h; subst same; exact .equals _
  rename_i noEquals
  split at h
  · rename_i same; cases h; subst same; exact .leftAngle _
  rename_i noLeft
  split at h
  · rename_i same
    subst same
    split at h
    · cases h; exact .slashRightAngle _
    · rename_i other
      cases h
      refine .slash fun angle => ?_
      obtain ⟨more, rfl⟩ := List.head?_eq_some_iff.mp angle
      exact other more rfl
  rename_i noSlash
  split at h
  · rename_i known
    split at h
    · rename_i inside behind closes
      cases h
      rw [untilQuoteSplits closes]
      exact .quoted _ known (untilQuoteAbsent closes)
    · rename_i never
      cases h
      exact .unclosed known never
  · rename_i noQuote
    cases h
    have cut := List.takeWhile_append_dropWhile (p := isNameCharacter) (l := rest)
    have letter := nameCharacterExact.mpr ⟨solid, noQuote, noLeft, noAngle, noSlash, noEquals⟩
    have stops : ∀ d ∈ (rest.dropWhile isNameCharacter).head?, isNameCharacter d = false := by
      intro d here
      have stop := List.head?_dropWhile_not isNameCharacter rest
      rw [Option.mem_def.mp here] at stop
      exact stop
    have whole : ∀ d ∈ rest.takeWhile isNameCharacter, isNameCharacter d = true :=
      fun d => List.mem_takeWhile_imp
    have shape := Shape.name letter whole stops
    rwa [cut] at shape

theorem shapeFirst (h : Shape c rest kind text after) : first c rest = (kind, text, after) := by
  cases h with
  | rightAngle => rfl
  | slashRightAngle => rfl
  | slash noAngle =>
    unfold first
    rw [if_neg (by decide), if_neg (by decide), if_neg (by decide), if_pos rfl]
    split
    · exact absurd rfl noAngle
    · rfl
  | equals => rfl
  | leftAngle => rfl
  | quoted after known absent =>
    have closes := untilQuoteFirst after absent
    rcases known with rfl | rfl <;> simp [first, closes]
  | unclosed known never =>
    rcases known with rfl | rfl <;> simp [first, never]
  | @name c more after letter whole stops =>
    obtain ⟨_, noQuote, noLeft, noAngle, noSlash, noEquals⟩ := nameCharacterExact.mp letter
    have ended : after.takeWhile isNameCharacter = [] ∧ after.dropWhile isNameCharacter = after := by
      cases after with
      | nil => exact ⟨rfl, rfl⟩
      | cons d tail => simp [stops d rfl]
    unfold first
    rw [if_neg noAngle, if_neg noEquals, if_neg noLeft, if_neg noSlash, if_neg noQuote,
      List.takeWhile_append_of_pos whole, List.dropWhile_append_of_pos whole, ended.1, ended.2,
      List.append_nil]

theorem shapeSolid (h : Shape c rest kind text after) : Text.isBlank c = false := by
  cases h with
  | rightAngle => rfl
  | slashRightAngle => rfl
  | slash => rfl
  | equals => rfl
  | leftAngle => rfl
  | quoted after known => rcases known with rfl | rfl <;> rfl
  | unclosed known => rcases known with rfl | rfl <;> rfl
  | name letter => exact (nameCharacterExact.mp letter).1

theorem shapeOther {other : Text} (h : Shape c rest kind text after) (closed : kind ≠ .invalid)
    (same : other.head? = after.head?) :
    ∃ more, text = c :: more ∧ Shape c (more ++ other) kind text other := by
  cases h with
  | rightAngle => exact ⟨[], rfl, .rightAngle other⟩
  | slashRightAngle => exact ⟨['>'], rfl, .slashRightAngle other⟩
  | slash noAngle => exact ⟨[], rfl, .slash (same ▸ noAngle)⟩
  | equals => exact ⟨[], rfl, .equals other⟩
  | leftAngle => exact ⟨[], rfl, .leftAngle other⟩
  | quoted after known absent =>
    exact ⟨_, rfl, by simpa using Shape.quoted other known absent⟩
  | unclosed => exact absurd rfl closed
  | name letter whole stops => exact ⟨_, rfl, .name letter whole (same ▸ stops)⟩

theorem shapeSlash (h : Shape c rest kind text after) (closed : kind ≠ .invalid)
    (last : text.getLast? = some '/') : after.head? ≠ some '>' := by
  cases h with
  | rightAngle => contradiction
  | slashRightAngle => contradiction
  | slash noAngle => exact noAngle
  | equals => contradiction
  | leftAngle => contradiction
  | quoted after known absent =>
    rw [List.getLast?_concat] at last
    cases last
    contradiction
  | unclosed => contradiction
  | name letter whole stops =>
    rcases List.mem_cons.mp (List.mem_of_getLast? last) with rfl | member
    · contradiction
    · exact absurd (whole '/' member) (by decide)

end Shape

end ComponentFile.Markup.Token
