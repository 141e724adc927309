import ComponentFile.Text.Span

/-! The inside of an opening tag, from its name to its closing angle, cut into tokens. Blanks part
tokens and are dropped. A quote that is never closed makes one invalid token of all that follows. -/
namespace ComponentFile.Markup

inductive TokenKind where
  | rightAngle
  | slashRightAngle
  | slash
  | equals
  | leftAngle
  | doubleQuoted
  | singleQuoted
  | name
  | invalid
  deriving DecidableEq, Repr

def TokenKind.label : TokenKind → Text
  | .rightAngle => "'>'"
  | .slashRightAngle => "'/>'"
  | .slash => "'/'"
  | .equals => "'='"
  | .leftAngle => "'<'"
  | .doubleQuoted => "quoted value"
  | .singleQuoted => "quoted value"
  | .name => "name"
  | .invalid => "invalid token"

structure Token where
  kind : TokenKind
  span : Span
  text : Text
  deriving DecidableEq, Repr

namespace Token

def isNameCharacter (c : Char) : Bool :=
  !(Text.isBlank c || c = '"' || c = '\'' || c = '<' || c = '>' || c = '/' || c = '=')

def untilQuote (quote : Char) : Text → Option (Text × Text)
  | [] => none
  | c :: rest =>
      if c = quote then some ([], rest)
      else (untilQuote quote rest).map fun (inside, after) => (c :: inside, after)

def quotedKind (quote : Char) : TokenKind := if quote = '"' then .doubleQuoted else .singleQuoted

def first (c : Char) (rest : Text) : TokenKind × Text × Text :=
  if c = '>' then (.rightAngle, ['>'], rest)
  else if c = '=' then (.equals, ['='], rest)
  else if c = '<' then (.leftAngle, ['<'], rest)
  else if c = '/' then
    match rest with
    | '>' :: after => (.slashRightAngle, ['/', '>'], after)
    | _ => (.slash, ['/'], rest)
  else if c = '"' ∨ c = '\'' then
    match untilQuote c rest with
    | some (inside, after) => (quotedKind c, c :: inside ++ [c], after)
    | none => (.invalid, c :: rest, [])
  else (.name, c :: rest.takeWhile isNameCharacter, rest.dropWhile isNameCharacter)

theorem untilQuoteShortens {quote : Char} {t inside after : Text}
    (h : untilQuote quote t = some (inside, after)) : after.length < t.length := by
  induction t generalizing inside with
  | nil => simp [untilQuote] at h
  | cons c rest ih =>
    simp only [untilQuote] at h
    split at h
    · cases h; simp
    · obtain ⟨⟨i, a⟩, found, same⟩ := Option.map_eq_some_iff.mp h
      cases same
      exact Nat.lt_succ_of_lt (ih found)

theorem firstShortens (c : Char) (rest : Text) : (first c rest).2.2.length ≤ rest.length := by
  unfold first
  split
  · exact Nat.le_refl _
  · split
    · exact Nat.le_refl _
    · split
      · exact Nat.le_refl _
      · split
        · split
          · simp
          · exact Nat.le_refl _
        · split
          · split
            · rename_i found
              exact Nat.le_of_lt (untilQuoteShortens found)
            · exact Nat.zero_le _
          · exact (List.dropWhile_sublist _).length_le

def scan (pos : Nat) : Text → List Token
  | [] => []
  | c :: rest =>
      if Text.isBlank c then scan (pos + c.utf8Size) rest
      else
        match found : first c rest with
        | (kind, text, after) =>
            have : after.length ≤ rest.length := by
              have h := firstShortens c rest
              rwa [found] at h
            ⟨kind, ⟨pos, pos + Text.size text⟩, text⟩ :: scan (pos + Text.size text) after
termination_by t => t.length
decreasing_by all_goals simp only [List.length_cons]; omega

end Token

def tagEnd? : (quote : Option Char) → Text → Option (Text × Text)
  | _, [] => none
  | none, c :: rest =>
      if c = '>' then some (['>'], rest)
      else (tagEnd? (if c = '"' ∨ c = '\'' then some c else none) rest).map
        fun (inside, after) => (c :: inside, after)
  | some q, c :: rest =>
      (tagEnd? (if c = q then none else some q) rest).map fun (inside, after) => (c :: inside, after)

theorem tagEndSplits {quote : Option Char} {t inside rest : Text}
    (h : tagEnd? quote t = some (inside, rest)) : inside ++ rest = t := by
  induction t generalizing quote inside with
  | nil => cases quote <;> simp [tagEnd?] at h
  | cons c more ih =>
    cases quote with
    | none =>
      simp only [tagEnd?] at h
      split at h
      · cases h; simp_all
      · obtain ⟨⟨b, f⟩, inner, same⟩ := Option.map_eq_some_iff.mp h
        cases same
        simp [ih inner]
    | some q =>
      simp only [tagEnd?] at h
      obtain ⟨⟨b, f⟩, inner, same⟩ := Option.map_eq_some_iff.mp h
      cases same
      simp [ih inner]

end ComponentFile.Markup
