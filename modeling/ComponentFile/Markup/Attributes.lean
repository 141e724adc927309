import ComponentFile.Markup.Event
import ComponentFile.Markup.Reference

/-! The attributes of an opening tag, read from its tokens. Names are put in lower case and values
have their character references resolved; an attribute without a value has the empty one. -/
namespace ComponentFile.Markup.Attributes

/-- An unquoted value runs on over names, slashes and equals signs that follow without a gap. -/
def glue (stop : Nat) : List Token → Text × Nat × List Token
  | [] => ([], stop, [])
  | t :: rest =>
      if (t.kind = .name ∨ t.kind = .slash ∨ t.kind = .equals) ∧ t.span.start = stop then
        let (text, last, left) := glue t.span.stop rest
        (t.text ++ text, last, left)
      else ([], stop, t :: rest)

def unquote (t : Text) : Text := (t.drop 1).dropLast

def value (name : Token) : List Token → Except ParseError (Text × Nat × List Token)
  | [] => .ok ([], name.span.stop, [])
  | e :: rest =>
      if e.kind = .equals then
        match rest with
        | [] => .error ⟨.invalidAttribute (.missingValue name.text.lower), e.span⟩
        | v :: more =>
            match v.kind with
            | .doubleQuoted => .ok (Reference.decode (unquote v.text), v.span.stop, more)
            | .singleQuoted => .ok (Reference.decode (unquote v.text), v.span.stop, more)
            | .name =>
                let (text, last, left) := glue v.span.stop more
                .ok (Reference.decode (v.text ++ text), last, left)
            | .slash =>
                let (text, last, left) := glue v.span.stop more
                .ok (Reference.decode (v.text ++ text), last, left)
            | found => .error ⟨.invalidAttribute (.unexpectedValue name.text.lower found), v.span⟩
      else .ok ([], name.span.stop, e :: rest)

theorem glueShortens (stop : Nat) (ts : List Token) : (glue stop ts).2.2.length ≤ ts.length := by
  induction ts generalizing stop with
  | nil => simp [glue]
  | cons t rest ih =>
    simp only [glue]
    split
    · exact Nat.le_succ_of_le (ih _)
    · exact Nat.le_refl _

theorem valueShortens {name : Token} {ts : List Token} {text : Text} {last : Nat}
    {left : List Token} (h : value name ts = .ok (text, last, left)) :
    left.length ≤ ts.length := by
  unfold value at h
  split at h
  · cases h; simp
  · split at h
    · split at h
      · contradiction
      · rename_i v more
        split at h <;> try contradiction
        · cases h; simp only [List.length_cons]; omega
        · cases h; simp only [List.length_cons]; omega
        · cases h
          exact Nat.le_trans (glueShortens v.span.stop more) (by simp only [List.length_cons]; omega)
        · cases h
          exact Nat.le_trans (glueShortens v.span.stop more) (by simp only [List.length_cons]; omega)
    · cases h; simp

def read : List Token → Except ParseError (List Attribute × Bool)
  | [] => .ok ([], false)
  | t :: rest =>
      match t.kind with
      | .name =>
          match found : value t rest with
          | .error e => .error e
          | .ok (text, last, left) =>
              have := valueShortens found
              (read left).map fun (more, selfClosing) =>
                (⟨t.text.lower, text, ⟨t.span.start, last⟩⟩ :: more, selfClosing)
      | .slash => read rest
      | .rightAngle => read rest
      | .slashRightAngle => (read rest).map fun (more, _) => (more, true)
      | kind => .error ⟨.invalidAttribute (.unexpectedToken kind), t.span⟩
termination_by ts => ts.length
decreasing_by all_goals simp only [List.length_cons]; omega

end ComponentFile.Markup.Attributes
