import ComponentFile.Markup.Attributes
import ComponentFile.Proofs.Text.Slice

/-! Tokens of a tag and the places they name. Every token is a part of the text that was scanned,
and an error in the attributes is about one of the tokens. -/
namespace ComponentFile.Markup

namespace Token

inductive Scans : Nat → Text → List Token → Prop where
  | done (pos : Nat) : Scans pos [] []
  | blank {pos c rest tokens} (here : Text.isBlank c = true)
      (tail : Scans (pos + c.utf8Size) rest tokens) : Scans pos (c :: rest) tokens
  | token {pos c rest kind text after tokens} (solid : Text.isBlank c = false)
      (here : first c rest = (kind, text, after)) (tail : Scans (pos + text.size) after tokens) :
      Scans pos (c :: rest) (⟨kind, ⟨pos, pos + text.size⟩, text⟩ :: tokens)

theorem scanScans (pos : Nat) (t : Text) : Scans pos t (scan pos t) := by
  induction n : t.length using Nat.strongRecOn generalizing pos t with
  | _ n ih =>
    subst n
    cases t with
    | nil => rw [scan]; exact .done pos
    | cons c rest =>
      rw [scan]
      split
      · rename_i blank
        exact .blank blank (ih rest.length (by simp) _ rest rfl)
      · rename_i solid
        split
        rename_i kind text after here
        have shorter := firstShortens c rest
        rw [here] at shorter
        exact .token (by simpa using solid) here
          (ih after.length (Nat.lt_succ_of_le shorter) _ after rfl)

theorem scansScan {pos : Nat} {t : Text} {tokens : List Token} (h : Scans pos t tokens) :
    scan pos t = tokens := by
  induction h with
  | done pos => rw [scan]
  | blank here tail ih => rw [scan, if_pos here, ih]
  | @token pos c rest kind text after tokens solid here tail ih =>
    rw [scan, if_neg (by simp [solid]), ← ih]
    split
    rename_i other
    rw [here] at other
    cases other
    rfl

theorem untilQuoteSplits {quote : Char} {t inside after : Text}
    (h : untilQuote quote t = some (inside, after)) : t = inside ++ quote :: after := by
  induction t generalizing inside with
  | nil => simp [untilQuote] at h
  | cons c rest ih =>
    simp only [untilQuote] at h
    split at h
    · rename_i closes
      cases h
      simp [closes]
    · obtain ⟨⟨i, a⟩, found, same⟩ := Option.map_eq_some_iff.mp h
      cases same
      rw [ih found]
      rfl

theorem firstSplits {c : Char} {rest : Text} {kind : TokenKind} {text after : Text}
    (h : first c rest = (kind, text, after)) : c :: rest = text ++ after ∧ text ≠ [] := by
  unfold first at h
  split at h
  · rename_i same; cases h; simp [same]
  · split at h
    · rename_i same; cases h; simp [same]
    · split at h
      · rename_i same; cases h; simp [same]
      · split at h
        · rename_i same
          split at h
          · cases h; simp [same]
          · cases h; simp [same]
        · split at h
          · split at h
            · rename_i found
              cases h
              simp [untilQuoteSplits found]
            · cases h; simp
          · cases h
            simp [List.takeWhile_append_dropWhile]

theorem scansPlace {pos : Nat} {t : Text} {tokens : List Token} {token : Token}
    (h : Scans pos t tokens) (member : token ∈ tokens) :
    ∃ before after, t = before ++ token.text ++ after ∧
      token.span = ⟨pos + before.size, pos + before.size + token.text.size⟩ := by
  induction h with
  | done pos => contradiction
  | @blank pos c rest tokens here tail ih =>
    obtain ⟨before, after, rfl, place⟩ := ih member
    exact ⟨c :: before, after, by simp, by simpa [Nat.add_assoc] using place⟩
  | @token pos c rest kind text after tokens solid here tail ih =>
    obtain ⟨splits, _⟩ := firstSplits here
    rcases List.mem_cons.mp member with rfl | later
    · exact ⟨[], after, by simpa using splits, by simp⟩
    · obtain ⟨before, behind, rfl, place⟩ := ih later
      exact ⟨text ++ before, behind, by simp [splits], by simpa [Nat.add_assoc] using place⟩

end Token

namespace Attributes

theorem glueSuffix (stop : Nat) (ts : List Token) : (glue stop ts).2.2 <:+ ts := by
  induction ts generalizing stop with
  | nil => exact List.suffix_refl _
  | cons t rest ih =>
    simp only [glue]
    split
    · exact (ih _).trans (List.suffix_cons t rest)
    · exact List.suffix_refl _

theorem valueSuffix {name : Token} {ts : List Token} {text : Text} {last : Nat} {left : List Token}
    (h : value name ts = .ok (text, last, left)) : left <:+ ts := by
  unfold value at h
  split at h
  · cases h; exact List.suffix_refl _
  · rename_i e rest
    split at h
    · split at h
      · contradiction
      · rename_i v more
        have twice : more <:+ e :: v :: more :=
          (List.suffix_cons v more).trans (List.suffix_cons e _)
        split at h
        · cases h; exact twice
        · cases h; exact twice
        · cases h; exact (glueSuffix v.span.stop more).trans twice
        · cases h; exact (glueSuffix v.span.stop more).trans twice
        · contradiction
    · cases h; exact List.suffix_refl _

theorem valueBlames {name : Token} {ts : List Token} {e : ParseError}
    (h : value name ts = .error e) : ∃ t ∈ ts, e.span = t.span := by
  unfold value at h
  split at h
  · contradiction
  · split at h
    · split at h
      · cases h
        exact ⟨_, List.mem_cons_self, rfl⟩
      · rename_i v more
        split at h
        · contradiction
        · contradiction
        · contradiction
        · contradiction
        · cases h
          exact ⟨v, by simp, rfl⟩
    · contradiction

inductive Reads : List Token → Except ParseError (List Attribute × Bool) → Prop where
  | done : Reads [] (.ok ([], false))
  | refused {t rest e} (named : t.kind = .name) (here : value t rest = .error e) :
      Reads (t :: rest) (.error e)
  | valued {t rest text last left result} (named : t.kind = .name)
      (here : value t rest = .ok (text, last, left)) (tail : Reads left result) :
      Reads (t :: rest) (result.map fun (more, selfClosing) =>
        (⟨t.text.lower, text, ⟨t.span.start, last⟩⟩ :: more, selfClosing))
  | skipped {t rest result} (kind : t.kind = .slash ∨ t.kind = .rightAngle)
      (tail : Reads rest result) : Reads (t :: rest) result
  | closing {t rest result} (kind : t.kind = .slashRightAngle) (tail : Reads rest result) :
      Reads (t :: rest) (result.map fun (more, _) => (more, true))
  | unexpected {t rest} (kind : t.kind ∈
      [TokenKind.equals, .leftAngle, .doubleQuoted, .singleQuoted, .invalid]) :
      Reads (t :: rest) (.error ⟨.invalidAttribute (.unexpectedToken t.kind), t.span⟩)

theorem readReads (ts : List Token) : Reads ts (read ts) := by
  induction n : ts.length using Nat.strongRecOn generalizing ts with
  | _ n ih =>
    subst n
    cases ts with
    | nil => rw [read]; exact .done
    | cons t rest =>
      have onward : Reads rest (read rest) := ih rest.length (by simp) rest rfl
      rw [read]
      split
      · rename_i named
        split
        · rename_i here
          exact .refused named here
        · rename_i text last left here
          have shorter := valueShortens here
          exact .valued named here (ih left.length (Nat.lt_succ_of_le shorter) left rfl)
      · rename_i kind
        exact .skipped (.inl kind) onward
      · rename_i kind
        exact .skipped (.inr kind) onward
      · rename_i kind
        exact .closing kind onward
      · refine .unexpected ?_
        cases kind : t.kind <;> simp_all

theorem readsRead {ts : List Token} {result : Except ParseError (List Attribute × Bool)}
    (h : Reads ts result) : read ts = result := by
  induction h with
  | done => rw [read]
  | refused named here =>
    rw [read]
    simp only [named]
    split
    · rename_i other; rw [here] at other; cases other; rfl
    · rename_i other; rw [here] at other; contradiction
  | valued named here tail ih =>
    rw [read]
    simp only [named]
    split
    · rename_i other; rw [here] at other; contradiction
    · rename_i other; rw [here] at other; cases other; rw [ih]
  | skipped kind tail ih =>
    rw [read]
    rcases kind with kind | kind <;> simp only [kind, ih]
  | closing kind tail ih =>
    rw [read]
    simp only [kind, ih]
  | @unexpected t rest kind =>
    rw [read]
    simp only [List.mem_cons, List.not_mem_nil, or_false] at kind
    rcases kind with kind | kind | kind | kind | kind <;> simp only [kind]

theorem readsBlames {ts : List Token} {result : Except ParseError (List Attribute × Bool)}
    (h : Reads ts result) (e : ParseError) (failed : result = .error e) :
    ∃ t ∈ ts, e.span = t.span := by
  induction h with
  | done => contradiction
  | refused named here =>
    cases failed
    obtain ⟨t, member, same⟩ := valueBlames here
    exact ⟨t, List.mem_cons_of_mem _ member, same⟩
  | @valued t rest text last left result named here tail ih =>
    cases result with
    | ok made => contradiction
    | error other =>
      cases failed
      obtain ⟨u, member, same⟩ := ih rfl
      exact ⟨u, List.mem_cons_of_mem t ((valueSuffix here).subset member), same⟩
  | skipped kind tail ih =>
    obtain ⟨u, member, same⟩ := ih failed
    exact ⟨u, List.mem_cons_of_mem _ member, same⟩
  | @closing t rest result kind tail ih =>
    cases result with
    | ok made => contradiction
    | error other =>
      cases failed
      obtain ⟨u, member, same⟩ := ih rfl
      exact ⟨u, List.mem_cons_of_mem t member, same⟩
  | unexpected kind =>
    cases failed
    exact ⟨_, List.mem_cons_self, rfl⟩

end Attributes

end ComponentFile.Markup
