import ComponentFile.Proofs.Markup.TokenPartition
import ComponentFile.Proofs.Text.ByPosition

/-! The attributes of a tag read from a list of tokens by index. A token is a kind and a place there,
in words of 32 bits, and its text is cut out of the inside of the tag. Every index and every cut that
the reading asks for is there, quotes can always be taken off, and every span goes forward. -/
namespace ComponentFile.Markup

structure Mark where
  kind : TokenKind
  span : Span

namespace Token

def mark (t : Token) : Mark := ⟨t.kind, t.span⟩

end Token

namespace Attributes

def marks? (base : Nat) : List Token → Option (List Mark)
  | [] => some []
  | t :: rest => do
      let start ← Word.add? base (t.span.start % Word.size32)
      let stop ← Word.add? base (t.span.stop % Word.size32)
      let span ← Span.inWords? start stop
      let more ← marks? base rest
      some (⟨t.kind, span⟩ :: more)

def unquoted? (t : Text) : Option Text :=
  if 1 ≤ t.size then Text.slice? t 1 (t.size - 1) else none

def glueAt (marks : List Mark) (stop i : Nat) : Nat × Nat :=
  match here : marks[i]? with
  | none => (stop, i)
  | some t =>
      have : i < marks.length := (List.getElem?_eq_some_iff.mp here).1
      if (t.kind = .name ∨ t.kind = .slash ∨ t.kind = .equals) ∧ t.span.start = stop then
        glueAt marks t.span.stop (i + 1)
      else (stop, i)
termination_by marks.length - i

section Reading
variable (inside : Text) (base : Nat) (marks : List Mark)

def quotedAt? (v : Mark) (i : Nat) : Option (Text × Nat × Nat) := do
  let quoted ← Text.between? base inside v.span.start v.span.stop
  let text ← unquoted? quoted
  some (Reference.decode text, v.span.stop, i)

def unquotedAt? (v : Mark) (i : Nat) : Option (Text × Nat × Nat) := do
  let (stop, next) := glueAt marks v.span.stop i
  let text ← Text.between? base inside v.span.start stop
  some (Reference.decode text, stop, next)

def givenAt? (name : Text) (v : Mark) (i : Nat) : Option (Except ParseError (Text × Nat × Nat)) :=
  match v.kind with
  | .doubleQuoted => (quotedAt? inside base v i).map .ok
  | .singleQuoted => (quotedAt? inside base v i).map .ok
  | .name => (unquotedAt? inside base marks v i).map .ok
  | .slash => (unquotedAt? inside base marks v i).map .ok
  | found => some (.error ⟨.invalidAttribute (.unexpectedValue name found), v.span⟩)

def valueAt? (name : Text) (stop i : Nat) : Option (Except ParseError (Text × Nat × Nat)) :=
  if (marks[i]?).map Mark.kind = some .equals then do
    let e ← marks[i]?
    match marks[i + 1]? with
    | none => some (.error ⟨.invalidAttribute (.missingValue name), e.span⟩)
    | some v => givenAt? inside base marks name v (i + 2)
  else some (.ok ([], stop, i))

theorem glueOnward (stop i : Nat) : i ≤ (glueAt marks stop i).2 := by
  fun_induction glueAt marks stop i with
  | case1 => exact Nat.le_refl _
  | case2 stop i t here inside glued ih => omega
  | case3 => exact Nat.le_refl _

variable {inside base marks}

theorem unquotedOnward {v : Mark} {text : Text} {i last next : Nat}
    (h : unquotedAt? inside base marks v i = some (text, last, next)) : i ≤ next := by
  obtain ⟨cut, _, same⟩ := Option.bind_eq_some_iff.mp h
  cases same
  exact glueOnward marks v.span.stop i

theorem quotedOnward {v : Mark} {text : Text} {i last next : Nat}
    (h : quotedAt? inside base v i = some (text, last, next)) : i ≤ next := by
  obtain ⟨cut, _, h⟩ := Option.bind_eq_some_iff.mp h
  obtain ⟨bare, _, same⟩ := Option.bind_eq_some_iff.mp h
  cases same
  exact Nat.le_refl _

theorem givenOnward {name text : Text} {v : Mark} {i last next : Nat}
    (h : givenAt? inside base marks name v i = some (.ok (text, last, next))) : i ≤ next := by
  have mapped {found : Option (Text × Nat × Nat)}
      (same : found.map (Except.ok (ε := ParseError)) = some (.ok (text, last, next))) :
      found = some (text, last, next) := by
    obtain ⟨_, here, inner⟩ := Option.map_eq_some_iff.mp same
    cases inner
    exact here
  unfold givenAt? at h
  split at h
  · exact quotedOnward (mapped h)
  · exact quotedOnward (mapped h)
  · exact unquotedOnward (mapped h)
  · exact unquotedOnward (mapped h)
  · cases h

theorem valueOnward {name text : Text} {stop i last next : Nat}
    (h : valueAt? inside base marks name stop i = some (.ok (text, last, next))) : i ≤ next := by
  unfold valueAt? at h
  split at h
  · obtain ⟨e, _, h⟩ := Option.bind_eq_some_iff.mp h
    split at h
    · cases h
    · exact Nat.le_of_add_right_le (givenOnward h)
  · cases h
    exact Nat.le_refl _

variable (inside base marks)

def readAt? (i : Nat) : Option (Except ParseError (List Attribute × Bool)) :=
  match here : marks[i]? with
  | none => some (.ok ([], false))
  | some t =>
      have : i < marks.length := (List.getElem?_eq_some_iff.mp here).1
      match t.kind with
      | .name => do
          let name ← Text.between? base inside t.span.start t.span.stop
          match found : valueAt? inside base marks name.lower t.span.stop (i + 1) with
          | none => none
          | some (.error e) => some (.error e)
          | some (.ok (text, last, next)) =>
              have := valueOnward found
              let span ← Span.inWords? t.span.start last
              (readAt? next).map fun result => result.map fun (more, selfClosing) =>
                (⟨name.lower, text, span⟩ :: more, selfClosing)
      | .slash => readAt? (i + 1)
      | .rightAngle => readAt? (i + 1)
      | .slashRightAngle => (readAt? (i + 1)).map fun result => result.map fun (more, _) => (more, true)
      | kind => some (.error ⟨.invalidAttribute (.unexpectedToken kind), t.span⟩)
termination_by marks.length - i

def attributesAt? : Option (Except ParseError (List Attribute × Bool)) := do
  let marks ← marks? base (Token.scan 0 inside)
  readAt? inside base marks 0

variable {inside base marks}

theorem readAtHead {t : Mark} {i : Nat} (head : marks[i]? = some t) :
    readAt? inside base marks i = match t.kind with
      | .name => do
          let name ← Text.between? base inside t.span.start t.span.stop
          let given ← valueAt? inside base marks name.lower t.span.stop (i + 1)
          match given with
          | .error e => some (.error e)
          | .ok (text, last, next) => do
              let span ← Span.inWords? t.span.start last
              (readAt? inside base marks next).map fun result =>
                result.map fun (more, selfClosing) => (⟨name.lower, text, span⟩ :: more, selfClosing)
      | .slash => readAt? inside base marks (i + 1)
      | .rightAngle => readAt? inside base marks (i + 1)
      | .slashRightAngle =>
          (readAt? inside base marks (i + 1)).map fun result =>
            result.map fun (more, _) => (more, true)
      | kind => some (.error ⟨.invalidAttribute (.unexpectedToken kind), t.span⟩) := by
  rw [readAt?]
  split
  · rename_i found
    rw [head] at found
    contradiction
  · rename_i found
    rw [head] at found
    cases found
    cases t.kind with
    | name =>
      simp only
      congr 1
      funext name
      split <;> rename_i found <;> rw [found] <;> rfl
    | _ => rfl

end Reading

section Tokens
variable {base : Nat} {inside : Text} {ts rest : List Token} {i : Nat}

structure Laid (base : Nat) (inside : Text) (ts : List Token) : Prop where
  placed : ∀ t ∈ ts, t.Placed base inside
  ordered : ts.Pairwise fun a b => a.span.stop ≤ b.span.start
  short : base + inside.size < Word.size32

theorem scanLaid (short : base + inside.size < Word.size32) :
    Laid base inside (Token.scan base inside) :=
  ⟨Token.scansPlaced (Token.scanScans base inside) [] (fun _ last => by contradiction) rfl,
    Token.scansOrdered (Token.scanScans base inside), short⟩

structure Stands (base : Nat) (inside : Text) (t : Token) : Prop where
  text : Text.between? base inside t.span.start t.span.stop = some t.text
  order : t.span.start ≤ t.span.stop
  within : t.span.stop ≤ base + inside.size

theorem placedStands {t : Token} (placed : t.Placed base inside) : Stands base inside t := by
  obtain ⟨before, after, rfl, span, _⟩ := placed
  rw [List.append_assoc]
  refine ⟨?_, ?_, ?_⟩
  · rw [span, ← List.append_assoc]
    exact Text.betweenBehind base before t.text after
  · rw [span]
    exact Nat.le_add_right _ _
  · rw [span]
    simp only [Text.sizeAppend]
    omega

theorem marksExact {alone : List Token} (within : ∀ t ∈ alone, t.span.start ≤ t.span.stop ∧
    base + t.span.stop < Word.size32) :
    marks? base alone = some (alone.map fun t => (t.shift base).mark) := by
  induction alone with
  | nil => rfl
  | cons t more ih =>
    obtain ⟨⟨order, short⟩, within⟩ := List.forall_mem_cons.mp within
    have start : Word.add? base (t.span.start % Word.size32) = some (base + t.span.start) := by
      rw [Nat.mod_eq_of_lt (by omega), Word.add?, if_pos (by omega)]
    have stop : Word.add? base (t.span.stop % Word.size32) = some (base + t.span.stop) := by
      rw [Nat.mod_eq_of_lt (by omega), Word.add?, if_pos short]
    have span := Span.inWordsExact (Nat.add_le_add_left order base) short
    rw [marks?, start, stop]
    simp only [Option.bind_eq_bind, Option.bind_some, span, ih within]
    rfl

theorem marksScan (short : base + inside.size < Word.size32) :
    marks? base (Token.scan 0 inside) = some ((Token.scan base inside).map Token.mark) := by
  have moved : Token.scan base inside = (Token.scan 0 inside).map (Token.shift base) :=
    Token.scanShift base 0 inside
  have laid := scanLaid short
  rw [marksExact, moved, List.map_map]
  · rfl
  · intro t member
    have stands := placedStands (laid.placed (t.shift base)
      (by rw [moved]; exact List.mem_map_of_mem member))
    have order := stands.order
    have within := stands.within
    simp only [Token.shift, Span.shift] at order within
    omega

def From (ts : List Token) (i : Nat) (rest : List Token) : Prop :=
  ∃ front, ts = front ++ rest ∧ front.length = i

theorem fromNext {t : Token} (here : From ts i (t :: rest)) : From ts (i + 1) rest := by
  obtain ⟨front, rfl, rfl⟩ := here
  exact ⟨front ++ [t], by simp, by simp⟩

theorem fromHead {t : Token} (here : From ts i (t :: rest)) :
    t ∈ ts ∧ (ts.map Token.mark)[i]? = some t.mark := by
  obtain ⟨front, rfl, rfl⟩ := here
  exact ⟨by simp, by simp⟩

theorem fromEnd (here : From ts i []) : (ts.map Token.mark)[i]? = none := by
  obtain ⟨front, rfl, rfl⟩ := here
  simp

def Ends (ts : List Token) (stop : Nat) : Prop := ∃ t ∈ ts, t.span.stop = stop

theorem endsCons {stop : Nat} (t : Token) (h : Ends rest stop) : Ends (t :: rest) stop := by
  obtain ⟨u, member, same⟩ := h
  exact ⟨u, List.mem_cons_of_mem t member, same⟩

theorem glueAtHead {marks : List Mark} {t : Mark} {stop : Nat} (head : marks[i]? = some t) :
    glueAt marks stop i =
      if (t.kind = .name ∨ t.kind = .slash ∨ t.kind = .equals) ∧ t.span.start = stop then
        glueAt marks t.span.stop (i + 1)
      else (stop, i) := by
  rw [glueAt]
  split
  · rename_i found
    rw [head] at found
    contradiction
  · rename_i found
    rw [head] at found
    cases found
    rfl

theorem glueExact {start stop : Nat} {text : Text} (stands : ∀ t ∈ ts, Stands base inside t)
    (here : From ts i rest) (cut : Text.between? base inside start stop = some text) :
    ∃ j, From ts j (glue stop rest).2.2 ∧
      glueAt (ts.map Token.mark) stop i = ((glue stop rest).2.1, j) ∧
      Text.between? base inside start (glue stop rest).2.1 = some (text ++ (glue stop rest).1) ∧
      ((glue stop rest).2.1 = stop ∨ Ends rest (glue stop rest).2.1) := by
  induction rest generalizing i stop text with
  | nil =>
    refine ⟨i, here, ?_, by simpa [glue] using cut, .inl rfl⟩
    rw [glueAt]
    split
    · rfl
    · rename_i found
      rw [fromEnd here] at found
      contradiction
  | cons t rest ih =>
    obtain ⟨member, head⟩ := fromHead here
    rw [glueAtHead head]
    by_cases glued : (t.kind = .name ∨ t.kind = .slash ∨ t.kind = .equals) ∧ t.span.start = stop
    · have more := Text.betweenJoin cut (glued.2 ▸ (stands t member).text)
      obtain ⟨j, left, ends, joined, last⟩ := ih (fromNext here) more
      simp only [glue, if_pos glued]
      refine ⟨j, left, (if_pos glued).trans ends, by simpa using joined, .inr ?_⟩
      rcases last with last | last
      · exact ⟨t, List.mem_cons_self, last.symm⟩
      · exact endsCons t last
    · simp only [glue, if_neg glued]
      exact ⟨i, here, if_neg glued, by simpa using cut, by simp⟩

theorem unquotedExact {v : Token} (stands : ∀ t ∈ ts, Stands base inside t)
    (here : From ts i (v :: rest)) :
    ∃ j, From ts j (glue v.span.stop rest).2.2 ∧
      unquotedAt? inside base (ts.map Token.mark) v.mark (i + 1) =
        some (Reference.decode (v.text ++ (glue v.span.stop rest).1),
          (glue v.span.stop rest).2.1, j) ∧
      Ends (v :: rest) (glue v.span.stop rest).2.1 := by
  obtain ⟨member, _⟩ := fromHead here
  obtain ⟨j, left, ends, cut, last⟩ := glueExact stands (fromNext here) (stands v member).text
  refine ⟨j, left, ?_, ?_⟩
  · unfold unquotedAt?
    simp only [Token.mark, ends, cut, Option.bind_eq_bind, Option.bind_some]
  · rcases last with last | last
    · exact ⟨v, List.mem_cons_self, last.symm⟩
    · exact endsCons v last

theorem unquotedQuotes {t : Text} {before after : Text} {kind : TokenKind}
    (quoted : kind = .doubleQuoted ∨ kind = .singleQuoted)
    (spelled : Token.Spelled kind before t after) : unquoted? t = some (unquote t) := by
  have bare {quote : Char} (one : quote.utf8Size = 1) (inside : Text) :
      unquoted? (quote :: inside ++ [quote]) = some (unquote (quote :: inside ++ [quote])) := by
    have size : Text.size (quote :: inside ++ [quote]) = 1 + inside.size + 1 := by
      simp [one, Nat.add_assoc]
    have slice := Text.sliceMiddle [quote] inside [quote]
    have first : Text.size [quote] = 1 := one
    unfold unquoted?
    rw [if_pos (by omega), size, Nat.add_sub_cancel]
    rw [first] at slice
    simpa [unquote] using slice
  cases spelled with
  | doubleQuoted => exact bare rfl _
  | singleQuoted => exact bare rfl _
  | _ => rcases quoted with kind | kind <;> cases kind

theorem quotedExact {v : Token} (laid : Laid base inside ts) (member : v ∈ ts)
    (quoted : v.kind = .doubleQuoted ∨ v.kind = .singleQuoted) (j : Nat) :
    quotedAt? inside base v.mark j = some (Reference.decode (unquote v.text), v.span.stop, j) := by
  obtain ⟨before, after, _, _, spelled⟩ := laid.placed v member
  unfold quotedAt?
  simp only [Token.mark, (placedStands (laid.placed v member)).text, unquotedQuotes quoted spelled,
    Option.bind_eq_bind, Option.bind_some]

inductive ValueAt (ts rest : List Token) (stop : Nat) :
    Except ParseError (Text × Nat × List Token) → Except ParseError (Text × Nat × Nat) → Prop where
  | refused (e : ParseError) : ValueAt ts rest stop (.error e) (.error e)
  | given {text : Text} {last j : Nat} {left : List Token} (behind : From ts j left)
      (ends : last = stop ∨ Ends rest last) : ValueAt ts rest stop (.ok (text, last, left)) (.ok (text, last, j))

theorem givenExact {n e v : Token} {more : List Token} (laid : Laid base inside ts)
    (equals : e.kind = .equals) (here : From ts i (v :: more)) :
    ∃ result, givenAt? inside base (ts.map Token.mark) n.text.lower v.mark (i + 1) = some result ∧
      ValueAt ts (e :: v :: more) n.span.stop (value n (e :: v :: more)) result := by
  have stands : ∀ t ∈ ts, Stands base inside t := fun t member => placedStands (laid.placed t member)
  obtain ⟨member, _⟩ := fromHead here
  obtain ⟨j, left, unquoted, last⟩ := unquotedExact stands here
  have ends : Ends (e :: v :: more) v.span.stop := ⟨v, by simp, rfl⟩
  have shown : v.mark.kind = v.kind := rfl
  have behind := fromNext here
  rw [value, if_pos equals]
  simp only [givenAt?, shown]
  cases quote : v.kind with
  | doubleQuoted =>
    simp only [quotedExact laid member (.inl quote)]
    exact ⟨_, rfl, .given behind (.inr ends)⟩
  | singleQuoted =>
    simp only [quotedExact laid member (.inr quote)]
    exact ⟨_, rfl, .given behind (.inr ends)⟩
  | name =>
    simp only [unquoted]
    exact ⟨_, rfl, .given left (.inr (endsCons e last))⟩
  | slash =>
    simp only [unquoted]
    exact ⟨_, rfl, .given left (.inr (endsCons e last))⟩
  | _ => exact ⟨_, rfl, .refused _⟩

theorem valueExact {n : Token} (laid : Laid base inside ts) (here : From ts i rest) :
    ∃ result, valueAt? inside base (ts.map Token.mark) n.text.lower n.span.stop i = some result ∧
      ValueAt ts rest n.span.stop (value n rest) result := by
  unfold valueAt?
  cases rest with
  | nil =>
    rw [fromEnd here]
    exact ⟨_, rfl, .given here (.inl rfl)⟩
  | cons e rest =>
    obtain ⟨_, head⟩ := fromHead here
    have next := fromNext here
    have kind : (some e.mark).map Mark.kind = some .equals ↔ e.kind = .equals := by simp [Token.mark]
    rw [head]
    by_cases equals : e.kind = .equals
    · rw [if_pos (kind.mpr equals), Option.bind_eq_bind, Option.bind_some]
      cases rest with
      | nil =>
        rw [fromEnd next, value, if_pos equals]
        exact ⟨_, rfl, .refused _⟩
      | cons v more =>
        rw [(fromHead next).2]
        exact givenExact laid equals next
    · have plain : value n (e :: rest) = .ok ([], n.span.stop, e :: rest) := by
        unfold value
        exact if_neg equals
      rw [if_neg (mt kind.mp equals), plain]
      exact ⟨_, rfl, .given here (.inl rfl)⟩

theorem endsForward (laid : Laid base inside ts) {t : Token} {stop : Nat}
    (here : From ts i (t :: rest)) (ends : stop = t.span.stop ∨ Ends rest stop) :
    t.span.start ≤ stop ∧ stop < Word.size32 := by
  obtain ⟨member, _⟩ := fromHead here
  obtain ⟨front, rfl, _⟩ := here
  have short := laid.short
  have first := placedStands (laid.placed t member)
  have order := first.order
  have within := first.within
  rcases ends with rfl | ⟨u, later, rfl⟩
  · omega
  · have apart := (List.pairwise_cons.mp (List.pairwise_append.mp laid.ordered).2.1).1 u later
    have last := placedStands (laid.placed u (by simp [later]))
    have order := last.order
    have within := last.within
    omega

theorem readExact {result : Except ParseError (List Attribute × Bool)} (laid : Laid base inside ts)
    (here : From ts i rest) (reads : Reads rest result) :
    readAt? inside base (ts.map Token.mark) i = some result := by
  induction reads generalizing i with
  | done =>
    rw [readAt?]
    split
    · rfl
    · rename_i found
      rw [fromEnd here] at found
      contradiction
  | @refused t rest e named given =>
    obtain ⟨member, head⟩ := fromHead here
    obtain ⟨found, read, same⟩ := valueExact laid (fromNext here) (n := t)
    rw [given] at same
    cases same
    rw [readAtHead head]
    simp only [Token.mark, named, (placedStands (laid.placed t member)).text, Option.bind_eq_bind,
      Option.bind_some, read]
  | @valued t rest text last left result named given tail ih =>
    obtain ⟨member, head⟩ := fromHead here
    obtain ⟨found, read, same⟩ := valueExact laid (fromNext here) (n := t)
    rw [given] at same
    cases same with
    | given behind ends =>
      obtain ⟨forward, short⟩ := endsForward laid here ends
      rw [readAtHead head]
      simp only [Token.mark, named, (placedStands (laid.placed t member)).text, Option.bind_eq_bind,
        Option.bind_some, read, Span.inWordsExact forward short, ih behind]
      rfl
  | @skipped t rest result kind tail ih =>
    obtain ⟨_, head⟩ := fromHead here
    have onward := ih (fromNext here)
    have shown : t.mark.kind = t.kind := rfl
    rw [readAtHead head, shown]
    rcases kind with kind | kind <;> rw [kind] <;> exact onward
  | @closing t rest result kind tail ih =>
    obtain ⟨_, head⟩ := fromHead here
    have shown : t.mark.kind = .slashRightAngle := kind
    rw [readAtHead head, shown]
    simp only [ih (fromNext here)]
    rfl
  | @unexpected t rest kind =>
    obtain ⟨_, head⟩ := fromHead here
    have shown : t.mark.kind = t.kind := rfl
    rw [readAtHead head, shown]
    simp only [List.mem_cons, List.not_mem_nil, or_false] at kind
    rcases kind with kind | kind | kind | kind | kind <;> rw [kind] <;> rfl

theorem attributesExact (short : base + inside.size < Word.size32) :
    attributesAt? inside base = some (read (Token.scan base inside)) := by
  rw [attributesAt?, marksScan short]
  exact readExact (scanLaid short) ⟨[], rfl, rfl⟩ (readReads _)

end Tokens
end Attributes
end ComponentFile.Markup
