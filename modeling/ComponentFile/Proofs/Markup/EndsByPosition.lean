import ComponentFile.Proofs.Markup.Extension
import ComponentFile.Proofs.Markup.RawText
import ComponentFile.Proofs.Text.ByPosition
import ComponentFile.Proofs.Text.Case

/-! Where a start tag and where raw text end, looked for in the bytes of a text. Both searches come
to the place that reading character by character comes to, and no step of theirs is without an
outcome. -/
namespace ComponentFile.Markup
open Utf8 (Bytes encode asciiOf IsAscii OnlyAscii range?)

def tagEndPlace? : (quote : Option Char) → (place : Nat) → Bytes → Option Nat
  | _, _, [] => none
  | none, place, b :: rest =>
      if asciiOf b = '>' then some place
      else tagEndPlace? (if asciiOf b = '"' ∨ asciiOf b = '\'' then some (asciiOf b) else none)
        (place + 1) rest
  | some q, place, b :: rest =>
      tagEndPlace? (if asciiOf b = q then none else some q) (place + 1) rest

section TagEnd
variable {quote : Option Char} {place : Nat}

theorem foreignOther {c d : Char} (foreign : ¬ IsAscii c) (ascii : IsAscii d) : c ≠ d :=
  fun same => foreign (same ▸ ascii)

theorem foreignNoQuote {c : Char} (foreign : ¬ IsAscii c) : ¬ (c = '"' ∨ c = '\'') :=
  not_or.mpr ⟨foreignOther foreign (by decide), foreignOther foreign (by decide)⟩

theorem tagEndPlaceForeign {bytes : Bytes} (rest : Bytes) (known : ∀ q ∈ quote, IsAscii q)
    (foreign : ∀ b ∈ bytes, ¬ IsAscii (asciiOf b)) :
    tagEndPlace? quote place (bytes ++ rest) = tagEndPlace? quote (place + bytes.length) rest := by
  induction bytes generalizing place with
  | nil => rfl
  | cons b more ih =>
    obtain ⟨high, foreign⟩ := List.forall_mem_cons.mp foreign
    rw [List.cons_append, List.length_cons, Nat.add_comm more.length, ← Nat.add_assoc, ← ih foreign]
    cases quote with
    | some q => rw [tagEndPlace?, if_neg (foreignOther high (known q rfl))]
    | none =>
      rw [tagEndPlace?, if_neg (foreignOther high (by decide)), if_neg (foreignNoQuote high)]

theorem placeBehindCharacter {n : Nat} {c : Char} (size : n = c.utf8Size) {found : Option Nat}
    {cut : Option (Text × Text)}
    (same : found.map (· + 1) = cut.map fun (inside, _) => place + n + Text.size inside) :
    found.map (· + 1) = (cut.map fun (inside, after) => (c :: inside, after)).map
      fun (inside, _) => place + Text.size inside := by
  rw [same, Option.map_map, size]
  congr 1
  funext found
  exact Nat.add_assoc _ _ _

theorem tagEndPlaceExact (known : ∀ q ∈ quote, IsAscii q) (t : Text) :
    (tagEndPlace? quote place (encode t)).map (· + 1) =
      (tagEnd? quote t).map fun (inside, _) => place + Text.size inside := by
  induction t generalizing quote place with
  | nil => cases quote <;> rfl
  | cons c rest ih =>
    have size := String.length_utf8EncodeChar c
    rw [Utf8.encodeCons]
    rcases Utf8.characterBytes c with ⟨ascii, b, bytes, same⟩ | ⟨foreign, _, high⟩
    · rw [bytes] at size ⊢
      cases quote with
      | some q =>
        rw [List.singleton_append, tagEndPlace?, tagEnd?, same]
        refine placeBehindCharacter size (ih ?_)
        split
        · simp
        · exact known
      | none =>
        rw [List.singleton_append, tagEndPlace?, tagEnd?, same]
        split
        · rfl
        · refine placeBehindCharacter size (ih ?_)
          split
          · rintro _ ⟨⟩
            exact ascii
          · simp
    · rw [tagEndPlaceForeign _ known high]
      cases quote with
      | some q =>
        rw [tagEnd?, if_neg (foreignOther foreign (known q rfl))]
        exact placeBehindCharacter size (ih known)
      | none =>
        rw [tagEnd?, if_neg (foreignOther foreign (by decide)), if_neg (foreignNoQuote foreign)]
        exact placeBehindCharacter size (ih known)

end TagEnd

section RawEnd
variable {name : Text} {final : Bool}

inductive RawPlace where
  | found (place : Nat)
  | wait
  | missing
  deriving DecidableEq, Repr

def RawEnd.place (pos : Nat) : RawEnd → RawPlace
  | .found before _ => .found (pos + before.size)
  | .wait => .wait
  | .missing => .missing

def letterOf (b : UInt8) : Char := (asciiOf b).toLower

def sameLetters (a b : Bytes) : Bool := a.map letterOf == b.map letterOf

theorem searchOnward {needle t behind : Text} {start rel : Nat}
    (dropped : Text.dropBytes? start t = some behind) (found : Text.find? needle behind = some rel) :
    start + rel + needle.size ≤ t.size := by
  obtain ⟨front, rfl, rfl⟩ := Text.droppedBytes dropped
  obtain ⟨⟨before, rest⟩, here, rfl⟩ := Option.map_eq_some_iff.mp found
  rw [State.breakOnCut here]
  simp only [Text.sizeAppend]
  omega

def rawEndPlace? (name : Text) (final : Bool) (t : Text) (start : Nat) : Option RawPlace :=
  match dropped : Text.dropBytes? start t with
  | none => none
  | some behind =>
      match found : Text.find? "</" behind with
      | none => some (if final then .missing else .wait)
      | some rel =>
          have : start + rel + 2 ≤ t.size := searchOnward dropped found
          let place := start + rel
          let nameStop := place + 2 + name.size
          if (encode t).length < nameStop then some (if final then .missing else .wait)
          else
            match range? (encode t) (place + 2) nameStop with
            | none => none
            | some word =>
                if sameLetters word (encode name) then
                  match (encode t)[nameStop]? with
                  | some b =>
                      if State.endsTagName (asciiOf b) then some (.found place)
                      else rawEndPlace? name final t (place + 2)
                  | none => some (if final then .found place else .wait)
                else rawEndPlace? name final t (place + 2)
termination_by t.size - start

theorem lowerForeign {c : Char} (foreign : ¬ IsAscii c) : c.toLower = c :=
  Text.lowerOfOther fun upper =>
    foreign (Nat.lt_of_le_of_lt (Text.upperBounds upper).2 (by decide))

theorem sizeLower {t : Text} (ascii : ∀ c ∈ Text.lower t, IsAscii c) : t.size = t.length := by
  induction t with
  | nil => rfl
  | cons c rest ih =>
    obtain ⟨here, ascii⟩ := List.forall_mem_cons.mp ascii
    rcases Utf8.characterBytes c with ⟨_, b, bytes, _⟩ | ⟨foreign, _, _⟩
    · have size := String.length_utf8EncodeChar c
      rw [bytes] at size
      rw [Text.sizeCons, List.length_cons, ih ascii, ← size, Nat.add_comm]
      rfl
    · rw [lowerForeign foreign] at here
      exact absurd here foreign

theorem wordExact (ascii : ∀ c ∈ name, IsAscii c) (t : Text) :
    ((encode t).take name.length).map letterOf = name ↔ Text.lower (t.take name.length) = name := by
  induction name generalizing t with
  | nil => simp [Text.lower]
  | cons a more ih =>
    obtain ⟨known, ascii⟩ := List.forall_mem_cons.mp ascii
    cases t with
    | nil => simp [encode, Text.lower]
    | cons c rest =>
      rw [Utf8.encodeCons]
      rcases Utf8.characterBytes c with ⟨_, b, bytes, same⟩ | ⟨foreign, nonempty, high⟩
      · rw [bytes, List.singleton_append, List.length_cons, List.take_succ_cons, List.take_succ_cons,
          List.map_cons, letterOf, same, Text.lower, List.map_cons, List.cons.injEq,
          List.cons.injEq]
        exact and_congr_right fun _ => ih ascii rest
      · obtain ⟨b, behind, bytes⟩ := List.exists_cons_of_ne_nil nonempty
        rw [bytes] at high ⊢
        refine iff_of_false (fun same => ?_) (fun same => ?_)
        · have head := (List.cons.inj same).1
          have foreign := high b List.mem_cons_self
          rw [letterOf, lowerForeign foreign] at head
          exact foreign (head ▸ known)
        · have head := (List.cons.inj same).1
          rw [lowerForeign foreign] at head
          exact foreign (head ▸ known)

theorem placeAfter (pos : Nat) (c : Char) (r : RawEnd) :
    (r.after c).place pos = r.place (pos + c.utf8Size) := by
  cases r with
  | found before rest => exact congrArg _ (Nat.add_assoc _ _ _).symm
  | wait => rfl
  | missing => rfl

theorem rawEndOther {c : Char} {rest : Text} (other : "</".toList.isPrefixOf (c :: rest) = false) :
    rawEnd name final (c :: rest) = (rawEnd name final rest).after c := by
  rw [rawEnd, if_neg]
  rintro ⟨rfl, slash, _⟩
  obtain ⟨more, rfl⟩ := List.head?_eq_some_iff.mp slash
  exact Bool.noConfusion other

theorem rawEndSkips {pos : Nat} {t before found : Text}
    (here : Text.breakOn? "</" t = some (before, found)) :
    (rawEnd name final t).place pos = (rawEnd name final found).place (pos + before.size) := by
  induction t generalizing pos before with
  | nil => contradiction
  | cons c rest ih =>
    rw [Text.breakOn?] at here
    split at here
    · cases here
      rfl
    · rename_i other
      obtain ⟨⟨inside, behind⟩, inner, same⟩ := Option.map_eq_some_iff.mp here
      cases same
      rw [rawEndOther (Bool.eq_false_iff.mpr other), placeAfter, ih inner, Text.sizeCons,
        Nat.add_assoc]

theorem rawEndNone {pos : Nat} {t : Text} (never : Text.breakOn? "</" t = none) :
    (rawEnd name final t).place pos = if final then .missing else .wait := by
  induction t generalizing pos with
  | nil =>
    rw [rawEnd]
    split <;> rfl
  | cons c rest ih =>
    rw [Text.breakOn?] at never
    split at never
    · contradiction
    · rename_i other
      rw [rawEndOther (Bool.eq_false_iff.mpr other), placeAfter]
      exact ih (Option.map_eq_none_iff.mp never)

theorem rawEndShort {pos : Nat} {t : Text} (short : t.size < 2 + name.length) :
    (rawEnd name final t).place pos = if final then .missing else .wait := by
  induction t generalizing pos with
  | nil =>
    rw [rawEnd]
    split <;> rfl
  | cons c rest ih =>
    have positive := c.utf8Size_pos
    rw [rawEnd, if_neg, placeAfter]
    · exact ih (by simp only [Text.sizeCons] at short; omega)
    · rintro ⟨rfl, slash, same⟩
      obtain ⟨more, rfl⟩ := List.head?_eq_some_iff.mp slash
      have long := congrArg List.length same
      have counted := Text.lengthWithin more
      have two : Text.size ('<' :: '/' :: more) = 2 + Text.size more := by
        simp only [Text.sizeCons, ← Nat.add_assoc]
        rfl
      rw [Text.lower, List.length_map, List.drop_succ_cons, List.drop_zero, List.length_take] at long
      omega

theorem rawEndOpens {pos : Nat} (more : Text) :
    (rawEnd name final ('<' :: '/' :: more)).place pos =
      if Text.lower (more.take name.length) = name then
        match more.drop name.length with
        | [] => if final then .found pos else .wait
        | d :: _ =>
            if State.endsTagName d then .found pos
            else (rawEnd name final more).place (pos + 2)
      else (rawEnd name final more).place (pos + 2) := by
  have onward : ((rawEnd name final ('/' :: more)).after '<').place pos =
      (rawEnd name final more).place (pos + 2) := by
    rw [rawEndOther rfl, placeAfter, placeAfter]
    rfl
  have behind : List.drop (1 + name.length) ('/' :: more) = more.drop name.length := by
    rw [Nat.add_comm, List.drop_succ_cons]
  by_cases named : Text.lower (more.take name.length) = name
  · rw [rawEnd, if_pos ⟨rfl, rfl, named⟩, if_pos named, behind]
    cases more.drop name.length with
    | nil => cases final <;> rfl
    | cons d tail =>
      simp only [← endsTagNameExact]
      split
      · rfl
      · exact onward
  · rw [rawEnd, if_neg fun all => named all.2.2, if_neg named]
    exact onward

theorem knownNames (known : name ∈ rawElements) :
    (∀ c ∈ name, IsAscii c) ∧ (encode name).map letterOf = name ∧ name.size = name.length := by
  have each : ∀ name ∈ rawElements, (name.all fun c => IsAscii c) = true ∧
      (encode name).map letterOf = name ∧ Text.size name = name.length := by decide
  obtain ⟨ascii, lowered, length⟩ := each name known
  exact ⟨by simpa using ascii, lowered, length⟩

theorem endsOnlyAscii : OnlyAscii State.endsTagName := by
  intro c foreign
  refine Bool.eq_false_iff.mpr fun ends => foreign ?_
  have here := endsTagNameExact.mp ends
  simp only [Text.isBlank, Bool.or_eq_true, decide_eq_true_eq] at here
  rcases here with ((((rfl | rfl) | rfl) | rfl) | rfl) | rfl | rfl <;> decide

theorem bytesOpen (known : name ∈ rawElements) (pos : Nat) (more : Text) :
    (rawEnd name final ('<' :: '/' :: more)).place pos =
      if sameLetters ((encode more).take name.length) (encode name) then
        match (encode more)[name.length]? with
        | some b =>
            if State.endsTagName (asciiOf b) then .found pos
            else (rawEnd name final more).place (pos + 2)
        | none => if final then .found pos else .wait
      else (rawEnd name final more).place (pos + 2) := by
  obtain ⟨ascii, lowered, _⟩ := knownNames known
  have word : sameLetters ((encode more).take name.length) (encode name) = true ↔
      Text.lower (more.take name.length) = name := by
    rw [sameLetters, lowered, beq_iff_eq, wordExact ascii]
  rw [rawEndOpens]
  by_cases named : Text.lower (more.take name.length) = name
  · have place : (encode more)[name.length]? = (encode (more.drop name.length))[0]? := by
      have size : Text.size (more.take name.length) = name.length := by
        rw [sizeLower (by rwa [named]), ← named, Text.lower, List.length_map]
        simp
      have behind := Utf8.byteBehind (more.take name.length) (more.drop name.length) 0
      rwa [List.take_append_drop, size] at behind
    rw [if_pos named, if_pos (word.mpr named), place]
    cases more.drop name.length with
    | nil => rfl
    | cons d tail =>
      obtain ⟨b, first, same⟩ := Utf8.firstByte d tail
      simp only [first, same State.endsTagName endsOnlyAscii]
  · rw [if_neg named, if_neg (mt word.mp named)]

theorem rawEndPlaceExact (known : name ∈ rawElements) (front t : Text) :
    rawEndPlace? name final (front ++ t) front.size = some ((rawEnd name final t).place front.size) := by
  induction n : t.length using Nat.strongRecOn generalizing front t with
  | _ n ih =>
    subst n
    obtain ⟨_, _, length⟩ := knownNames known
    rw [rawEndPlace?]
    split
    · rename_i dropped
      rw [Text.dropBytesAppend] at dropped
      contradiction
    · rename_i behind dropped
      rw [Text.dropBytesAppend] at dropped
      cases dropped
      split
      · rename_i never
        rw [rawEndNone (Option.map_eq_none_iff.mp never)]
      · rename_i rel found
        obtain ⟨⟨before, rest⟩, here, rfl⟩ := Option.map_eq_some_iff.mp found
        obtain ⟨more, rfl⟩ := List.isPrefixOf_iff_prefix.mp (Text.breakOnStarts here)
        rw [rawEndSkips here]
        obtain rfl := (Text.breakOnSplits here).symm
        have size : Text.size (front ++ before ++ "</") = front.size + before.size + 2 := by
          rw [Text.sizeAppend, Text.sizeAppend]
          rfl
        have whole : front ++ (before ++ ("</" ++ more)) = front ++ before ++ "</" ++ more := by
          simp only [List.append_assoc]
        have onward := ih more.length (by simp; omega) (front ++ before ++ "</") more rfl
        simp only [whole, ← size]
        by_cases short : Text.size more < name.length
        · rw [if_pos (by rw [Lines.encodeLength, Text.sizeAppend, length]; omega), rawEndShort]
          rw [Text.sizeAppend]
          exact Nat.add_lt_add_left short 2
        · rw [if_neg (by rw [Lines.encodeLength, Text.sizeAppend, length]; omega),
            Utf8.rangeBehind _ _ (by rw [length]; omega), Utf8.byteBehind, onward, length, size]
          refine Eq.trans ?_ (congrArg some (bytesOpen known (front.size + before.size) more).symm)
          simp only
          split
          · cases (encode more)[name.length]? with
            | none => rfl
            | some b =>
              simp only
              split <;> rfl
          · rfl

end RawEnd

end ComponentFile.Markup
