import ComponentFile.Mapping.Segments
import ComponentFile.Proofs.Mapping.Digits
import ComponentFile.Proofs.Text.Split

/-! Written mappings are read back. The writer's previous numbers and the reader's running sums
are the same numbers, and a separator never stands inside of a segment. -/
namespace ComponentFile.Segments

def readOn (limits : Limits) (line : Nat) (column : Int) (t : Totals) (text : Text) :
    Except MapError (List Mapping) :=
  match Text.splitAt ';' text with
  | [] => .ok []
  | here :: later => do
      let (found, t) ← decodeLine limits (line % Word.size32) column t (Text.splitAt ',' here)
      let more ← decodeLines limits (line + 1) t later
      .ok (found ++ more)

def Ends (rest : Text) : Prop := ∀ c, rest.head? = some c → c = ',' ∨ c = ';'

section Reading
variable {limits : Limits} {line : Nat} {column : Int} {t : Totals}

theorem decodeOn (limits : Limits) (text : Text) :
    decode limits text = readOn limits 0 0 .zero text := by
  obtain ⟨here, later, pieces⟩ := Text.splitSome ';' text
  unfold decode readOn
  rw [pieces, decodeLines]

theorem decodeLineEmpty (rest : List Text) :
    decodeLine limits line column t ([] :: rest) = decodeLine limits line column t rest := by
  rw [decodeLine]

theorem decodeLineSegment {column' : Int} {t' : Totals} {found : Option Mapping} {here : Text}
    (nonempty : here ≠ [])
    (read : segment limits line column t here = .ok (found, column', t')) (rest : List Text) :
    decodeLine limits line column t (here :: rest) =
      (decodeLine limits line column' t' rest).map fun more => (found.toList ++ more.1, more.2) := by
  rw [decodeLine, read]
  · simp only [bind, Except.bind]
    cases decodeLine limits line column' t' rest with
    | error e => rfl
    | ok more => rfl
  · exact nonempty

theorem readOnBreak (text : Text) :
    readOn limits line column t (';' :: text) = readOn limits (line + 1) 0 t text := by
  obtain ⟨here, later, pieces⟩ := Text.splitSome ';' text
  unfold readOn
  rw [Text.splitSeparator, pieces]
  simp only [Text.splitAt, decodeLine, decodeLines, bind, Except.bind]
  cases decodeLine limits ((line + 1) % Word.size32) 0 t (Text.splitAt ',' here) with
  | error e => rfl
  | ok read =>
    obtain ⟨found, sums⟩ := read
    simp only
    cases decodeLines limits (line + 1 + 1) sums later with
    | error e => rfl
    | ok more => rfl

theorem readOnBreaks (k : Nat) (text : Text) (some : 0 < k) :
    readOn limits line column t (List.replicate k ';' ++ text) = readOn limits (line + k) 0 t text := by
  induction k generalizing line column with
  | zero => contradiction
  | succ k ih =>
    rw [List.replicate_succ, List.cons_append, readOnBreak]
    rcases Nat.eq_zero_or_pos k with rfl | more
    · rfl
    · rw [ih more, Nat.add_assoc, Nat.add_comm 1]

theorem readOnComma (text : Text) :
    readOn limits line column t (',' :: text) = readOn limits line column t text := by
  obtain ⟨here, later, pieces⟩ := Text.splitSome ';' text
  unfold readOn
  rw [Text.splitOther (by decide) pieces, pieces]
  simp only [Text.splitSeparator, decodeLineEmpty]

theorem endsSplit {rest : Text} (ends : Ends rest) :
    ∃ here later pieces, Text.splitAt ';' rest = here :: later ∧
      Text.splitAt ',' here = [] :: pieces := by
  cases rest with
  | nil => exact ⟨[], [], [], rfl, rfl⟩
  | cons c more =>
    rcases ends c rfl with rfl | rfl
    · obtain ⟨here, later, pieces⟩ := Text.splitSome ';' more
      exact ⟨',' :: here, later, Text.splitAt ',' here, Text.splitOther (by decide) pieces,
        Text.splitSeparator here⟩
    · exact ⟨[], Text.splitAt ';' more, [], Text.splitSeparator more, rfl⟩

theorem readOnSegment {column' : Int} {t' : Totals} {found : Option Mapping} {here rest : Text}
    (nonempty : here ≠ []) (clean : ∀ c ∈ here, c ≠ ',' ∧ c ≠ ';') (ends : Ends rest)
    (read : segment limits (line % Word.size32) column t here = .ok (found, column', t')) :
    readOn limits line column t (here ++ rest) =
      (readOn limits line column' t' rest).map (found.toList ++ ·) := by
  obtain ⟨tail, later, pieces, lines, segments⟩ := endsSplit ends
  have wholeLine := Text.splitAfter (fun c member => (clean c member).2) lines
  have wholePieces := Text.splitAfter (fun c member => (clean c member).1) segments
  rw [List.append_nil] at wholePieces
  unfold readOn
  rw [wholeLine, lines]
  simp only [wholePieces, segments, decodeLineEmpty]
  rw [decodeLineSegment nonempty read]
  simp only [bind, Except.bind]
  cases decodeLine limits (line % Word.size32) column' t' pieces with
  | error e => rfl
  | ok read =>
    obtain ⟨more, sums⟩ := read
    simp only [Except.map]
    cases decodeLines limits (line + 1) sums later with
    | error e => rfl
    | ok rest => simp only [List.append_assoc]

end Reading

theorem okBind {α β : Type} (a : α) (f : α → Except MapError β) : (Except.ok a >>= f) = f a := (rfl)

structure Fits (limits : Limits) (m : Mapping) : Prop where
  line : m.generated.line < Word.size32
  column : m.generated.column < Word.size32
  originLine : m.origin.line < Word.size32
  originColumn : m.origin.column < Word.size32
  source : m.source < limits.sources ∧ m.source < Word.size32
  name : ∀ n, m.name = some n → n < limits.names ∧ n < Word.size32

namespace Previous

def after (p : Previous) (m : Mapping) : Previous :=
  ⟨m.generated.line, m.generated.column, m.source, m.origin.line, m.origin.column,
    m.name.getD p.name⟩

def totals (p : Previous) : Totals := ⟨p.source, p.originLine, p.originColumn, p.name⟩

structure Small (p : Previous) : Prop where
  column : p.column < Word.size32
  source : p.source < Word.size32
  originLine : p.originLine < Word.size32
  originColumn : p.originColumn < Word.size32
  name : p.name < Word.size32

theorem smallStart : start.Small := by constructor <;> decide

theorem smallAfter {limits : Limits} {p : Previous} {m : Mapping} (small : p.Small)
    (fits : Fits limits m) : (p.after m).Small := by
  refine ⟨fits.column, fits.source.2, fits.originLine, fits.originColumn, ?_⟩
  cases named : m.name with
  | none => simpa [after, named] using small.name
  | some n => simpa [after, named] using (fits.name n named).2

end Previous

def written (p : Previous) (column : Nat) (m : Mapping) : Text :=
  Digits.encode (difference m.generated.column column) ++
    (Digits.encode (difference m.source p.source) ++
      (Digits.encode (difference m.origin.line p.originLine) ++
        (Digits.encode (difference m.origin.column p.originColumn) ++
          (match m.name with
            | some n => Digits.encode (difference n p.name)
            | none => []))))

theorem encodeFromCons (first : Bool) (p : Previous) (m : Mapping) (rest : List Mapping) :
    encodeFrom first p (m :: rest) = (separator first p m).1 ++
      (written p (separator first p m).2 m ++ encodeFrom false (p.after m) rest) := by
  simp only [encodeFrom, written, List.append_assoc]
  rfl

theorem writtenNonempty (p : Previous) (column : Nat) (m : Mapping) : written p column m ≠ [] := by
  intro empty
  exact Digits.encodeNonempty _ (List.append_eq_nil_iff.mp empty).1

theorem writtenClean (p : Previous) (column : Nat) (m : Mapping) :
    ∀ c ∈ written p column m, c ≠ ',' ∧ c ≠ ';' := by
  intro c member
  unfold written at member
  simp only [List.mem_append] at member
  rcases member with member | member | member | member | member
  · exact Digits.encodeParts _ member
  · exact Digits.encodeParts _ member
  · exact Digits.encodeParts _ member
  · exact Digits.encodeParts _ member
  · cases named : m.name with
    | none => simp [named] at member
    | some n => simp only [named] at member; exact Digits.encodeParts _ member

theorem differenceRead {a b : Nat} (left : a < Word.size32) (right : b < Word.size32) (rest : Text) :
    Digits.decodeFrom none (Digits.encode (difference a b) ++ rest) =
      (Digits.decodeFrom none rest).map (difference a b :: ·) := by
  unfold Word.size32 at left right
  refine Digits.encodeRead _ ?_ rest
  unfold difference Word.size64
  omega

theorem accumulateDifference {a b : Nat} (small : a < Word.size32) (what : Text) :
    accumulate b (difference a b) what = .ok (a : Int) := by
  have sum : (b : Int) + difference a b = a := by unfold difference; omega
  have fits : Word.fitsSigned64 a = true := by
    unfold Word.size32 at small
    simp only [Word.fitsSigned64, Bool.and_eq_true, decide_eq_true_eq]
    omega
  rw [accumulate, sum, if_pos fits]

theorem indexExact {a : Nat} (small : a < Word.size32) (what : Text) : index a what = .ok a := by
  have fits : Word.fits32 a = true := Word.fits32Exact.mpr (by omega)
  rw [index, if_pos fits, Int.toNat_natCast]

theorem referenceExact {a count : Nat} (known : a < count) (small : a < Word.size32) (what : Text) :
    reference a count what = .ok a := by
  unfold reference
  rw [indexExact small]
  exact if_pos known

section Written
variable {limits : Limits} {p : Previous} {column : Nat} {m : Mapping}

theorem writtenFields (small : p.Small) (before : column < Word.size32) (fits : Fits limits m) :
    Digits.decode (written p column m) =
      .ok (difference m.generated.column column :: difference m.source p.source ::
        difference m.origin.line p.originLine :: difference m.origin.column p.originColumn ::
        (m.name.map fun n => difference n p.name).toList) := by
  unfold Digits.decode written
  rw [differenceRead fits.column before, differenceRead fits.source.2 small.source,
    differenceRead fits.originLine small.originLine,
    differenceRead fits.originColumn small.originColumn]
  cases named : m.name with
  | none => rfl
  | some n =>
    have last := differenceRead (fits.name n named).2 small.name []
    rw [List.append_nil] at last
    simp only [last]
    rfl

theorem writtenRead (small : p.Small) (before : column < Word.size32) (fits : Fits limits m) :
    segment limits m.generated.line column p.totals (written p column m) =
      .ok (some m, m.generated.column, (p.after m).totals) := by
  obtain ⟨⟨line, generatedColumn⟩, ⟨originLine, originColumn⟩, source, name⟩ := m
  unfold segment
  rw [writtenFields small before fits]
  have foundSource := referenceExact fits.source.1 fits.source.2 "source index"
  cases name with
  | none =>
    simp only [okBind, List.headD_cons, Option.map_none, Option.toList_none,
      accumulateDifference fits.column, List.length_nil, Nat.not_lt_zero, if_false, Previous.totals,
      accumulateDifference fits.source.2, accumulateDifference fits.originLine,
      accumulateDifference fits.originColumn, indexExact fits.column, indexExact fits.originLine,
      indexExact fits.originColumn, foundSource]
    rfl
  | some n =>
    obtain ⟨known, word⟩ := fits.name n rfl
    have foundName : Except.map some (reference n limits.names "name index") = .ok (some n) := by
      rw [referenceExact known word]
      rfl
    simp only [okBind, List.headD_cons, Option.map_some, Option.toList_some,
      accumulateDifference fits.column, List.length_singleton, Nat.lt_irrefl, if_false,
      Previous.totals, accumulateDifference fits.source.2, accumulateDifference fits.originLine,
      accumulateDifference fits.originColumn, accumulateDifference word, indexExact fits.column,
      indexExact fits.originLine, indexExact fits.originColumn, foundSource, foundName]
    rfl

end Written

theorem separatorRead {limits : Limits} {t : Totals} (first : Bool) {p : Previous} {m : Mapping}
    (onward : p.line ≤ m.generated.line) (text : Text) :
    readOn limits p.line p.column t ((separator first p m).1 ++ text) =
      readOn limits m.generated.line (separator first p m).2 t text := by
  unfold separator
  split
  · rename_i same
    rw [same]
    cases first with
    | true => rfl
    | false => exact readOnComma text
  · rename_i further
    simp only
    rw [readOnBreaks _ _ (by omega), Nat.add_sub_of_le onward]
    rfl

theorem separatorSmall {first : Bool} {p : Previous} (m : Mapping) (small : p.Small) :
    (separator first p m).2 < Word.size32 := by
  unfold separator
  split
  · exact small.column
  · exact (by decide : 0 < Word.size32)

theorem encodeFromEnds {p : Previous} {ms : List Mapping}
    (onward : ∀ m ∈ ms, p.line ≤ m.generated.line) : Ends (encodeFrom false p ms) := by
  cases ms with
  | nil => intro c front; contradiction
  | cons m rest =>
    have := onward m List.mem_cons_self
    intro c front
    rw [encodeFromCons] at front
    unfold separator at front
    split at front
    · exact .inl (Option.some.inj front).symm
    · obtain ⟨k, gap⟩ : ∃ k, m.generated.line - p.line = k + 1 :=
        ⟨m.generated.line - p.line - 1, by omega⟩
      simp only [gap, List.replicate_succ, List.cons_append] at front
      exact .inr (Option.some.inj front).symm

/- What the writer still has to write is read as the mappings it stands for, by a reader that has
come as far as the writer. -/
theorem encodeFromRead {limits : Limits} {first : Bool} {p : Previous} {ms : List Mapping}
    (ascending : ms.Pairwise fun a b => a.generated.line ≤ b.generated.line)
    (fits : ∀ m ∈ ms, Fits limits m) (small : p.Small)
    (onward : ∀ m ∈ ms, p.line ≤ m.generated.line) :
    readOn limits p.line p.column p.totals (encodeFrom first p ms) = .ok ms := by
  induction ms generalizing first p with
  | nil => rfl
  | cons m rest ih =>
    obtain ⟨least, ascending⟩ := List.pairwise_cons.mp ascending
    have fitsHere := fits m List.mem_cons_self
    have read := writtenRead small (@separatorSmall first p m small) fitsHere
    rw [← Nat.mod_eq_of_lt fitsHere.line] at read
    have later : ∀ n ∈ rest, (p.after m).line ≤ n.generated.line := least
    have onwards := @ih false _ ascending (fun n member => fits n (List.mem_cons_of_mem m member))
      (Previous.smallAfter small fitsHere) later
    rw [encodeFromCons, separatorRead first (onward m List.mem_cons_self),
      readOnSegment (writtenNonempty _ _ _) (writtenClean _ _ _) (encodeFromEnds later) read]
    exact congrArg (Except.map _) onwards

theorem encodeRead {limits : Limits} {ms : List Mapping}
    (ascending : ms.Pairwise fun a b => a.generated.line ≤ b.generated.line)
    (fits : ∀ m ∈ ms, Fits limits m) : decode limits (encode ms) = .ok ms := by
  rw [decodeOn]
  exact encodeFromRead ascending fits Previous.smallStart fun m _ => Nat.zero_le _

end ComponentFile.Segments
