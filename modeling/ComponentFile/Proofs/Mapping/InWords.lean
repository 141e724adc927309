import ComponentFile.Proofs.Mapping.RoundTrip
import ComponentFile.Proofs.Mapping.Numbers

/-! Reading maps in words of a machine. There a step may ask for what its word cannot hold, or for
an item that a list does not have, and then nothing comes of the reading. No document leads to such
a step: the reader in words always has an outcome, the same as the reader without bounds. -/
namespace ComponentFile

/- A computation in words. A refusal of what is read is an outcome, a step that fails is none. -/
abbrev InWords := ExceptT MapError Option

namespace InWords

def outcome {α : Type} (r : Except MapError α) : InWords α := .mk (some r)

def held {α : Type} (fits : Bool) (v : α) : InWords α := .mk (if fits then some (.ok v) else none)

def item {α : Type} (xs : List α) (i : Nat) : InWords α := .mk (xs[i]?.map .ok)

def shiftLeft (bits place : Nat) : InWords Nat := held (place < 64) (bits <<< place % Word.size64)

def negate (i : Int) : InWords Int := held (Word.fitsSigned64 (-i)) (-i)

def advance (total delta : Int) (what : Text) : InWords Int := do
  let total ← held (Word.fitsSigned64 total) total
  let delta ← held (Word.fitsSigned64 delta) delta
  outcome (Segments.accumulate total delta what)

section Steps
variable {α β : Type}

theorem outcomeBind {x : InWords α} {r : Except MapError α} {f : α → InWords β}
    {g : α → Except MapError β} (here : x = outcome r)
    (onward : ∀ a, r = .ok a → f a = outcome (g a)) : (x >>= f) = outcome (r >>= g) := by
  subst here
  cases r with
  | error e => rfl
  | ok a => exact onward a rfl

theorem heldBind {fits : Bool} (inside : fits = true) (v : α) (f : α → InWords β) :
    (held fits v >>= f) = f v := by
  rw [inside]
  rfl

theorem itemBind {xs : List α} {i : Nat} {a : α} (found : xs[i]? = some a) (f : α → InWords β) :
    (item xs i >>= f) = f a := by
  rw [item, found]
  rfl

theorem advanceOutcome {total delta : Int} (what : Text) (left : Word.fitsSigned64 total = true)
    (right : Word.fitsSigned64 delta = true) :
    advance total delta what = outcome (Segments.accumulate total delta what) := by
  rw [advance, heldBind left, heldBind right]

end Steps
end InWords
open InWords

namespace Digits

def signedInWords (w : Nat) : InWords Int := do
  let magnitude ← held (Word.fitsSigned64 (w / 2 : Nat)) ((w / 2 : Nat) : Int)
  if w % 2 = 1 then negate magnitude else pure magnitude

def decodeInWords (bits place : Nat) (begun : Bool) : Text → InWords (List Int)
  | [] => if begun then throw .unterminatedVlq else pure []
  | c :: rest =>
      match Base64.value? c with
      | none => throw (.invalidBase64 c)
      | some digit =>
          if 64 ≤ place then throw .vlqOverflow
          else do
            let here ← shiftLeft (digit % 32) place
            let bits := bits ||| here
            if 32 ≤ digit then
              let further ← held (place + 5 < Word.size32) (place + 5)
              decodeInWords bits further true rest
            else
              let value ← signedInWords bits
              let more ← decodeInWords 0 0 false rest
              pure (value :: more)

theorem orShifted {low s : Nat} (x : Nat) (below : low < 2 ^ s) (place : s ≤ 64) :
    low ||| x <<< s % Word.size64 = low + x <<< s % Word.size64 := by
  rw [shiftedWord x place, Nat.or_comm, ← Nat.two_pow_add_eq_or_of_lt below, Nat.add_comm]

theorem signedOutcome {w : Nat} (below : w < Word.size64) :
    signedInWords w = outcome (.ok (signed w)) := by
  unfold Word.size64 at below
  have magnitude : Word.fitsSigned64 (w / 2 : Nat) = true := by
    simp only [Word.fitsSigned64, Bool.and_eq_true, decide_eq_true_eq]
    omega
  have negative : Word.fitsSigned64 (-(w / 2 : Nat)) = true := by
    simp only [Word.fitsSigned64, Bool.and_eq_true, decide_eq_true_eq]
    omega
  unfold signedInWords signed
  rw [heldBind magnitude]
  split
  · rw [negate, negative]
    rfl
  · rfl

theorem decodeFromInWords {pending : Option Pending} (sound : (pending.getD ⟨0, 0⟩).Sound)
    (segment : Text) :
    decodeInWords (pending.getD ⟨0, 0⟩).bits (pending.getD ⟨0, 0⟩).shift pending.isSome segment =
      outcome (decodeFrom pending segment) := by
  induction segment generalizing pending with
  | nil =>
    rw [decodeInWords, decodeFrom]
    cases pending <;> rfl
  | cons c rest ih =>
    rw [decodeInWords, decodeFrom]
    cases Base64.value? c with
    | none => rfl
    | some digit =>
      simp only
      by_cases full : 64 ≤ (pending.getD ⟨0, 0⟩).shift
      · rw [if_pos full, if_pos full]
        rfl
      · have place : (pending.getD ⟨0, 0⟩).shift < 64 := Nat.not_le.mp full
        have bits := soundBits sound digit place
        rw [if_neg full, if_neg full, shiftLeft, heldBind (decide_eq_true place),
          orShifted _ sound.1 (Nat.le_of_lt place)]
        by_cases more : 32 ≤ digit
        · have further : (pending.getD ⟨0, 0⟩).shift + 5 < Word.size32 :=
            Nat.lt_trans (Nat.add_lt_add_right place 5) (by decide)
          rw [if_pos more, if_pos more, heldBind (decide_eq_true further)]
          exact @ih (some ⟨_, _⟩) (soundMore sound digit)
        · have onward : decodeInWords 0 0 false rest = outcome (decodeFrom none rest) :=
            ih soundStart
          rw [if_neg more, if_neg more, signedOutcome bits, onward]
          cases decodeFrom none rest <;> rfl

theorem decodedInWords (segment : Text) :
    decodeInWords 0 0 false segment = outcome (decode segment) :=
  decodeFromInWords soundStart segment

theorem decodeFromNonempty {pending : Option Pending} {segment : Text} {values : List Int}
    (some : segment ≠ [] ∨ pending.isSome = true) (read : decodeFrom pending segment = .ok values) :
    values ≠ [] := by
  induction segment generalizing pending with
  | nil =>
    have begun := some.resolve_left fun nonempty => nonempty rfl
    rw [decodeFrom, if_pos begun] at read
    contradiction
  | cons c rest ih =>
    simp only [decodeFrom] at read
    split at read
    · contradiction
    · split at read
      · contradiction
      · split at read
        · exact ih (.inr rfl) read
        · cases later : decodeFrom none rest with
          | error e => rw [later] at read; contradiction
          | ok others =>
            rw [later] at read
            cases read
            exact List.cons_ne_nil _ _

theorem decodeNonempty {segment : Text} (nonempty : segment ≠ []) {values : List Int}
    (read : decode segment = .ok values) : values ≠ [] :=
  decodeFromNonempty (.inl nonempty) read

end Digits

namespace Segments

def namesInWords (total : Int) (fields : List Int) : InWords Int :=
  if fields.length = 5 then do advance total (← item fields 4) "name index" else pure total

def segmentInWords (limits : Limits) (line : Nat) (column : Int) (t : Totals) (text : Text) :
    InWords (Option Mapping × Int × Totals) := do
  let fields ← Digits.decodeInWords 0 0 false text
  let column ← advance column (← item fields 0) "generated column"
  if fields.length = 1 then pure (none, column, t)
  else if fields.length = 4 ∨ fields.length = 5 then
    let source ← advance t.source (← item fields 1) "source index"
    let originLine ← advance t.line (← item fields 2) "original line"
    let originColumn ← advance t.column (← item fields 3) "original column"
    let name ← namesInWords t.name fields
    outcome do
      let generatedColumn ← index column "generated column"
      let foundLine ← index originLine "original line"
      let foundColumn ← index originColumn "original column"
      let foundSource ← reference source limits.sources "source index"
      let foundName ← if fields.length = 5 then
          (reference name limits.names "name index").map some
        else .ok none
      .ok (some ⟨⟨line, generatedColumn⟩, ⟨foundLine, foundColumn⟩, foundSource, foundName⟩,
        column, ⟨source, originLine, originColumn, name⟩)
  else throw (.invalidSegment fields.length)

def lineInWords (limits : Limits) (line : Nat) :
    Int → Totals → List Text → InWords (List Mapping × Totals)
  | _, t, [] => pure ([], t)
  | column, t, [] :: rest => lineInWords limits line column t rest
  | column, t, text :: rest => do
      let (found, column, t) ← segmentInWords limits line column t text
      let (more, t) ← lineInWords limits line column t rest
      pure (found.toList ++ more, t)

def linesInWords (limits : Limits) : Nat → Totals → List Text → InWords (List Mapping)
  | _, _, [] => pure []
  | line, t, text :: rest => do
      let (found, t) ← lineInWords limits (line % Word.size32) 0 t (Text.splitAt ',' text)
      let more ← linesInWords limits (line + 1) t rest
      pure (found ++ more)

structure Totals.Fit (t : Totals) : Prop where
  source : Word.fitsSigned64 t.source = true
  line : Word.fitsSigned64 t.line = true
  column : Word.fitsSigned64 t.column = true
  name : Word.fitsSigned64 t.name = true

theorem accumulateFits {total delta sum : Int} {what : Text}
    (h : accumulate total delta what = .ok sum) : Word.fitsSigned64 sum = true := by
  unfold accumulate at h
  split at h
  · rename_i fits
    cases h
    exact fits
  · contradiction

section Read
variable {limits : Limits} {line : Nat} {column : Int} {t : Totals}

theorem segmentExact {text : Text} (nonempty : text ≠ [])
    (inside : Word.fitsSigned64 column = true) (sums : t.Fit) :
    segmentInWords limits line column t text = outcome (segment limits line column t text) := by
  refine outcomeBind (Digits.decodedInWords text) fun fields read => ?_
  have fits : ∀ i ∈ fields, Word.fitsSigned64 i = true := fun i member =>
    (Digits.magnitudeExact.mp (Digits.decodeFits read i member)).1
  obtain ⟨first, rest, rfl⟩ := List.exists_cons_of_ne_nil (Digits.decodeNonempty nonempty read)
  rw [itemBind rfl]
  refine outcomeBind (advanceOutcome _ inside (fits _ (by simp))) fun moved _ => ?_
  rcases rest with _ | ⟨a, _ | ⟨b, _ | ⟨c, more⟩⟩⟩
  · rfl
  · rfl
  · rfl
  · rcases more with _ | ⟨d, _ | ⟨e, more⟩⟩
    rotate_left 2
    · have long : 1 < (d :: e :: more).length := by simp
      rw [if_neg (by simp), if_neg (by simp)]
      exact (congrArg outcome (if_pos long)).symm
    -- with and without a name the steps are the same
    all_goals
      rw [if_neg (by simp), if_pos (by simp), itemBind rfl]
      refine outcomeBind (advanceOutcome _ sums.source (fits _ (by simp))) fun source _ => ?_
      rw [itemBind rfl]
      refine outcomeBind (advanceOutcome _ sums.line (fits _ (by simp))) fun originLine _ => ?_
      rw [itemBind rfl]
      refine outcomeBind (advanceOutcome _ sums.column (fits _ (by simp))) fun originColumn _ => ?_
      rw [namesInWords]
    · exact outcomeBind rfl fun name _ => rfl
    · rw [if_pos (by simp), itemBind rfl]
      exact outcomeBind (advanceOutcome _ sums.name (fits _ (by simp))) fun name _ => rfl

theorem segmentSums {text : Text} {found : Option Mapping} {column' : Int} {t' : Totals}
    (sums : t.Fit) (read : segment limits line column t text = .ok (found, column', t')) :
    Word.fitsSigned64 column' = true ∧ t'.Fit := by
  obtain ⟨⟨_, moved⟩, ⟨-, rfl⟩ | ⟨m, -, summed⟩⟩ := segmentSummed read
  · exact ⟨accumulateFits moved, sums⟩
  · obtain ⟨-, ⟨_, source⟩, ⟨_, line⟩, ⟨_, column⟩, name, -⟩ := summed
    refine ⟨accumulateFits moved, accumulateFits source, accumulateFits line,
      accumulateFits column, ?_⟩
    rcases name with same | ⟨_, name⟩
    · rw [same]
      exact sums.name
    · exact accumulateFits name

theorem lineExact (pieces : List Text) (inside : Word.fitsSigned64 column = true) (sums : t.Fit) :
    lineInWords limits line column t pieces = outcome (decodeLine limits line column t pieces) := by
  induction pieces generalizing column t with
  | nil => rfl
  | cons text rest ih =>
    cases text with
    | nil =>
      rw [lineInWords, decodeLineEmpty]
      exact ih inside sums
    | cons c more =>
      refine outcomeBind (segmentExact (List.cons_ne_nil c more) inside sums) ?_
      rintro ⟨found, column', t'⟩ read
      obtain ⟨inside', sums'⟩ := segmentSums sums read
      exact outcomeBind (ih inside' sums') fun _ _ => rfl

theorem lineSums {pieces : List Text} {found : List Mapping} {t' : Totals} (sums : t.Fit)
    (read : decodeLine limits line column t pieces = .ok (found, t')) : t'.Fit := by
  induction pieces generalizing column t found with
  | nil =>
    cases read
    exact sums
  | cons text rest ih =>
    cases text with
    | nil =>
      rw [decodeLineEmpty] at read
      exact ih sums read
    | cons c more =>
      simp only [decodeLine] at read
      obtain ⟨⟨first, moved, after⟩, here, read⟩ := bindOk read
      obtain ⟨⟨later, last⟩, onward, read⟩ := bindOk read
      cases read
      exact ih (segmentSums sums here).2 onward

theorem linesExact (lines : List Text) (sums : t.Fit) :
    linesInWords limits line t lines = outcome (decodeLines limits line t lines) := by
  induction lines generalizing line t with
  | nil => rfl
  | cons text rest ih =>
    refine outcomeBind (lineExact _ (by decide) sums) ?_
    rintro ⟨found, t'⟩ read
    exact outcomeBind (ih (lineSums sums read)) fun _ _ => rfl

end Read

end Segments

namespace SourceMap
open Json (Node)

def ofJsonInWords (text : Text) : InWords SourceMap :=
  match (Node.ofText? text).bind Document.ofNode? with
  | none => throw .json
  | some r => do
      if r.version ≠ version then throw (.unsupportedVersion r.version)
      let mappings ← Segments.linesInWords ⟨r.sources.length, r.names.length⟩ 0 .zero
        (Text.splitAt ';' r.mappings)
      pure ⟨r.file, r.sources, r.names, sortMappings mappings⟩

theorem ofJsonExact (text : Text) : ofJsonInWords text = outcome (ofJson text) := by
  unfold ofJsonInWords ofJson
  cases (Node.ofText? text).bind Document.ofNode? with
  | none => rfl
  | some r =>
    simp only [ofDocument]
    by_cases known : r.version = version
    · rw [if_neg (not_not.mpr known), if_neg (not_not.mpr known)]
      exact outcomeBind (Segments.linesExact _ ⟨by decide, by decide, by decide, by decide⟩)
        fun _ _ => rfl
    · rw [if_pos known, if_pos known]
      rfl

def indexed? (m : SourceMap) (mapping : Mapping) : Option Entry := do
  let source ← m.sources[mapping.source]?
  let name ← match mapping.name with
    | some n => (m.names[n]?).map some
    | none => some none
  some ⟨source, mapping.origin, mapping.generated, name⟩

def entries? (m : SourceMap) : Option (List Entry) := m.mappings.mapM m.indexed?

def Resolves (m : SourceMap) (mapping : Mapping) : Prop :=
  mapping.source < m.sources.length ∧ ∀ n, mapping.name = some n → n < m.names.length

theorem indexedResolves {m : SourceMap} {mapping : Mapping} (resolves : m.Resolves mapping) :
    ∃ e, m.indexed? mapping = some e ∧ m.entry? mapping = some e := by
  obtain ⟨known, named⟩ := resolves
  rcases mapping with ⟨generated, origin, source, _ | n⟩
  · refine ⟨⟨m.sources[source], origin, generated, none⟩, ?_, ?_⟩
    · simp only [indexed?, List.getElem?_eq_getElem known, bind, Option.bind]
    · simp only [List.getElem?_eq_getElem known, entry?, Option.map_some, Option.bind_none]
  · have inside : n < m.names.length := named n rfl
    have item : m.names[n]? = some m.names[n] := List.getElem?_eq_getElem inside
    refine ⟨⟨m.sources[source], origin, generated, some m.names[n]⟩, ?_, ?_⟩
    · simp only [indexed?, List.getElem?_eq_getElem known, item, Option.map_some, bind, Option.bind]
    · simp only [List.getElem?_eq_getElem known, item, entry?, Option.map_some, Option.bind_some]

theorem entriesResolve {m : SourceMap} {mappings : List Mapping}
    (resolve : ∀ mapping ∈ mappings, m.Resolves mapping) :
    ∃ es, mappings.mapM m.indexed? = some es ∧ mappings.map m.entry? = es.map some := by
  induction mappings with
  | nil => exact ⟨[], rfl, rfl⟩
  | cons mapping rest ih =>
    obtain ⟨e, strict, lenient⟩ := indexedResolves (resolve mapping List.mem_cons_self)
    obtain ⟨es, first, second⟩ := ih fun other member => resolve other (List.mem_cons_of_mem _ member)
    refine ⟨e :: es, ?_, ?_⟩
    · simp only [List.mapM_cons, strict, first, bind, Option.bind, pure]
    · rw [List.map_cons, List.map_cons, lenient, second]

/- Whatever the text, a reader in words comes to an outcome. A map that it gives is in ascending
order and refers to its own tables only, so that every one of its mappings has an entry. -/
theorem parsedMapsFormed (text : Text) :
    (ofJsonInWords text).run = some (ofJson text) ∧
      ∀ m, ofJson text = .ok m →
        (m.mappings.Pairwise fun a b => a.generated.atMost b.generated = true) ∧
        (∀ mapping ∈ m.mappings, m.Resolves mapping) ∧
        ∃ es, m.entries? = some es ∧ es.length = m.mappings.length ∧
          m.mappings.map m.entry? = es.map some := by
  refine ⟨congrArg ExceptT.run (ofJsonExact text), fun m read => ?_⟩
  have formed := ofJsonFormed read
  have resolve : ∀ mapping ∈ m.mappings, m.Resolves mapping := fun mapping member =>
    ⟨(formed.fits mapping member).source.1, fun n named =>
      ((formed.fits mapping member).name n named).1⟩
  obtain ⟨es, strict, lenient⟩ := entriesResolve resolve
  have size : es.length = m.mappings.length := by
    have same := congrArg List.length lenient
    rwa [List.length_map, List.length_map, eq_comm] at same
  exact ⟨formed.ascending, resolve, es, strict, size, lenient⟩

end SourceMap
end ComponentFile
