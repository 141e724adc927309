import ComponentFile.Proofs.Json.Numerals
import ComponentFile.Proofs.Json.Strings

/-! Compact text of a value is read back as the value, in front of anything that does not go on with
a number. One step of the reader takes one unit of fuel and at least one character, so the length of
the text is fuel enough. -/
namespace ComponentFile.Json

mutual

def Value.toNode : Value → Node
  | .null => .null
  | .bool b => .bool b
  | .int i => .number (Numeral.ofInt i)
  | .real n => .number n
  | .string s => .string (some s)
  | .array vs => .array (itemNodes vs)
  | .object ms => .object (memberNodes ms)

def itemNodes : List Value → List Node
  | [] => []
  | v :: vs => v.toNode :: itemNodes vs

def memberNodes : List (Text × Value) → List (Option Text × Node)
  | [] => []
  | (k, v) :: ms => (some k, v.toNode) :: memberNodes ms

end

mutual

def Value.Readable : Value → Prop
  | .real n => n.Written
  | .array vs => ItemsReadable vs
  | .object ms => MembersReadable ms
  | _ => True

def ItemsReadable : List Value → Prop
  | [] => True
  | v :: vs => v.Readable ∧ ItemsReadable vs

def MembersReadable : List (Text × Value) → Prop
  | [] => True
  | (_, v) :: ms => v.Readable ∧ MembersReadable ms

end

namespace Reader
open Printer (compact compactItems compactMembers)

theorem printNumeral (n : Numeral) : Printer.numeral n = (if n.negative then ['-'] else []) ++
    (n.whole ++ (fractionText n.fraction ++ exponentText n.exponent)) := by
  have shape : Printer.numeral n = (if n.negative then ['-'] else []) ++ n.whole ++
      fractionText n.fraction ++ exponentText n.exponent := rfl
  rw [shape, List.append_assoc, List.append_assoc]

theorem skipNothing {s : Utf8.Symbol} (rest : Input) (ink : isSpace s = false) :
    skipSpace (s :: rest) = s :: rest := by
  rw [skipSpace, List.dropWhile_cons_of_neg (by simp [ink])]

def Opens (c : Char) : Prop := isSpace (some c) = false ∧ c ≠ ']' ∧ c ≠ '\x7d'

theorem digitOpens {c : Char} (digit : c.isDigit = true) : Opens c := by
  refine ⟨?_, ?_, ?_⟩
  · unfold isSpace
    simp only [Bool.or_eq_false_iff, beq_eq_false_iff_ne, ne_eq, Option.some.injEq]
    refine ⟨⟨⟨?_, ?_⟩, ?_⟩, ?_⟩
    all_goals
      rintro rfl
      contradiction
  · rintro rfl; contradiction
  · rintro rfl; contradiction

theorem numeralOpens {n : Numeral} (written : n.Written) :
    ∃ c t, Printer.numeral n = c :: t ∧ Opens c := by
  rw [printNumeral]
  cases n.negative with
  | true => exact ⟨'-', _, rfl, by simp [Opens, isSpace]⟩
  | false =>
    obtain ⟨d, more, same⟩ := List.exists_cons_of_ne_nil written.whole.1
    rw [same]
    exact ⟨d, _, rfl, digitOpens (written.whole.2 d (by simp [same]))⟩

theorem compactOpens {v : Value} (readable : v.Readable) : ∃ c t, compact v = c :: t ∧ Opens c := by
  rcases v with _ | b | i | n | s | vs | ms
  · exact ⟨'n', _, rfl, by simp [Opens, isSpace]⟩
  · cases b with
    | true => exact ⟨'t', _, rfl, by simp [Opens, isSpace]⟩
    | false => exact ⟨'f', _, rfl, by simp [Opens, isSpace]⟩
  · rw [compact, printOfInt]
    exact numeralOpens (writtenOfInt i)
  · exact numeralOpens readable
  · exact ⟨'"', _, rfl, by simp [Opens, isSpace]⟩
  · rcases vs with _ | ⟨v, vs⟩
    · exact ⟨'[', _, rfl, by simp [Opens, isSpace]⟩
    · exact ⟨'[', _, rfl, by simp [Opens, isSpace]⟩
  · rcases ms with _ | ⟨⟨k, v⟩, ms⟩
    · exact ⟨'\x7b', _, rfl, by simp [Opens, isSpace]⟩
    · exact ⟨'\x7b', _, rfl, by simp [Opens, isSpace]⟩

theorem nodeMinus (fuel : Nat) (rest : Input) : node (fuel + 1) (some '-' :: rest) =
    (numeral true rest).map fun (n, rest) => (.number n, rest) := by
  rw [node, skipNothing _ rfl]
  rfl

theorem nodeDigit {d : Char} (fuel : Nat) (rest : Input) (digit : d.isDigit = true) :
    node (fuel + 1) (some d :: rest) =
      (numeral false (some d :: rest)).map fun (n, rest) => (.number n, rest) := by
  have other {c : Char} {left right : Input} (same : some d :: left = some c :: right)
      (letter : c.isDigit = false) : False := by
    simp only [List.cons.injEq, Option.some.injEq] at same
    rw [same.1, letter] at digit
    contradiction
  rw [node, skipNothing _ (digitOpens digit).1]
  split
  case h_8 => rfl
  all_goals
    rename_i same
    exact (other same rfl).elim

theorem nodeNumeral {n : Numeral} {rest : Input} (fuel : Nat) (written : n.Written)
    (stops : Stops rest) :
    node (fuel + 1) ((Printer.numeral n).map some ++ rest) = some (.number n, rest) := by
  have read := numeralRead written stops
  rw [printNumeral]
  cases sign : n.negative with
  | true =>
    rw [sign] at read
    rw [if_pos rfl, List.singleton_append, List.map_cons, List.cons_append, nodeMinus, read]
    rfl
  | false =>
    rw [sign] at read
    obtain ⟨d, more, same⟩ := List.exists_cons_of_ne_nil written.whole.1
    have digit := written.whole.2 d (by simp [same])
    rw [if_neg (by simp), List.nil_append]
    rw [same, List.cons_append, List.map_cons, List.cons_append] at read ⊢
    rw [nodeDigit fuel _ digit, read]
    rfl

theorem nodeString (fuel : Nat) (t : Text) (rest : Input) :
    node (fuel + 1) ((Printer.string t).map some ++ rest) = some (.string (some t), rest) := by
  unfold Printer.string
  rw [List.cons_append, List.map_cons, List.cons_append, node, skipNothing _ rfl]
  simp only [stringRead, Option.map_some]

theorem nodeArray {v : Value} (fuel : Nat) (readable : v.Readable) (more : Text) (rest : Input) :
    node (fuel + 1) (some '[' :: ((compact v ++ more).map some ++ rest)) =
      (items fuel ((compact v ++ more).map some ++ rest)).map fun (ns, rest) => (.array ns, rest) := by
  obtain ⟨c, t, front, space, bracket, _⟩ := compactOpens readable
  rw [front, List.cons_append, List.map_cons, List.cons_append, node, skipNothing _ rfl]
  simp only
  rw [skipNothing _ space]
  split
  · rename_i same
    simp only [List.cons.injEq, Option.some.injEq] at same
    exact absurd same.1 bracket
  · rfl

theorem nodeObject (fuel : Nat) (k more : Text) (rest : Input) :
    node (fuel + 1) (some '\x7b' :: ((Printer.string k ++ more).map some ++ rest)) =
      (members fuel ((Printer.string k ++ more).map some ++ rest)).map
        fun (ms, rest) => (.object ms, rest) := by
  unfold Printer.string
  rw [List.cons_append, List.cons_append, List.map_cons, List.cons_append, node, skipNothing _ rfl]
  simp only
  rw [skipNothing _ rfl]
  rfl

structure ReadsBack (fuel : Nat) : Prop where
  value : ∀ (v : Value) (rest : Input), v.Readable → (compact v).length ≤ fuel → Stops rest →
    node fuel ((compact v).map some ++ rest) = some (v.toNode, rest)
  sequence : ∀ (v : Value) (vs : List Value) (rest : Input), v.Readable → ItemsReadable vs →
    (compact v ++ (compactItems vs ++ [']'])).length ≤ fuel →
    items fuel ((compact v ++ (compactItems vs ++ [']'])).map some ++ rest) =
      some (v.toNode :: itemNodes vs, rest)
  fields : ∀ (k : Text) (v : Value) (ms : List (Text × Value)) (rest : Input), v.Readable →
    MembersReadable ms →
    (Printer.string k ++ ':' :: (compact v ++ (compactMembers ms ++ ['\x7d']))).length ≤ fuel →
    members fuel ((Printer.string k ++ ':' :: (compact v ++ (compactMembers ms ++ ['\x7d']))).map
      some ++ rest) = some ((some k, v.toNode) :: memberNodes ms, rest)

theorem compactPositive {v : Value} (readable : v.Readable) : 0 < (compact v).length := by
  obtain ⟨c, t, front, _⟩ := compactOpens readable
  rw [front]
  simp

theorem compactArray (v : Value) (vs : List Value) : compact (.array (v :: vs)) =
    '[' :: (compact v ++ (compactItems vs ++ [']'])) := by simp [compact]

theorem compactObject (k : Text) (v : Value) (ms : List (Text × Value)) :
    compact (.object ((k, v) :: ms)) =
      '\x7b' :: (Printer.string k ++ ':' :: (compact v ++ (compactMembers ms ++ ['\x7d']))) := by
  simp [compact]

theorem valueStep {fuel : Nat} (ih : ReadsBack fuel) {v : Value} {rest : Input}
    (readable : v.Readable) (enough : (compact v).length ≤ fuel + 1) (stops : Stops rest) :
    node (fuel + 1) ((compact v).map some ++ rest) = some (v.toNode, rest) := by
  rcases v with _ | b | i | n | t | vs | ms
  · show node (fuel + 1) (some 'n' :: some 'u' :: some 'l' :: some 'l' :: rest) = _
    rw [node, skipNothing _ rfl]
    rfl
  · cases b with
    | true =>
      show node (fuel + 1) (some 't' :: some 'r' :: some 'u' :: some 'e' :: rest) = _
      rw [node, skipNothing _ rfl]
      rfl
    | false =>
      show node (fuel + 1) (some 'f' :: some 'a' :: some 'l' :: some 's' :: some 'e' :: rest) = _
      rw [node, skipNothing _ rfl]
      rfl
  · rw [compact, printOfInt]
    exact nodeNumeral fuel (writtenOfInt i) stops
  · exact nodeNumeral fuel readable stops
  · exact nodeString fuel t rest
  · rcases vs with _ | ⟨v, vs⟩
    · show node (fuel + 1) (some '[' :: some ']' :: rest) = _
      rw [node, skipNothing _ rfl]
      rfl
    · obtain ⟨first, others⟩ := readable
      rw [compactArray] at enough ⊢
      have read := ih.sequence v vs rest first others (Nat.le_of_succ_le_succ enough)
      rw [List.map_cons, List.cons_append, nodeArray fuel first, read]
      rfl
  · rcases ms with _ | ⟨⟨k, v⟩, ms⟩
    · show node (fuel + 1) (some '\x7b' :: some '\x7d' :: rest) = _
      rw [node, skipNothing _ rfl]
      rfl
    · obtain ⟨first, others⟩ := readable
      rw [compactObject] at enough ⊢
      have read := ih.fields k v ms rest first others (Nat.le_of_succ_le_succ enough)
      rw [List.map_cons, List.cons_append, nodeObject, read]
      rfl

theorem stopsBefore {c : Char} (rest : Input)
    (other : c.isDigit = false ∧ c ≠ '.' ∧ c ≠ 'e' ∧ c ≠ 'E') : Stops (some c :: rest) := by
  intro d front
  cases front
  exact other

theorem itemsLast {fuel : Nat} {n : Node} {i rest : Input}
    (read : node fuel i = some (n, some ']' :: rest)) : items (fuel + 1) i = some ([n], rest) := by
  rw [items, read]
  simp only [bind, Option.bind]
  rw [skipNothing _ rfl]
  rfl

theorem itemsMore {fuel : Nat} {n : Node} {ns : List Node} {i more rest : Input}
    (read : node fuel i = some (n, some ',' :: more)) (onward : items fuel more = some (ns, rest)) :
    items (fuel + 1) i = some (n :: ns, rest) := by
  rw [items, read]
  simp only [bind, Option.bind]
  rw [skipNothing _ rfl]
  simp only [onward]

theorem itemsStep {fuel : Nat} (ih : ReadsBack fuel) {v : Value} {vs : List Value} {rest : Input}
    (readable : v.Readable) (others : ItemsReadable vs)
    (enough : (compact v ++ (compactItems vs ++ [']'])).length ≤ fuel + 1) :
    items (fuel + 1) ((compact v ++ (compactItems vs ++ [']'])).map some ++ rest) =
      some (v.toNode :: itemNodes vs, rest) := by
  have positive := compactPositive readable
  simp only [List.length_append, List.length_singleton] at enough
  have first (c : Char) (tail : Input) (other : c.isDigit = false ∧ c ≠ '.' ∧ c ≠ 'e' ∧ c ≠ 'E') :=
    ih.value v (some c :: tail) readable (by omega) (stopsBefore tail other)
  rw [List.map_append, List.append_assoc]
  rcases vs with _ | ⟨w, ws⟩
  · exact itemsLast (first ']' rest (by decide))
  · obtain ⟨next, others⟩ := others
    have shape : compactItems (w :: ws) ++ [']'] =
        ',' :: (compact w ++ (compactItems ws ++ [']'])) := by simp [compactItems]
    have size := congrArg List.length shape
    simp only [List.length_append, List.length_cons, List.length_nil] at size
    have room : (compact w ++ (compactItems ws ++ [']'])).length ≤ fuel := by
      simp only [List.length_append, List.length_cons, List.length_nil]
      omega
    have onward := ih.sequence w ws rest next others room
    rw [shape]
    exact itemsMore (first ',' _ (by decide)) onward

theorem membersLast {fuel : Nat} {k : Text} {n : Node} {i rest : Input}
    (read : node fuel i = some (n, some '\x7d' :: rest)) :
    members (fuel + 1) ((Printer.string k).map some ++ some ':' :: i) = some ([(some k, n)], rest) := by
  unfold Printer.string
  rw [List.cons_append, List.map_cons, List.cons_append, members, skipNothing _ rfl]
  simp only [stringRead, bind, Option.bind]
  rw [skipNothing _ rfl]
  simp only [read]
  rw [skipNothing _ rfl]
  rfl

theorem membersMore {fuel : Nat} {k : Text} {n : Node} {ms : List (Option Text × Node)}
    {i more rest : Input} (read : node fuel i = some (n, some ',' :: more))
    (onward : members fuel more = some (ms, rest)) :
    members (fuel + 1) ((Printer.string k).map some ++ some ':' :: i) =
      some ((some k, n) :: ms, rest) := by
  unfold Printer.string
  rw [List.cons_append, List.map_cons, List.cons_append, members, skipNothing _ rfl]
  simp only [stringRead, bind, Option.bind]
  rw [skipNothing _ rfl]
  simp only [read]
  rw [skipNothing _ rfl]
  simp only [onward]

theorem membersStep {fuel : Nat} (ih : ReadsBack fuel) {k : Text} {v : Value}
    {ms : List (Text × Value)} {rest : Input} (readable : v.Readable) (others : MembersReadable ms)
    (enough : (Printer.string k ++ ':' :: (compact v ++ (compactMembers ms ++ ['\x7d']))).length ≤
      fuel + 1) :
    members (fuel + 1) ((Printer.string k ++ ':' :: (compact v ++ (compactMembers ms ++
      ['\x7d']))).map some ++ rest) = some ((some k, v.toNode) :: memberNodes ms, rest) := by
  simp only [List.length_append, List.length_cons, List.length_nil] at enough
  have first (c : Char) (tail : Input) (other : c.isDigit = false ∧ c ≠ '.' ∧ c ≠ 'e' ∧ c ≠ 'E') :=
    ih.value v (some c :: tail) readable (by omega) (stopsBefore tail other)
  rw [List.map_append, List.append_assoc, List.map_cons, List.cons_append, List.map_append,
    List.append_assoc]
  rcases ms with _ | ⟨⟨l, w⟩, ms⟩
  · exact membersLast (first '\x7d' rest (by decide))
  · obtain ⟨next, others⟩ := others
    have shape : compactMembers ((l, w) :: ms) ++ ['\x7d'] =
        ',' :: (Printer.string l ++ ':' :: (compact w ++ (compactMembers ms ++ ['\x7d']))) := by
      simp [compactMembers]
    have size := congrArg List.length shape
    simp only [List.length_append, List.length_cons, List.length_nil] at size
    have room : (Printer.string l ++ ':' :: (compact w ++ (compactMembers ms ++ ['\x7d']))).length ≤
        fuel := by
      simp only [List.length_append, List.length_cons, List.length_nil]
      omega
    have onward := ih.fields l w ms rest next others room
    rw [shape]
    exact membersMore (first ',' _ (by decide)) onward

theorem readsBack (fuel : Nat) : ReadsBack fuel := by
  induction fuel with
  | zero =>
    constructor
    · intro v rest readable enough
      have := compactPositive readable
      omega
    · intro v vs rest readable others enough
      have := compactPositive readable
      simp only [List.length_append] at enough
      omega
    · intro k v ms rest readable others enough
      have := compactPositive readable
      simp only [List.length_append, List.length_cons] at enough
      omega
  | succ fuel ih =>
    exact ⟨fun v rest readable enough stops => valueStep ih readable enough stops,
      fun v vs rest readable others enough => itemsStep ih readable others enough,
      fun k v ms rest readable others enough => membersStep ih readable others enough⟩

end Reader

theorem renderRead {v : Value} (readable : v.Readable) : Node.ofText? v.render = some v.toNode := by
  have stops : Reader.Stops [] := by
    intro c front
    contradiction
  have read := (Reader.readsBack (v.render.length + 1)).value v [] readable (Nat.le_succ _) stops
  rw [List.append_nil] at read
  unfold Node.ofText? Reader.document
  rw [List.length_map]
  unfold Value.render at read ⊢
  rw [read]
  rfl

end ComponentFile.Json
