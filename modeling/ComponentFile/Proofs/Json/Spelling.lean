import Mathlib.Data.List.Perm.Basic
import ComponentFile.Json.Record
import ComponentFile.Proofs.Json.Values
import ComponentFile.Proofs.Table

/-! The documents of one value. They differ in the order of members and in the way a whole number is
written. What is read from one of them and printed again is another. -/
namespace ComponentFile.Json

def named (m : Text × Node) : Option Text × Node := (some m.1, m.2)

mutual

/- The document says the value. The members of an object may stand in any order. -/
def Value.Spelled : Value → Node → Prop
  | .null, n => n = .null
  | .bool b, n => n = .bool b
  | .int i, n => ∃ w, n = .number w ∧ w.toInt? = some i
  | .real w, n => n = .number w
  | .string t, n => n = .string (some t)
  | .array vs, n => ∃ ns, n = .array ns ∧ ItemsSpelled vs ns
  | .object ms, n => ∃ ns known, n = .object ns ∧ ns.Perm (known.map named) ∧ MembersSpelled ms known

def ItemsSpelled : List Value → List Node → Prop
  | [], ns => ns = []
  | v :: vs, ns => ∃ n rest, ns = n :: rest ∧ v.Spelled n ∧ ItemsSpelled vs rest

def MembersSpelled : List (Text × Value) → List (Text × Node) → Prop
  | [], known => known = []
  | (k, v) :: ms, known => ∃ n rest, known = (k, n) :: rest ∧ v.Spelled n ∧ MembersSpelled ms rest

end

theorem membersRelated {ms : Table Text Value} {known : Table Text Node}
    (spelled : MembersSpelled ms known) : Table.Related (fun _ => Value.Spelled) ms known := by
  induction ms generalizing known with
  | nil =>
    cases spelled
    exact .nil
  | cons m ms ih =>
    obtain ⟨n, rest, rfl, here, onward⟩ := spelled
    exact .cons ⟨rfl, here⟩ (ih onward)

theorem memberNodesNamed (ms : Table Text Value) :
    memberNodes ms = (ms.mapValues Value.toNode).map named := by
  induction ms with
  | nil => rfl
  | cons m ms ih => exact congrArg _ ih

mutual

theorem Value.toNodeSpelled : (v : Value) → v.Spelled v.toNode
  | .null => rfl
  | .bool _ => rfl
  | .int i => ⟨_, rfl, intOfInt i⟩
  | .real _ => rfl
  | .string _ => rfl
  | .array vs => ⟨_, rfl, itemNodesSpelled vs⟩
  | .object ms => ⟨_, _, rfl, .of_eq (memberNodesNamed ms), memberNodesSpelled ms⟩

theorem itemNodesSpelled : (vs : List Value) → ItemsSpelled vs (itemNodes vs)
  | [] => rfl
  | v :: vs => ⟨_, _, rfl, v.toNodeSpelled, itemNodesSpelled vs⟩

theorem memberNodesSpelled :
    (ms : List (Text × Value)) → MembersSpelled ms (Table.mapValues Value.toNode ms)
  | [] => rfl
  | (_, v) :: ms => ⟨_, _, rfl, v.toNodeSpelled, memberNodesSpelled ms⟩

end

theorem namedPerm {ns : List (Option Text × Node)} {known : Table Text Node}
    (same : ns.Perm (known.map named)) :
    ∃ other : Table Text Node, ns = other.map named ∧ other.Perm known := by
  have split := List.eq_map_comp_perm named
  exact (congrFun (congrFun split ns) known).mpr same

namespace Node

theorem knownRead (known : Table Text Node) :
    (known.map named).mapM (fun (m : Option Text × Node) => m.1.map fun k => (k, m.2)) =
      some known := by
  induction known with
  | nil => rfl
  | cons m rest ih =>
    rw [List.map_cons, List.mapM_cons, ih]
    rfl

theorem fieldsOfTable {known : Table Text Node} (distinct : known.Distinct)
    {ns : List (Option Text × Node)} (same : ns.Perm (known.map named)) (names : List Text) :
    (Node.object ns).fields? names = some (names.map known.get?) := by
  obtain ⟨other, rfl, reordered⟩ := namedPerm same
  have field (name : Text) :
      other.filter (fun m => m.1 == name) = ((known.get? name).map (name, ·)).toList :=
    (Table.onlyPerm reordered distinct name).trans (Table.onlyOfGet distinct name)
  simp only [fields?, knownRead other, bind, Option.bind, field]
  induction names with
  | nil => rfl
  | cons name rest ih =>
    rw [List.mapM_cons, ih, List.map_cons]
    cases known.get? name <;> rfl

theorem fieldsSpelled {record : Table Text Value} (distinct : record.Distinct) {n : Node}
    (spelled : (Value.object record).Spelled n) (names : List Text) :
    ∃ fields, n.fields? names = some fields ∧
      List.Forall₂ (Option.Rel Value.Spelled) (names.map record.get?) fields := by
  obtain ⟨ns, known, rfl, same, members⟩ := spelled
  have related := membersRelated members
  refine ⟨_, fieldsOfTable (Table.distinctRelated related distinct) same names, ?_⟩
  rw [List.forall₂_map_left_iff, List.forall₂_map_right_iff, List.forall₂_same]
  exact fun name _ => Table.getRelated related name

end Node

mutual

/- Numbers come back as they are, and no key hides another. -/
def Value.Kept : Value → Prop
  | .int i => Node.inWordRange i = true
  | .real w => w.Written ∧ w.toInt?.filter Node.inWordRange = none ∧ w.isFinite = true
  | .array vs => ItemsKept vs
  | .object ms => Table.Distinct ms ∧ MembersKept ms
  | _ => True

def ItemsKept : List Value → Prop
  | [] => True
  | v :: vs => v.Kept ∧ ItemsKept vs

def MembersKept : List (Text × Value) → Prop
  | [] => True
  | (_, v) :: ms => v.Kept ∧ MembersKept ms

end

theorem insertFresh {key : Text} {v : Value} {ms : Table Text Value}
    (fresh : ∀ m ∈ ms, (key == m.1) = false) : (insertMember key v ms).Perm ((key, v) :: ms) := by
  induction ms with
  | nil => exact .refl _
  | cons m rest ih =>
    have other : m.1 ≠ key := (ne_of_beq_false (fresh m List.mem_cons_self)).symm
    simp only [insertMember, if_neg other]
    split
    · exact .refl _
    · exact ((ih fun m member => fresh m (List.mem_cons_of_mem _ member)).cons m).trans (.swap ..)

theorem membersMean {known : Table Text Node} {ws : Table Text Value}
    (means : Table.Related (fun _ n w => n.value? = some w) known ws) (done : Table Text Value)
    (distinct : Table.Distinct (ws ++ done)) :
    ∃ us, Node.valueMembers? (known.map named) done = some us ∧ us.Perm (ws ++ done) := by
  induction means generalizing done with
  | nil => exact ⟨done, rfl, .refl _⟩
  | @cons m w known ws first rest ih =>
    obtain ⟨k, n⟩ := m
    obtain ⟨l, w⟩ := w
    obtain ⟨same, mean⟩ := first
    simp only at same mean
    subst same
    -- the key is neither among those done nor among those to come
    have fresh := (List.pairwise_cons.mp distinct).1
    have inserted : (insertMember l w done).Perm ((l, w) :: done) :=
      insertFresh fun m member => fresh m (List.mem_append_right _ member)
    have onward : (ws ++ insertMember l w done).Perm ((l, w) :: ws ++ done) :=
      (inserted.append_left ws).trans List.perm_middle
    obtain ⟨us, read, all⟩ := ih (insertMember l w done) (Table.distinctPerm onward.symm distinct)
    refine ⟨us, ?_, all.trans onward⟩
    simp only [List.map_cons, named, Node.valueMembers?, bind, Option.bind]
    rw [mean]
    exact read

theorem objectMeans {known : Table Text Node} {ns : List (Option Text × Node)}
    {ws : Table Text Value} (same : ns.Perm (known.map named))
    (means : Table.Related (fun _ n w => n.value? = some w) known ws) (distinct : ws.Distinct) :
    ∃ us : Table Text Value, (Node.object ns).value? = some (.object us) ∧ us.Perm ws := by
  obtain ⟨other, rfl, reordered⟩ := namedPerm same
  obtain ⟨vs, means, same⟩ := List.perm_comp_forall₂ reordered means
  have apart : Table.Distinct (vs ++ []) := by
    rw [List.append_nil]
    exact Table.distinctPerm same.symm distinct
  obtain ⟨us, read, all⟩ := membersMean means [] apart
  rw [List.append_nil] at all
  exact ⟨us, by rw [Node.value?, read, Option.map_some], all.trans same⟩

theorem membersReadable {ms : Table Text Value} :
    MembersReadable ms ↔ ∀ m ∈ ms, m.2.Readable := by
  induction ms with
  | nil => simp [MembersReadable]
  | cons m rest ih => rw [MembersReadable, ih, List.forall_mem_cons]

/- The document that a value is written as says `v`, in whatever way `v` came to be that value. -/
structure Value.Restates (w v : Value) : Prop where
  readable : w.Readable
  spelled : v.Spelled w.toNode

mutual

theorem Value.meaning : (v : Value) → {n : Node} → v.Kept → v.Spelled n →
    ∃ w, n.value? = some w ∧ w.Restates v
  | .null, _, _, rfl => ⟨.null, rfl, trivial, rfl⟩
  | .bool b, _, _, rfl => ⟨.bool b, rfl, trivial, rfl⟩
  | .int i, _, kept, ⟨w, rfl, whole⟩ => by
    refine ⟨.int i, ?_, trivial, _, rfl, intOfInt i⟩
    have inside : w.toInt?.filter Node.inWordRange = some i := by
      rw [whole]
      exact Option.filter_some_pos kept
    simp only [Node.value?, inside]
  | .real w, _, ⟨written, apart, finite⟩, rfl => by
    refine ⟨.real w, ?_, written, rfl⟩
    simp only [Node.value?, apart, if_pos finite]
  | .string t, _, _, rfl => ⟨.string t, rfl, trivial, rfl⟩
  | .array vs, _, kept, ⟨ns, rfl, items⟩ => by
    obtain ⟨ws, read, readable, said⟩ := itemsMeaning vs kept items
    refine ⟨.array ws, ?_, readable, _, rfl, said⟩
    simp only [Node.value?, read, Option.map_some]
  | .object ms, _, ⟨distinct, kept⟩, ⟨ns, known, rfl, same, members⟩ => by
    obtain ⟨ws, means, readable, said⟩ := membersMeaning ms kept members
    -- the value has the same members in the order of their keys
    have apart := Table.distinctRelated means (Table.distinctRelated (membersRelated members) distinct)
    obtain ⟨us, read, all⟩ := objectMeans same means apart
    have readable : MembersReadable us := membersReadable.mpr fun m member =>
      membersReadable.mp readable m (all.mem_iff.mp member)
    refine ⟨.object us, read, readable, _, _, rfl, ?_, said⟩
    rw [memberNodesNamed]
    exact (all.map _).map _

theorem itemsMeaning : (vs : List Value) → {ns : List Node} → ItemsKept vs → ItemsSpelled vs ns →
    ∃ ws, Node.valueItems? ns = some ws ∧ ItemsReadable ws ∧ ItemsSpelled vs (itemNodes ws)
  | [], _, _, rfl => ⟨[], rfl, trivial, rfl⟩
  | v :: vs, _, ⟨first, others⟩, ⟨n, rest, rfl, here, onward⟩ => by
    obtain ⟨w, mean, readable, said⟩ := v.meaning first here
    obtain ⟨ws, read, more, all⟩ := itemsMeaning vs others onward
    refine ⟨w :: ws, ?_, ⟨readable, more⟩, _, _, rfl, said, all⟩
    simp only [Node.valueItems?, mean, read, bind, Option.bind]

theorem membersMeaning : (ms : List (Text × Value)) → {known : Table Text Node} → MembersKept ms →
    MembersSpelled ms known → ∃ ws : Table Text Value,
      Table.Related (fun _ n w => n.value? = some w) known ws ∧ MembersReadable ws ∧
        MembersSpelled ms (ws.mapValues Value.toNode)
  | [], _, _, rfl => ⟨[], .nil, trivial, rfl⟩
  | (k, v) :: ms, _, ⟨first, others⟩, ⟨n, rest, rfl, here, onward⟩ => by
    obtain ⟨w, mean, readable, said⟩ := v.meaning first here
    obtain ⟨ws, read, more, all⟩ := membersMeaning ms others onward
    exact ⟨(k, w) :: ws, .cons ⟨rfl, mean⟩ read, ⟨readable, more⟩, _, _, rfl, said, all⟩

end

theorem depthPerm {ns ms : List (Option Text × Node)} (same : ns.Perm ms) :
    Node.depthMembers ns = Node.depthMembers ms := by
  induction same with
  | nil => rfl
  | cons m _ ih => rw [Node.depthMembers, ih, Node.depthMembers]
  | swap m l rest => simp only [Node.depthMembers, Nat.max_left_comm]
  | trans _ _ ih more => exact ih.trans more

mutual

theorem Value.spelledDepth : (v : Value) → {n : Node} → v.Spelled n → n.depth = v.toNode.depth
  | .null, _, rfl => rfl
  | .bool _, _, rfl => rfl
  | .int _, _, ⟨_, rfl, _⟩ => rfl
  | .real _, _, rfl => rfl
  | .string _, _, rfl => rfl
  | .array vs, _, ⟨_, rfl, items⟩ => congrArg (· + 1) (itemsDepth vs items)
  | .object ms, _, ⟨_, _, rfl, same, members⟩ =>
    congrArg (· + 1) ((depthPerm same).trans (membersDepth ms members))

theorem itemsDepth : (vs : List Value) → {ns : List Node} → ItemsSpelled vs ns →
    Node.depthItems ns = Node.depthItems (itemNodes vs)
  | [], _, rfl => rfl
  | v :: vs, _, ⟨_, _, rfl, here, onward⟩ =>
    congrArg₂ max (v.spelledDepth here) (itemsDepth vs onward)

theorem membersDepth : (ms : List (Text × Value)) → {known : Table Text Node} →
    MembersSpelled ms known →
      Node.depthMembers (known.map named) = Node.depthMembers (memberNodes ms)
  | [], _, rfl => rfl
  | (_, v) :: ms, _, ⟨_, _, rfl, here, onward⟩ =>
    congrArg₂ max (v.spelledDepth here) (membersDepth ms onward)

end

theorem Value.freelyRead {v : Value} {n : Node} {outer : Nat} (kept : v.Kept) (spelled : v.Spelled n)
    (shallow : v.toNode.depth + outer ≤ Node.depthLimit) :
    ∃ w, n.freeValue? outer = some w ∧ w.Restates v := by
  obtain ⟨w, read, restates⟩ := v.meaning kept spelled
  refine ⟨w, ?_, restates⟩
  rw [Node.freeValue?, v.spelledDepth spelled, if_pos shallow, read]

def Value.Documented (v : Value) (t : Text) : Prop := ∃ n, Node.ofText? t = some n ∧ v.Spelled n

theorem Value.Restates.documented {w v : Value} (restates : w.Restates v) : v.Documented w.render :=
  ⟨_, renderRead restates.readable, restates.spelled⟩

theorem Value.renderDocumented {v : Value} (readable : v.Readable) : v.Documented v.render :=
  ⟨_, renderRead readable, v.toNodeSpelled⟩

end ComponentFile.Json
