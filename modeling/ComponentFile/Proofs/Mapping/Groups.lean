import Mathlib.Algebra.Group.Int.Defs
import Mathlib.Algebra.Group.Nat.Defs
import Mathlib.Data.List.Forall2
import ComponentFile.Proofs.Mapping.Digits

/-! Segments by their groups of digits. A group ends behind each digit that says that no more
follow. What it stands for is counted here without any bound; reading gives just that as long as 64
bits hold it, and refuses a group of more than thirteen digits. -/
namespace ComponentFile.Digits

def rank (c : Char) : Nat := Base64.alphabet.idxOf c

def groups : Text → List Text × Text
  | [] => ([], [])
  | c :: rest =>
      if rank c < 32 then ([c] :: (groups rest).1, (groups rest).2)
      else
        match groups rest with
        | ([], left) => ([], c :: left)
        | (g :: more, left) => ((c :: g) :: more, left)

def groupSum : Text → Nat
  | [] => 0
  | c :: rest => rank c % 32 + 32 * groupSum rest

def numberOf (sum : Nat) : Int := (-1) ^ (sum % 2) * (sum / 2 : Nat)

theorem signedNumber (w : Nat) : signed w = numberOf w := by
  unfold signed numberOf
  rcases Nat.mod_two_eq_zero_or_one w with even | odd
  · simp [even]
  · simp [odd]

section Sums

theorem sumBelow (t : Text) : groupSum t < 2 ^ (5 * t.length) := by
  induction t with
  | nil => simp [groupSum]
  | cons c rest ih =>
    have low : rank c % 32 < 32 := Nat.mod_lt _ (by decide)
    have power : 2 ^ (5 * (c :: rest).length) = 32 * 2 ^ (5 * rest.length) := by
      rw [List.length_cons, Nat.mul_succ, Nat.pow_add, Nat.mul_comm]
    rw [groupSum, power]
    omega

theorem sumConcat (front : Text) (c : Char) :
    groupSum (front ++ [c]) = groupSum front + (rank c % 32) <<< (5 * front.length) := by
  induction front with
  | nil => simp [groupSum]
  | cons d rest ih =>
    have further : 5 * (d :: rest).length = 5 * rest.length + 5 := by simp [Nat.mul_succ]
    rw [List.cons_append, groupSum, groupSum, ih, further, Nat.shiftLeft_eq, Nat.shiftLeft_eq,
      Nat.pow_add, ← Nat.mul_assoc]
    omega

theorem shiftedWord {s : Nat} (x : Nat) (place : s ≤ 64) :
    x <<< s % Word.size64 = 2 ^ s * (x % 2 ^ (64 - s)) := by
  have word : Word.size64 = 2 ^ s * 2 ^ (64 - s) := by
    rw [← Nat.pow_add, Nat.add_sub_cancel' place]
    rfl
  rw [word, Nat.shiftLeft_eq, Nat.mul_comm x, Nat.mul_mod_mul_left]

/- What stands below the place `s` of a word is not touched by a digit that is put there, even if
the upper bits of the digit are lost. -/
theorem addShifted {low s : Nat} (x : Nat) (below : low < 2 ^ s) (place : s ≤ 64) :
    low + x <<< s % Word.size64 = (low + x <<< s) % Word.size64 := by
  have word : Word.size64 = 2 ^ s * 2 ^ (64 - s) := by
    rw [← Nat.pow_add, Nat.add_sub_cancel' place]
    rfl
  have high : x % 2 ^ (64 - s) + 1 ≤ 2 ^ (64 - s) := Nat.mod_lt _ (Nat.two_pow_pos _)
  have room : low + 2 ^ s * (x % 2 ^ (64 - s)) < 2 ^ s * 2 ^ (64 - s) := by
    refine Nat.lt_of_lt_of_le ?_ (Nat.mul_le_mul_left (2 ^ s) high)
    rw [Nat.mul_succ]
    omega
  rw [← Nat.add_mod_mod, shiftedWord x place, word, Nat.mod_eq_of_lt room]

end Sums

section Groups

theorem groupsLast {c : Char} (rest : Text) (last : rank c < 32) :
    groups (c :: rest) = ([c] :: (groups rest).1, (groups rest).2) := by
  rw [groups, if_pos last]

theorem groupsMore {front : Text} (rest : Text) (more : ∀ c ∈ front, ¬ rank c < 32) :
    groups (front ++ rest) =
      match groups rest with
      | ([], left) => ([], front ++ left)
      | (g :: others, left) => ((front ++ g) :: others, left) := by
  induction front with
  | nil =>
    rw [List.nil_append]
    rcases groups rest with ⟨_ | ⟨g, others⟩, left⟩ <;> rfl
  | cons c front ih =>
    have onward := ih fun d member => more d (List.mem_cons_of_mem c member)
    rw [List.cons_append, groups, if_neg (more c List.mem_cons_self), onward]
    rcases groups rest with ⟨_ | ⟨g, others⟩, left⟩ <;> rfl

def readGroups : List Text × Text → Except MapError (List Int)
  | ([], left) =>
      if 13 < left.length then .error .vlqOverflow
      else if left = [] then .ok [] else .error .unterminatedVlq
  | (g :: more, left) =>
      if 13 < g.length then .error .vlqOverflow
      else (readGroups (more, left)).map (numberOf (groupSum g % Word.size64) :: ·)

theorem readGroupsLong {front rest : Text} (more : ∀ c ∈ front, ¬ rank c < 32)
    (long : 13 ≤ front.length) (c : Char) :
    readGroups (groups (front ++ c :: rest)) = .error .vlqOverflow := by
  rw [groupsMore _ more]
  by_cases last : rank c < 32
  · rw [groupsLast rest last]
    simp only [readGroups, List.length_append, List.length_singleton]
    rw [if_pos (by omega)]
  · rw [groups, if_neg last]
    rcases groups rest with ⟨_ | ⟨g, others⟩, left⟩
    all_goals
      simp only [readGroups, List.length_append, List.length_cons]
      rw [if_pos (by omega)]

end Groups

structure Held (front : Text) (pending : Option Pending) : Prop where
  more : ∀ c ∈ front, ¬ rank c < 32
  begun : pending.isSome = !front.isEmpty
  bits : (pending.getD ⟨0, 0⟩).bits = groupSum front % Word.size64
  shift : (pending.getD ⟨0, 0⟩).shift = 5 * front.length

theorem heldNone : Held [] none := ⟨by simp, rfl, rfl, rfl⟩

theorem heldBits {front : Text} {pending : Option Pending} (held : Held front pending) (c : Char)
    (room : front.length ≤ 12) :
    (pending.getD ⟨0, 0⟩).bits +
        (rank c % 32) <<< (pending.getD ⟨0, 0⟩).shift % Word.size64 =
      groupSum (front ++ [c]) % Word.size64 := by
  have below := sumBelow front
  have fits : groupSum front < Word.size64 :=
    Nat.lt_of_lt_of_le below (Nat.pow_le_pow_right (by decide) (show 5 * front.length ≤ 64 by omega))
  rw [held.bits, held.shift, Nat.mod_eq_of_lt fits, addShifted _ below (by omega), sumConcat]

theorem heldMore {front : Text} {pending : Option Pending} (held : Held front pending) {c : Char}
    (more : ¬ rank c < 32) {bits : Nat} (sum : bits = groupSum (front ++ [c]) % Word.size64) :
    Held (front ++ [c]) (some ⟨bits, (pending.getD ⟨0, 0⟩).shift + 5⟩) := by
  refine ⟨?_, by simp, sum, ?_⟩
  · intro d member
    rcases List.mem_append.mp member with old | new
    · exact held.more d old
    · cases List.mem_singleton.mp new
      exact more
  · rw [Option.getD_some, held.shift, List.length_append, List.length_singleton, Nat.mul_succ]

theorem rankFound {c : Char} (known : c ∈ Base64.alphabet) : Base64.value? c = some (rank c) := by
  have every : Base64.alphabet.all (fun d => Base64.value? d = some (rank d)) = true := by
    decide +kernel
  exact of_decide_eq_true (List.all_eq_true.mp every c known)

theorem knownDigits {t : Text} (every : t.all (Base64.alphabet.contains ·) = true) :
    ∀ c ∈ t, c ∈ Base64.alphabet := by
  simpa using every

theorem decodeFromGroups {segment : Text} (known : ∀ c ∈ segment, c ∈ Base64.alphabet)
    {front : Text} {pending : Option Pending} (held : Held front pending)
    (short : front.length ≤ 13) :
    decodeFrom pending segment = readGroups (groups (front ++ segment)) := by
  induction segment generalizing front pending with
  | nil =>
    rw [groupsMore [] held.more, decodeFrom, held.begun]
    simp only [groups, readGroups, List.append_nil]
    rw [if_neg (show ¬ 13 < front.length by omega)]
    cases front <;> simp
  | cons c rest ih =>
    have others : ∀ d ∈ rest, d ∈ Base64.alphabet :=
      fun d member => known d (List.mem_cons_of_mem c member)
    rw [decodeFrom]
    simp only [rankFound (known c List.mem_cons_self)]
    by_cases full : 64 ≤ (pending.getD ⟨0, 0⟩).shift
    · have long : 13 ≤ front.length := by
        rw [held.shift] at full
        omega
      rw [if_pos full, readGroupsLong held.more long]
    · have room : front.length ≤ 12 := by
        rw [held.shift] at full
        omega
      have sum := heldBits held c room
      rw [if_neg full, sum]
      by_cases last : rank c < 32
      · have onward := ih others heldNone (Nat.zero_le 13)
        rw [if_neg (Nat.not_le.mpr last), onward, signedNumber, List.nil_append,
          groupsMore _ held.more, groupsLast rest last]
        simp only [readGroups, List.length_append, List.length_singleton]
        rw [if_neg (show ¬ 13 < front.length + 1 by omega)]
      · have onward := ih others (heldMore held last rfl)
          (by rw [List.length_append, List.length_singleton]; omega)
        rw [if_pos (Nat.not_lt.mp last), onward, List.append_assoc]
        rfl

theorem decodeGroups {segment : Text} (known : ∀ c ∈ segment, c ∈ Base64.alphabet) :
    decode segment = readGroups (groups segment) :=
  decodeFromGroups known heldNone (Nat.zero_le 13)

structure Gives (g : Text) (i : Int) : Prop where
  short : g.length ≤ 13
  exact : groupSum g < Word.size64 → i = numberOf (groupSum g)
  lost : Word.size64 ≤ groupSum g → i = numberOf (groupSum g - Word.size64)

theorem givesOne {g : Text} (short : g.length ≤ 13) {i : Int} :
    Gives g i ↔ i = numberOf (groupSum g % Word.size64) := by
  have below : groupSum g < 2 * Word.size64 :=
    Nat.lt_of_lt_of_le (sumBelow g)
      (Nat.pow_le_pow_right (by decide) (show 5 * g.length ≤ 65 by omega))
  by_cases fits : groupSum g < Word.size64
  · rw [Nat.mod_eq_of_lt fits]
    exact ⟨fun gives => gives.exact fits, fun same => ⟨short, fun _ => same, fun above => by omega⟩⟩
  · have rest : groupSum g % Word.size64 = groupSum g - Word.size64 := by
      rw [Nat.mod_eq_sub_mod (Nat.not_lt.mp fits), Nat.mod_eq_of_lt (by omega)]
    rw [rest]
    exact ⟨fun gives => gives.lost (Nat.not_lt.mp fits),
      fun same => ⟨short, fun inside => by omega, fun _ => same⟩⟩

theorem readGroupsOk {whole : List Text} {left : Text} {values : List Int} :
    readGroups (whole, left) = .ok values ↔ left = [] ∧ List.Forall₂ Gives whole values := by
  induction whole generalizing values with
  | nil =>
    rw [readGroups, List.forall₂_nil_left_iff]
    by_cases none : left = []
    · simp [none, eq_comm]
    · simp only [none, if_false, false_and, iff_false]
      split <;> simp
  | cons g more ih =>
    rw [readGroups]
    split
    · rename_i long
      refine ⟨by simp, ?_⟩
      rintro ⟨_, first | ⟨gives, _⟩⟩
      exact absurd gives.short (by omega)
    · rename_i short
      have one {i : Int} := givesOne (g := g) (i := i) (Nat.not_lt.mp short)
      rw [List.forall₂_cons_left_iff]
      constructor
      · intro read
        cases outcome : readGroups (more, left) with
        | error e => rw [outcome] at read; contradiction
        | ok others =>
          rw [outcome] at read
          cases read
          obtain ⟨none, rest⟩ := ih.mp outcome
          exact ⟨none, _, _, one.mpr rfl, rest, rfl⟩
      · rintro ⟨none, i, others, gives, rest, rfl⟩
        rw [ih.mpr ⟨none, rest⟩, one.mp gives]
        rfl

theorem readGroupsOverflow {whole : List Text} {left g : Text} (member : g ∈ whole)
    (long : 13 < g.length) : readGroups (whole, left) = .error .vlqOverflow := by
  induction whole with
  | nil => contradiction
  | cons first more ih =>
    rw [readGroups]
    split
    · rfl
    · rename_i short
      rcases List.mem_cons.mp member with rfl | later
      · contradiction
      · rw [ih later]
        rfl

/- A segment is read exactly when it consists of whole groups of at most thirteen digits. Each
number is then the one that its group stands for, as long as the sum of the group fits 64 bits; the
bit above them is lost. A longer group is an overflow. -/
theorem decodedByGroups {segment : Text} (known : ∀ c ∈ segment, c ∈ Base64.alphabet) :
    (∀ values, decode segment = .ok values ↔
        (groups segment).2 = [] ∧ List.Forall₂ Gives (groups segment).1 values) ∧
      ((∃ g ∈ (groups segment).1, 13 < g.length) → decode segment = .error .vlqOverflow) := by
  rw [decodeGroups known]
  exact ⟨fun values => readGroupsOk, fun ⟨g, member, long⟩ => readGroupsOverflow member long⟩

theorem longestGroupRead :
    decode "+///////////P3H" = .ok [2 ^ 63 - 1, -123] ∧
      decode "gggggggggggggA" = .error .vlqOverflow := by
  have two : groups "+///////////P3H" = (["+///////////P".toList, "3H".toList], []) ∧
      groupSum "+///////////P" = 2 ^ 64 - 2 ∧ groupSum "3H" = 247 := by decide +kernel
  have one : groups "gggggggggggggA" = (["gggggggggggggA".toList], []) := by decide +kernel
  obtain ⟨cut, largest, short⟩ := two
  obtain ⟨read, _⟩ := decodedByGroups (knownDigits (t := "+///////////P3H") (by decide +kernel))
  obtain ⟨_, refused⟩ := decodedByGroups (knownDigits (t := "gggggggggggggA") (by decide +kernel))
  rw [cut] at read
  rw [one] at refused
  refine ⟨(read _).mpr ⟨rfl, .cons ?_ (.cons ?_ .nil)⟩, refused ⟨_, List.mem_cons_self, by decide⟩⟩
  · rw [givesOne (by decide), largest]
    decide
  · rw [givesOne (by decide), short]
    decide

/- Thirteen digits hold 65 bits. A sum that needs the last of them is read all the same. -/
theorem topBitLost :
    groups "ggggggggggggQ" = (["ggggggggggggQ".toList], []) ∧
      groupSum "ggggggggggggQ" = 2 ^ 64 ∧ decode "ggggggggggggQ" = .ok [0] := by
  decide +kernel

end ComponentFile.Digits
