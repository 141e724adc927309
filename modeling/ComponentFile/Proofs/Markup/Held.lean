import ComponentFile.Proofs.Markup.Extension
import ComponentFile.Proofs.Markup.Failures

/-! What is still held back when the end of input comes. Only a lone angle can then be read without
an error: every other construct that waits is one that the end leaves incomplete. -/
namespace ComponentFile.Markup.State

theorem awaitingFails (s : State) (awaited : Awaited) : ∃ e, s.awaiting true awaited = .failed e :=
  ⟨_, rfl⟩

theorem breakOnMember {needle : Char} {t before found : Text}
    (h : Text.breakOn? [needle] t = some (before, found)) : needle ∈ t := by
  rw [breakOnCut h]
  simp

theorem breakOnAbsent {needle : Char} {t : Text} (h : needle ∉ t) :
    Text.breakOn? [needle] t = none := by
  cases here : Text.breakOn? [needle] t with
  | none => rfl
  | some parts => exact absurd (breakOnMember here) h

theorem declarationUntilHeld {s : State} {opening : Nat} {terminator : Text}
    (h : s.declarationUntil false opening terminator = .wait) :
    ∃ e, s.declarationUntil true opening terminator = .failed e := by
  unfold declarationUntil at h ⊢
  cases here : Text.breakOn? terminator (s.pending.drop opening) with
  | none => exact awaitingFails s _
  | some parts => simp [here, emitComment] at h

theorem declarationHeld {s : State} (h : s.declaration false = .wait) :
    ∃ e, s.declaration true = .failed e := by
  unfold declaration at h ⊢
  by_cases comment : "<!--".toList.isPrefixOf s.pending = true
  · rw [if_pos comment] at h ⊢
    exact declarationUntilHeld h
  · rw [if_neg comment] at h ⊢
    simp only [Bool.not_true, Bool.false_and, Bool.false_eq_true, if_false]
    split at h
    · -- a beginning of a comment's opening holds no angle that could end it
      rename_i opens
      simp only [Bool.not_false, Bool.true_and, List.isPrefixOf_iff_prefix] at opens
      have absent : '>' ∉ s.pending.drop 2 := fun member =>
        absurd (opens.subset (List.mem_of_mem_drop member)) (by decide)
      have none : Text.breakOn? ">" (s.pending.drop 2) = none := breakOnAbsent absent
      unfold declarationUntil
      rw [none]
      exact awaitingFails s _
    · exact declarationUntilHeld h

theorem endTagHeld {s : State} (h : s.endTag false = .wait) : ∃ e, s.endTag true = .failed e := by
  unfold endTag at h ⊢
  cases here : Text.breakOn? ['>'] s.pending with
  | none => exact awaitingFails s _
  | some parts =>
    simp only [here] at h
    split at h <;> contradiction

theorem startTagHeld {s : State} (h : s.startTag false = .wait) :
    ∃ e, s.startTag true = .failed e := by
  unfold startTag at h ⊢
  simp only at h ⊢
  split at h
  · rename_i nameless
    rw [if_pos nameless]
    exact awaitingFails s _
  · rename_i named
    rw [if_neg named]
    split at h
    · contradiction
    · rename_i valid
      rw [if_neg valid]
      split at h
      · exact awaitingFails s _
      · split at h <;> contradiction

theorem constructHeld {s : State} {rest : Text} (h : s.construct false rest = .wait) :
    rest = [] ∨ ∃ e, s.construct true rest = .failed e := by
  cases rest with
  | nil => exact .inl rfl
  | cons c after =>
    right
    simp only [construct] at h ⊢
    split
    · rename_i marked
      rw [if_pos marked] at h
      exact declarationHeld h
    · rename_i unmarked
      rw [if_neg unmarked] at h
      split
      · rename_i slash
        rw [if_pos slash] at h
        exact endTagHeld h
      · rename_i noSlash
        rw [if_neg noSlash] at h
        split
        · rename_i letter
          rw [if_pos letter] at h
          exact startTagHeld h
        · rename_i noLetter
          rw [if_neg noLetter] at h
          contradiction

theorem plainHeld {s : State} (h : s.plain false = .wait) :
    s.pending = [] ∨ s.pending = ['<'] ∨ ∃ e, s.plain true = .failed e := by
  unfold plain at h ⊢
  cases here : s.pending with
  | nil => exact .inl rfl
  | cons c rest =>
    right
    simp only [here] at h ⊢
    by_cases angle : c = '<'
    · subst c
      simp only [if_true] at h ⊢
      rcases constructHeld h with rfl | failed
      · exact .inl rfl
      · exact .inr failed
    · rw [if_neg angle] at h
      contradiction

theorem rawEndHeld {name t before rest : Text} (waits : rawEnd name false t = .wait)
    (found : rawEnd name true t = .found before rest) :
    ∃ close, rest = '<' :: '/' :: close ∧ Text.lower close = name := by
  induction t generalizing before with
  | nil => simp [rawEnd] at found
  | cons c more ih =>
    have later (waits : (rawEnd name false more).after c = .wait)
        (found : (rawEnd name true more).after c = .found before rest) :
        ∃ close, rest = '<' :: '/' :: close ∧ Text.lower close = name := by
      obtain ⟨inner, found, _⟩ := RawEnd.afterFound.mp found
      exact ih (RawEnd.afterWait.mp waits) found
    simp only [rawEnd] at waits found
    split at found
    · rename_i cond
      rw [if_pos cond] at waits
      split at found
      · rename_i ended
        cases found
        obtain ⟨rfl, slash, same⟩ := cond
        obtain ⟨close, rfl⟩ := List.head?_eq_some_iff.mp slash
        have whole : close.length ≤ name.length := by
          have := congrArg List.length ended
          simp only [List.length_drop, List.length_cons, List.length_nil] at this
          omega
        simp only [List.drop_succ_cons, List.drop_zero, List.take_of_length_le whole] at same
        exact ⟨close, rfl, same⟩
      · rename_i d tail here
        simp only [here] at waits
        split at found
        · rename_i ends
          rw [if_pos ends] at waits
          contradiction
        · rename_i ends
          rw [if_neg ends] at waits
          exact later waits found
    · rename_i cond
      rw [if_neg cond] at waits
      exact later waits found

theorem endTagOpen {s : State} {close : Text} (here : s.pending = '<' :: '/' :: close)
    (absent : '>' ∉ close) : ∃ e, s.plain true = .failed e := by
  have missing : Text.breakOn? ['>'] s.pending = none := by
    apply breakOnAbsent
    simp [here, absent]
  unfold plain
  simp only [here, if_true, construct]
  rw [if_neg (by decide)]
  unfold endTag
  rw [missing]
  exact awaitingFails s _

theorem rawElementClean {name close : Text} {c : Char} (known : name ∈ rawElements)
    (same : Text.lower close = name) (still : c.toLower = c)
    (foreign : ∀ element ∈ rawElements, c ∉ element) : c ∉ close := by
  intro member
  apply foreign name known
  rw [← same]
  exact List.mem_map.mpr ⟨c, member, still⟩

theorem drainStops {s : State} {e : ParseError} {events : List Event}
    {last : Except ParseError State} (failed : s.step true = .failed e)
    (ended : s.drain true = (events, last)) : last = .error e := by
  rw [drainFailed failed] at ended
  cases ended
  rfl

theorem rawFoundHeld {s : State} {name rest : Text} (raw : s.raw = some name)
    (here : rawEnd name false s.pending = .found [] rest) (waits : s.plain false = .wait) :
    ∃ e, s.step true = .failed e := by
  have whole : rest = s.pending := rawEndSplits here
  have room := (rawEndRoom here).1
  have again : rawEnd name true (s.pending ++ []) = _ := rawEndExtend [] here
  rw [List.append_nil, List.append_nil] at again
  rcases plainHeld waits with empty | angle | ⟨e, failed⟩
  · simp [whole, empty] at room
  · simp [whole, angle] at room
  · exact ⟨e, by simpa only [step, raw, again] using failed⟩

theorem rawCutHeld {s : State} {name before close : Text} {events : List Event}
    {last : Except ParseError State} (raw : s.raw = some name) (absent : '>' ∉ close)
    (atEnd : rawEnd name true s.pending = .found before ('<' :: '/' :: close))
    (ended : s.drain true = (events, last)) : ∃ e, last = .error e := by
  cases before with
  | nil =>
    have whole : '<' :: '/' :: close = s.pending := rawEndSplits atEnd
    obtain ⟨e, failed⟩ := endTagOpen whole.symm absent
    have stops : s.step true = .failed e := by simpa only [step, raw, atEnd] using failed
    exact ⟨e, drainStops stops ended⟩
  | cons c more =>
    -- the text before the end tag is delivered first
    have text : s.step true = s.emitText (c :: more) ('<' :: '/' :: close) := by
      simp only [step, raw, atEnd]
    obtain ⟨e, failed⟩ := endTagOpen (s := s.moved (c :: more) ('<' :: '/' :: close)) rfl absent
    have next : (s.moved (c :: more) ('<' :: '/' :: close)).step true = .failed e := failed
    rw [drainEmit text, drainFailed next] at ended
    cases ended
    exact ⟨e, rfl⟩

theorem rawHeld {s : State} {name : Text} {events : List Event} {last : Except ParseError State}
    (raw : s.raw = some name) (known : name ∈ rawElements) (waits : s.step false = .wait)
    (ended : s.drain true = (events, last)) : ∃ e, last = .error e := by
  simp only [step, raw] at waits
  cases here : rawEnd name false s.pending with
  | missing => exact absurd here rawEndNotMissing
  | found before rest =>
    simp only [here] at waits
    cases before with
    | cons c more => contradiction
    | nil =>
      obtain ⟨e, failed⟩ := rawFoundHeld raw here waits
      exact ⟨e, drainStops failed ended⟩
  | wait =>
    cases atEnd : rawEnd name true s.pending with
    | missing => exact ⟨_, drainStops (by simp only [step, raw, atEnd]; rfl) ended⟩
    | wait => exact absurd atEnd rawEndDecides
    | found before rest =>
      obtain ⟨close, rfl, same⟩ := rawEndHeld here atEnd
      exact rawCutHeld raw (rawElementClean known same (by decide) (by decide)) atEnd ended

/- What waits for more and can do without it is nothing or a lone angle, outside of raw text. -/
theorem heldAtEnd {s last : State} {events : List Event} (known : s.RawKnown)
    (waits : s.step false = .wait) (ended : s.drain true = (events, .ok last)) :
    s.raw = none ∧ (s.pending = [] ∨ s.pending = ['<']) := by
  cases raw : s.raw with
  | some name =>
    obtain ⟨e, failed⟩ := rawHeld raw (known name raw) waits ended
    contradiction
  | none =>
    refine ⟨rfl, ?_⟩
    have plain : s.plain false = .wait := by simpa only [step, raw] using waits
    rcases plainHeld plain with empty | angle | ⟨e, failed⟩
    · exact .inl empty
    · exact .inr angle
    · have stops : s.step true = .failed e := by simpa only [step, raw] using failed
      cases drainStops stops ended

end ComponentFile.Markup.State
