import FlagAudit.Proofs.Text.Search
import FlagAudit.Regex.Match

/-!
# How far an expression reaches

Going through an expression leads from one place of a text to another one of the same text, which is not
before it, and no group ends behind the text. Places that are looked at ahead or behind are left again, so
they are no exception. This holds of each part of an expression whatever comes behind it, and so of the
whole (`careful_run`).
-/

namespace FlagAudit.Regex

open Text (Cursor)

variable {content : List Char} {s t : State} {k : Continue} {step : Step}

/-- A search stands in a text, and the groups that have been left end in it. -/
structure State.In (content : List Char) (s : State) : Prop where
  /-- The place. -/
  cursor : s.cursor.Within content
  /-- The groups. -/
  spans : ∀ entry ∈ s.spans, ∀ stop, entry.2.stop = some stop → stop ≤ content.length

/-- To go on from some state in the text that is not before another one leads to a result. -/
def GoesOn (content : List Char) (s : State) (k : Continue) (t : State) : Prop :=
  ∃ u : State, u.In content ∧ s.cursor.offset ≤ u.cursor.offset ∧ k u = some t

/-- A step goes on only from states in the same text that are not before the one where it starts. -/
def Careful (content : List Char) (step : Step) : Prop :=
  ∀ s k t, s.In content → step s k = some t → GoesOn content s k t

/-! ### States -/

namespace State

theorem In.start {c : Cursor} (h : c.Within content) : State.In content ⟨c, []⟩ :=
  ⟨h, List.forall_mem_nil _⟩

theorem In.withCursor (h : s.In content) {c : Cursor} (hc : c.Within content) :
    State.In content { s with cursor := c } :=
  ⟨hc, h.spans⟩

/-- What a group has kept ends in the text. -/
theorem In.stop_le (h : s.In content) {number start stop : Nat}
    (hkept : s.kept? number = some (start, stop)) : stop ≤ content.length := by
  simp only [kept?, Option.bind_eq_bind, Option.bind_eq_some_iff, Option.pure_def,
    Option.some.injEq, Prod.mk.injEq] at hkept
  obtain ⟨span, hspan, stop', hstop, -, rfl⟩ := hkept
  obtain ⟨before, behind, hspans, -⟩ := List.lookup_eq_some_iff.mp hspan
  exact h.spans (number, span) (by rw [hspans]; simp) _ hstop

theorem In.enter (h : s.In content) (number : Nat) : (s.enter number).In content := by
  refine ⟨h.cursor, ?_⟩
  simp only [State.enter, List.forall_mem_cons]
  refine ⟨fun stop hstop => ?_, fun entry hentry => h.spans entry (List.mem_of_mem_filter hentry)⟩
  simp only [Option.bind_eq_bind, Option.bind_eq_some_iff, Option.ite_none_right_eq_some,
    Option.some.injEq, Prod.exists] at hstop
  obtain ⟨start, stop', hkept, -, rfl⟩ := hstop
  exact h.stop_le hkept

theorem In.leave (h : s.In content) (number : Nat) : (s.leave number).In content := by
  refine ⟨h.cursor, ?_⟩
  simp only [State.leave, List.forall_mem_cons]
  refine ⟨fun stop hstop => ?_, fun entry hentry => h.spans entry (List.mem_of_mem_filter hentry)⟩
  cases hstop
  exact h.cursor.offset_le

end State

/-! ### Places -/

theorem within_retreat? {n : Nat} {c d : Cursor} (hc : c.Within content)
    (h : c.retreat? n = some d) : d.Within content := by
  induction n generalizing c with
  | zero =>
    cases h
    exact hc
  | succ n ih =>
    obtain ⟨offset, before, after⟩ := c
    cases before with
    | nil => cases h
    | cons x before =>
      refine ih ⟨?_, ?_⟩ h
      · rw [← hc.text]
        simp [Cursor.text]
      · have hoffset : offset = before.length + 1 := hc.offset
        exact (congrArg (· - 1) hoffset).trans (Nat.add_sub_cancel _ _)

/-- A text that is skipped leads forward. -/
theorem exists_advance_of_skipText {letters : Letters} {text : List Char} {c d : Cursor}
    (h : skipText letters text c = some d) : ∃ n, d = c.advance n := by
  induction text generalizing c with
  | nil =>
    cases h
    exact ⟨0, rfl⟩
  | cons x text ih =>
    rw [skipText] at h
    split at h
    · cases h
    · obtain ⟨n, rfl⟩ := ih (Option.ite_none_right_eq_some.mp h).2
      exact ⟨n + 1, rfl⟩

/-- The stops of a sweep are further on in the text. -/
theorem mem_sweep_cases {accepts : Char → Bool} {limit : Option Nat} {offset : Nat}
    {before after : List Char} {found : List Cursor} {c : Cursor}
    (h : c ∈ sweep accepts limit offset before after found) :
    c ∈ found ∨ ∃ n, c = Cursor.advance n ⟨offset, before, after⟩ := by
  induction after generalizing limit offset before found with
  | nil =>
    rcases List.mem_cons.mp h with rfl | h
    · exact .inr ⟨0, rfl⟩
    · exact .inl h
  | cons x after ih =>
    have hcons : ∀ {d : Cursor}, d ∈ ⟨offset, before, x :: after⟩ :: found →
        d ∈ found ∨ ∃ n, d = Cursor.advance n ⟨offset, before, x :: after⟩ := by
      intro d hd
      rcases List.mem_cons.mp hd with rfl | hd
      · exact .inr ⟨0, rfl⟩
      · exact .inl hd
    rw [sweep] at h
    split at h
    · rcases ih h with h | ⟨n, rfl⟩
      · exact hcons h
      · exact .inr ⟨n + 1, rfl⟩
    · exact hcons h

theorem exists_advance_of_mem_singleStops {what : Single} {min : Nat} {max : Option Nat}
    {greed : Greed} {c d : Cursor} (h : d ∈ singleStops what min max greed c) :
    ∃ n, d = c.advance n := by
  have hsweep : d ∈ sweep (fun x => what.accepts x) max c.offset c.before c.after [] := by
    cases greed with
    | most => exact List.mem_of_mem_take h
    | least => exact List.mem_of_mem_take (List.mem_reverse.mp h)
    | possessive => exact List.mem_of_mem_take (List.mem_of_mem_take h)
  rcases mem_sweep_cases hsweep with hnil | hadvance
  · cases hnil
  · exact hadvance

/-! ### Steps -/

/-- What a careful step ends in if nothing comes behind it. -/
theorem Careful.result (h : Careful content step) (hs : s.In content) (ht : step s some = some t) :
    t.In content ∧ s.cursor.offset ≤ t.cursor.offset := by
  obtain ⟨u, hu, hle, heq⟩ := h s some t hs ht
  cases heq
  exact ⟨hu, hle⟩

theorem GoesOn.here (hs : s.In content) (h : k s = some t) : GoesOn content s k t :=
  ⟨s, hs, Nat.le_refl _, h⟩

theorem GoesOn.advance (hs : s.In content) {n : Nat}
    (h : k { s with cursor := s.cursor.advance n } = some t) : GoesOn content s k t :=
  ⟨_, hs.withCursor (hs.cursor.advance n), Cursor.offset_le_advance n _, h⟩

theorem GoesOn.next (hs : s.In content) (h : k { s with cursor := s.cursor.next } = some t) :
    GoesOn content s k t :=
  ⟨_, hs.withCursor hs.cursor.next, Cursor.offset_le_next _, h⟩

/-- What is not before a place is not before the places before it. -/
theorem GoesOn.earlier {u : State} (h : GoesOn content u k t)
    (hle : s.cursor.offset ≤ u.cursor.offset) : GoesOn content s k t := by
  obtain ⟨v, hv, hle', hk⟩ := h
  exact ⟨v, hv, Nat.le_trans hle hle', hk⟩

/-- A careful step can be followed by anything that goes on carefully. -/
theorem Careful.andThen {next : Continue} (h : Careful content step) (hs : s.In content)
    (ht : step s next = some t) (hnext : ∀ u, u.In content → next u = some t → GoesOn content u k t) :
    GoesOn content s k t := by
  obtain ⟨u, hu, hle, hrest⟩ := h _ _ _ hs ht
  exact (hnext u hu hrest).earlier hle

theorem careful_repeatMost (h : Careful content step) (min : Nat) (max : Option Nat)
    (fuel done : Nat) (last : Option Nat) :
    Careful content fun s k => repeatMost step min max k fuel done last s := by
  intro s k t hs ht
  induction fuel generalizing done last s with
  | zero => cases ht
  | succ fuel ih =>
    have hagain : ∀ {done last}, step s (repeatMost step min max k fuel done last) = some t →
        GoesOn content s k t :=
      fun hstep => h.andThen hs hstep fun _ hu hrest => ih _ _ _ hu hrest
    dsimp only [repeatMost] at ht
    split at ht
    · exact hagain ht
    · split at ht
      · split at ht
        · next hstep => exact hagain (hstep.trans ht)
        · exact .here hs ht
      · exact .here hs ht

theorem careful_repeatLeast (h : Careful content step) (min : Nat) (max : Option Nat)
    (fuel done : Nat) (last : Option Nat) :
    Careful content fun s k => repeatLeast step min max k fuel done last s := by
  intro s k t hs ht
  induction fuel generalizing done last s with
  | zero => cases ht
  | succ fuel ih =>
    have hagain : ∀ {done last}, step s (repeatLeast step min max k fuel done last) = some t →
        GoesOn content s k t :=
      fun hstep => h.andThen hs hstep fun _ hu hrest => ih _ _ _ hu hrest
    dsimp only [repeatLeast] at ht
    split at ht
    · exact hagain ht
    · split at ht
      · next hk => exact .here hs (hk.trans ht)
      · split at ht
        · exact hagain ht
        · cases ht

theorem in_of_repeatAll (h : Careful content step) {min : Nat} {max : Option Nat}
    {fuel done : Nat} {last : Option Nat} (hs : s.In content)
    (ht : repeatAll step min max fuel done last s = some t) :
    t.In content ∧ s.cursor.offset ≤ t.cursor.offset := by
  induction fuel generalizing done last s with
  | zero => cases ht
  | succ fuel ih =>
    have hagain : ∀ {u done last}, step s some = some u →
        repeatAll step min max fuel done last u = some t →
        t.In content ∧ s.cursor.offset ≤ t.cursor.offset := by
      intro u done last hstep hrest
      obtain ⟨hu, hle⟩ := h.result hs hstep
      obtain ⟨hin, hle'⟩ := ih hu hrest
      exact ⟨hin, Nat.le_trans hle hle'⟩
    rw [repeatAll] at ht
    split at ht
    · split at ht
      · next hstep => exact hagain hstep ht
      · cases ht
    · split at ht
      · split at ht
        · next hstep => exact hagain hstep ht
        · cases ht
          exact ⟨hs, Nat.le_refl _⟩
      · cases ht
        exact ⟨hs, Nat.le_refl _⟩

/-- A repetition of anything but a single character is careful if what is repeated is. -/
theorem careful_repeated {r : Regex} (h : Careful content (run r)) (min : Nat) (max : Option Nat)
    (greed : Greed) : Careful content (run (.repeated r min max greed)) := by
  intro s k t hs ht
  by_cases hsingle : ∃ what, r = .single what
  · obtain ⟨what, rfl⟩ := hsingle
    rw [run_repeated_stops] at ht
    obtain ⟨c, hc, hk⟩ := List.exists_of_findSome?_eq_some ht
    obtain ⟨n, rfl⟩ := exists_advance_of_mem_singleStops hc
    exact GoesOn.advance hs hk
  · have hother : ∀ what, r ≠ .single what := fun what heq => hsingle ⟨what, heq⟩
    cases greed with
    | most =>
      rw [run] at ht
      · exact careful_repeatMost h _ _ _ _ _ s k t hs ht
      · exact hother
    | least =>
      rw [run] at ht
      · exact careful_repeatLeast h _ _ _ _ _ s k t hs ht
      · exact hother
    | possessive =>
      rw [run] at ht
      · split at ht
        · next u hall =>
          obtain ⟨hu, hle⟩ := in_of_repeatAll h hs hall
          exact ⟨u, hu, hle, ht⟩
        · cases ht
      · exact hother

/-- Going through an expression is careful. -/
theorem careful_run (content : List Char) (r : Regex) : Careful content (run r) := by
  induction r with
  | empty => exact fun s k t hs ht => .here hs ht
  | single what =>
    intro s k t hs ht
    cases hafter : s.cursor.after with
    | nil =>
      rw [run_single_of_nil hafter] at ht
      cases ht
    | cons x rest =>
      rw [run_single hafter, Option.ite_none_right_eq_some] at ht
      exact GoesOn.next hs ht.2
  | anchor place =>
    intro s k t hs ht
    rw [run_anchor, Option.ite_none_right_eq_some] at ht
    exact .here hs ht.2
  | concat a b iha ihb =>
    intro s k t hs ht
    exact iha.andThen hs ht fun u hu hb => ihb _ _ _ hu hb
  | either a b iha ihb =>
    intro s k t hs ht
    rw [run_either, Option.or_eq_some_iff] at ht
    rcases ht with ha | ⟨-, hb⟩
    · exact iha _ _ _ hs ha
    · exact ihb _ _ _ hs hb
  | group n a iha =>
    intro s k t hs ht
    obtain ⟨u, hu, hle, hk⟩ := iha _ _ _ (hs.enter n) ht
    exact ⟨u.leave n, hu.leave n, hle, hk⟩
  | repeated a min max greed iha => exact careful_repeated iha min max greed
  | backref n letters =>
    intro s k t hs ht
    rw [run] at ht
    split at ht
    · cases ht
    · split at ht
      · cases ht
      · next c hskip =>
        obtain ⟨n, rfl⟩ := exists_advance_of_skipText hskip
        exact GoesOn.advance hs ht
  | ahead positive a iha =>
    intro s k t hs ht
    rw [run.eq_def] at ht
    dsimp only at ht
    split at ht
    · next u hlook =>
      have hu := (iha.result hs hlook).1
      exact ⟨_, hu.withCursor hs.cursor, Nat.le_refl _, ht⟩
    · exact .here hs ht
    · cases ht
  | behind positive width a iha =>
    intro s k t hs ht
    rw [run.eq_def] at ht
    dsimp only at ht
    split at ht
    · next u hlook =>
      split at hlook
      · cases hlook
      · next c hretreat =>
        have hu := (iha.result (hs.withCursor (within_retreat? hs.cursor hretreat)) hlook).1
        exact ⟨_, hu.withCursor hs.cursor, Nat.le_refl _, ht⟩
    · exact .here hs ht
    · cases ht
  | atomic a iha =>
    intro s k t hs ht
    rw [run] at ht
    split at ht
    · next u ha =>
      obtain ⟨hu, hle⟩ := iha.result hs ha
      exact ⟨u, hu, hle, ht⟩
    · cases ht
  | ifGroup n yes no ihyes ihno =>
    intro s k t hs ht
    rw [run] at ht
    split at ht
    · exact ihyes _ _ _ hs ht
    · exact ihno _ _ _ hs ht

end FlagAudit.Regex

namespace FlagAudit.Pattern

/-- What is read of a pattern at a cursor reaches from there to the end of a state in the same text. -/
theorem in_of_reader {p : Pattern} {content : List Char} {c : Text.Cursor} {nonempty : Bool} {n : Nat}
    {t : Regex.State} (hc : c.Within content) (h : p.reader nonempty c = some (n, t)) :
    t.In content ∧ t.cursor.offset = c.offset + n := by
  simp only [reader, Option.bind_eq_bind, Option.bind_eq_some_iff, Option.pure_def, Option.some.injEq,
    Prod.mk.injEq] at h
  obtain ⟨u, hrun, rfl, rfl⟩ := h
  obtain ⟨v, hv, hle, hend⟩ := Regex.careful_run content p.body _ _ _ (.start hc) hrun
  obtain rfl := Option.some.inj (Option.ite_none_left_eq_some.mp hend).2
  exact ⟨hv, (Nat.add_sub_cancel' hle).symm⟩

end FlagAudit.Pattern
