import FlagAudit.Regex.Reader

/-!
# Reading a pattern, token by token

What one step of reading does to the characters that are left, as long as nothing has been learnt
that matters to what comes: no group keeps its text, and no setting is on. `Draft.at` is the state
of reading before given characters.
-/

namespace FlagAudit.Regex

@[simp] theorem ok_bind {α β : Type} (a : α) (f : α → Except Fault β) :
    (Except.ok a >>= f) = f a := rfl

@[simp] theorem map_ok {α β : Type} (a : α) (f : α → β) :
    f <$> (Except.ok a : Except Fault α) = .ok (f a) := rfl

@[simp] theorem pure_eq_ok {α : Type} (a : α) : (pure a : Except Fault α) = .ok a := rfl

/-- Characters as input. -/
def Input.of : List Char → Input
  | [] => ⟨none, []⟩
  | '\\' :: c :: rest => ⟨some (.escaped c), rest⟩
  | c :: rest => ⟨some (.plain c), rest⟩

/-- Only a single backslash is no input. -/
theorem Input.ofChars_eq {s : List Char} (h : s ≠ ['\\']) : Input.ofChars s = .ok (.of s) := by
  fun_cases Input.ofChars s <;> simp_all [Input.of]

theorem Input.of_plain {c : Char} (hc : c ≠ '\\') (s : List Char) :
    Input.of (c :: s) = ⟨some (.plain c), s⟩ := by
  cases s <;> simp [Input.of, hc]

theorem Input.of_escaped (c : Char) (s : List Char) :
    Input.of ('\\' :: c :: s) = ⟨some (.escaped c), s⟩ := rfl

/-- The state of reading before some characters, if all that has been learnt is whether there is a
repetition, and no character is called by name. -/
def Draft.at (s : List Char) (repeats : Bool) : Draft :=
  ⟨.none, .of s, {}, [], [], none, 0, false, repeats⟩

variable {c : Char} {s : List Char}

theorem run_peek_nil (b : Bool) : peek.run (.at [] b) = .ok (none, .at [] b) := rfl

theorem run_peek_plain (hc : c ≠ '\\') (s : List Char) (b : Bool) :
    peek.run (.at (c :: s) b) = .ok (some (.plain c), .at (c :: s) b) := by
  simp only [peek, Draft.at, Input.of_plain hc]
  rfl

theorem run_peek_escaped (c : Char) (s : List Char) (b : Bool) :
    peek.run (.at ('\\' :: c :: s) b) = .ok (some (.escaped c), .at ('\\' :: c :: s) b) := rfl

theorem run_take_plain (hc : c ≠ '\\') (hs : s ≠ ['\\']) (b : Bool) :
    take.run (.at (c :: s) b) = .ok (some (.plain c), .at s b) := by
  simp [take, Draft.at, Input.of_plain hc, Input.ofChars_eq hs]

theorem run_take_escaped (hs : s ≠ ['\\']) (b : Bool) :
    take.run (.at ('\\' :: c :: s) b) = .ok (some (.escaped c), .at s b) := by
  simp [take, Draft.at, Input.of_escaped, Input.ofChars_eq hs]

/-- The character that is asked for is taken. -/
theorem run_accept_self (hc : c ≠ '\\') (hs : s ≠ ['\\']) (b : Bool) :
    (accept c).run (.at (c :: s) b) = .ok (true, .at s b) := by
  simp [accept, run_peek_plain hc, run_take_plain hc hs]

/-- The next token of some characters is a given character only if they begin with it. -/
theorem Input.next_of_ne (h : s.head? ≠ some c) : (Input.of s).next ≠ some (.plain c) := by
  fun_cases Input.of s <;> simp_all

/-- A character that is asked for and not there leaves everything as it is. -/
theorem run_accept_of_ne (h : s.head? ≠ some c) (b : Bool) :
    (accept c).run (.at s b) = .ok (false, .at s b) := by
  have hpeek : peek.run (.at s b) = .ok ((Input.of s).next, .at s b) := rfl
  simp [accept, hpeek, Input.next_of_ne h]

end FlagAudit.Regex
