import FlagAudit.Regex.Basic
import FlagAudit.Text.Search

/-!
# Searching for a regular expression

The search backtracks: an expression offers the places where it can end, in the order of preference,
to whatever has to come behind it, and the first place that is accepted there counts. So the first
of two alternatives is preferred, and the greatest number of repetitions unless the expression says
otherwise.
-/

namespace FlagAudit

namespace Regex

open Text (Cursor)

/-- The text that a group has kept: where it starts and, once the group has been left, where it
ends. -/
structure Span where
  /-- The offset of its first character. -/
  start : Nat
  /-- The offset behind its last character. -/
  stop : Option Nat
  deriving Repr

/-- How far a search has come. -/
structure State where
  /-- The place in the text. -/
  cursor : Cursor
  /-- The texts that the groups have kept. -/
  spans : List (Nat × Span)
  deriving Repr

namespace State

/-- What a group has kept, if it has been left. -/
def kept? (s : State) (number : Nat) : Option (Nat × Nat) := do
  let span ← s.spans.lookup number
  return (span.start, ← span.stop)

/-- The characters that a group has kept. -/
def keptText? (s : State) (number : Nat) : Option (List Char) := do
  let (start, stop) ← s.kept? number
  return (s.cursor.text.drop start).take (stop - start)

/-- Enters a group. An end from an earlier time stays as long as it does not lie before the start.
-/
def enter (s : State) (number : Nat) : State :=
  let start := s.cursor.offset
  let stop := do
    let (_, stop) ← s.kept? number
    if start ≤ stop then some stop else none
  { s with spans := (number, ⟨start, stop⟩) :: s.spans.filter (·.1 != number) }

/-- Leaves a group. -/
def leave (s : State) (number : Nat) : State :=
  let start := ((s.spans.lookup number).map (·.start)).getD s.cursor.offset
  { s with spans := (number, ⟨start, some s.cursor.offset⟩) :: s.spans.filter (·.1 != number) }

end State

/-- Whether the cursor stands at an edge of a word. -/
def atWordEdge (ascii : Bool) (c : Cursor) : Bool :=
  let isWord := fun x => CharKind.word.holds ascii x
  c.previous?.any isWord != c.after.head?.any isWord

/-- Whether the cursor stands at a place. An empty text has neither edges of words nor places that
are not edges. -/
def Anchor.holds (c : Cursor) : Anchor → Bool
  | .textStart => c.before.isEmpty
  | .lineStart => c.before.isEmpty || c.previous? == some '\n'
  | .textEnd => c.after.isEmpty
  | .lastLineEnd => c.after.isEmpty || c.after == ['\n']
  | .lineEnd => c.after.isEmpty || c.after.head? == some '\n'
  | .wordEdge negated ascii =>
    !(c.before.isEmpty && c.after.isEmpty) && (atWordEdge ascii c != negated)

/-- Whether a text begins with some characters, and the cursor behind them. -/
def skipText (letters : Letters) : List Char → Cursor → Option Cursor
  | [], c => some c
  | x :: xs, c =>
    match c.after with
    | [] => none
    | y :: _ =>
      let same := if letters.ignoreCase then
          letters.lowerCode x.toNat == letters.lowerCode y.toNat
        else x == y
      if same then skipText letters xs c.next else none

/-- The cursors behind zero, one, two and more characters that are accepted, at most `limit` of them
if there is a limit, the furthest first. -/
def sweep (accepts : Char → Bool) :
    (limit : Option Nat) → (offset : Nat) → (before after : List Char) → List Cursor → List Cursor
  | _, offset, before, [], found => ⟨offset, before, []⟩ :: found
  | limit, offset, before, x :: after, found =>
    let found := ⟨offset, before, x :: after⟩ :: found
    if limit != some 0 && accepts x then
      sweep accepts (limit.map (· - 1)) (offset + 1) (x :: before) after found
    else found

/-- A way to go on from a state. -/
abbrev Continue := State → Option State

/-- A way to go through something and on from there. -/
abbrev Step := State → Continue → Option State

/-- Whether one more repetition is allowed. -/
def mayRepeat (max : Option Nat) (done : Nat) : Bool :=
  match max with
  | none => true
  | some n => done < n

/-- Repeats a step as often as possible. Behind the repetitions that are required, one more is tried
only if the last of them has moved. -/
def repeatMost (step : Step) (min : Nat) (max : Option Nat) (k : Continue) :
    (fuel : Nat) → (done : Nat) → (last : Option Nat) → Continue
  | 0, _, _, _ => none
  | fuel + 1, done, last, s =>
    if done < min then step s (repeatMost step min max k fuel (done + 1) last)
    else if mayRepeat max done && last != some s.cursor.offset then
      match step s (repeatMost step min max k fuel (done + 1) (some s.cursor.offset)) with
      | some t => some t
      | none => k s
    else k s

/-- Repeats a step as seldom as possible, under the same condition. -/
def repeatLeast (step : Step) (min : Nat) (max : Option Nat) (k : Continue) :
    (fuel : Nat) → (done : Nat) → (last : Option Nat) → Continue
  | 0, _, _, _ => none
  | fuel + 1, done, last, s =>
    if done < min then step s (repeatLeast step min max k fuel (done + 1) last)
    else
      match k s with
      | some t => some t
      | none =>
        if mayRepeat max done && last != some s.cursor.offset then
          step s (repeatLeast step min max k fuel (done + 1) (some s.cursor.offset))
        else none

/-- Repeats a step as often as possible and keeps what each repetition has found. -/
def repeatAll (step : Step) (min : Nat) (max : Option Nat) :
    (fuel : Nat) → (done : Nat) → (last : Option Nat) → State → Option State
  | 0, _, _, _ => none
  | fuel + 1, done, last, s =>
    if done < min then
      match step s some with
      | some t => repeatAll step min max fuel (done + 1) last t
      | none => none
    else if mayRepeat max done && last != some s.cursor.offset then
      match step s some with
      | some t => repeatAll step min max fuel (done + 1) (some s.cursor.offset) t
      | none => some s
    else some s

/-- Repeats a single character: the places where the repetition can end, in the order of
preference. -/
def singleStops (what : Single) (min : Nat) (max : Option Nat) (greed : Greed) (c : Cursor) :
    List Cursor :=
  let stops := sweep (fun x => what.accepts x) max c.offset c.before c.after []
  let stops := stops.take (stops.length - min)
  match greed with
  | .most => stops
  | .least => stops.reverse
  | .possessive => stops.take 1

/-- Goes through an expression from a state and on from where it ends. -/
def run : Regex → Step
  | .empty, s, k => k s
  | .single what, s, k =>
    match s.cursor.after with
    | [] => none
    | x :: _ => if what.accepts x then k { s with cursor := s.cursor.next } else none
  | .anchor a, s, k => if a.holds s.cursor then k s else none
  | .concat a b, s, k => run a s fun t => run b t k
  | .either a b, s, k =>
    match run a s k with
    | some t => some t
    | none => run b s k
  | .group n a, s, k => run a (s.enter n) fun t => k (t.leave n)
  | .repeated (.single what) min max greed, s, k =>
    (singleStops what min max greed s.cursor).findSome? fun c => k { s with cursor := c }
  | .repeated a min max greed, s, k =>
    let fuel := s.cursor.after.length + min + 2
    match greed with
    | .most => repeatMost (run a) min max k fuel 0 none s
    | .least => repeatLeast (run a) min max k fuel 0 none s
    | .possessive =>
      match repeatAll (run a) min max fuel 0 none s with
      | some t => k t
      | none => none
  | .backref n letters, s, k =>
    match s.keptText? n with
    | none => none
    | some text =>
      match skipText letters text s.cursor with
      | none => none
      | some c => k { s with cursor := c }
  | .ahead positive a, s, k =>
    match run a s some, positive with
    | some t, true => k { t with cursor := s.cursor }
    | none, false => k s
    | _, _ => none
  | .behind positive width a, s, k =>
    let found := match s.cursor.retreat? width with
      | none => none
      | some c => run a { s with cursor := c } some
    match found, positive with
    | some t, true => k { t with cursor := s.cursor }
    | none, false => k s
    | _, _ => none
  | .atomic a, s, k =>
    match run a s some with
    | some t => k t
    | none => none
  | .ifGroup n yes no, s, k => if (s.kept? n).isSome then run yes s k else run no s k

variable {s : State} {k : Continue} {x : Char} {rest : List Char}

theorem run_anchor (place : Anchor) :
    run (.anchor place) s k = if place.holds s.cursor then k s else none := rfl

theorem run_concat (a b : Regex) : run (.concat a b) s k = run a s fun t => run b t k := rfl

theorem run_either (a b : Regex) : run (.either a b) s k = (run a s k).or (run b s k) := by
  change (match run a s k with | some t => some t | none => run b s k) = _
  cases run a s k <;> rfl

theorem run_group (n : Nat) (a : Regex) :
    run (.group n a) s k = run a (s.enter n) fun t => k (t.leave n) := rfl

/-- At the end of the text, no character is left to go through. -/
theorem run_single_of_nil {what : Single} (h : s.cursor.after = []) :
    run (.single what) s k = none := by
  change (match s.cursor.after with
    | [] => none
    | x :: _ => if what.accepts x then k { s with cursor := s.cursor.next } else none) = none
  rw [h]

/-- A single character is gone through if it is accepted. -/
theorem run_single {what : Single} (h : s.cursor.after = x :: rest) :
    run (.single what) s k =
      if what.accepts x then k { s with cursor := s.cursor.next } else none := by
  change (match s.cursor.after with
    | [] => none
    | x :: _ => if what.accepts x then k { s with cursor := s.cursor.next } else none) = _
  rw [h]

theorem run_repeated_stops (what : Single) (min : Nat) (max : Option Nat) (greed : Greed) :
    run (.repeated (.single what) min max greed) s k =
      (singleStops what min max greed s.cursor).findSome? fun c => k { s with cursor := c } := rfl

end Regex

namespace Pattern

open Text (Cursor)

/-- Reads an occurrence of the pattern at a cursor. Its value is the state where it ends. -/
def reader (p : Pattern) : Text.Reader Regex.State := fun nonempty c => do
  let t ← Regex.run p.body ⟨c, []⟩ fun t =>
    if nonempty && t.cursor.offset == c.offset then none else some t
  return (t.cursor.offset - c.offset, t)

/-- The occurrences of the pattern in a text, from left to right. -/
def occurrences (p : Pattern) (s : List Char) : List (Text.Hit Regex.State) :=
  Text.hits p.reader s

/-- Whether the pattern occurs at the start of a text. -/
def matchesStart (p : Pattern) (s : List Char) : Bool :=
  (p.reader false (Cursor.start s)).isSome

end Pattern

end FlagAudit
