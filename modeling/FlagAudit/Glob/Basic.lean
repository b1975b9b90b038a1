import FlagAudit.Path
import FlagAudit.Text.Blank

/-!
# Glob patterns

A glob is turned into a regular expression, one part between slashes after the other. Two stars
stand for any run of characters within a line, one star for any run of characters within a part of a
path, braces for one of the texts between their commas, and every other character for itself. Stars
next to each other are paired from the left. A group is an opening brace, a body that is not empty,
and the next closing brace of the same part; a brace that belongs to no group stands for itself.
-/

namespace FlagAudit.Glob

/-- Whether a character means something else than itself somewhere in a regular expression. -/
def isSpecial (c : Char) : Bool :=
  ['(', ')', '[', ']', '\x7b', '\x7d', '?', '*', '+', '-', '|', '^', '$', '\\', '.', '&', '~', '#',
    ' ', '\t', '\n', '\r', '\x0b', '\x0c'].contains c

/-- The expression of a text that stands for itself: a special character comes behind a
backslash. -/
def literally (text : List Char) : List Char :=
  text.flatMap fun c => if isSpecial c then ['\\', c] else [c]

/-- The pieces of a text between pairs of stars. -/
def splitAtPairs : List Char → List (List Char)
  | [] => [[]]
  | '*' :: '*' :: rest => [] :: splitAtPairs rest
  | c :: rest => (splitAtPairs rest).modifyHead (c :: ·)

/-- The expression of a pair of stars. -/
def anyRun : List Char := ['.', '*']

/-- The expression of a single star. -/
def runWithinPart : List Char := ['[', '^', '/', ']', '*']

/-- The expression of a text outside groups. -/
def wildcards (text : List Char) : List Char :=
  anyRun.intercalate ((splitAtPairs text).map fun piece =>
    runWithinPart.intercalate ((piece.splitOn '*').map literally))

/-- The body of the group whose opening brace was just read, and what follows its closing brace. -/
def groupBody? (s : List Char) : Option (List Char × List Char) :=
  match s.takeWhile (· != '\x7d'), s.dropWhile (· != '\x7d') with
  | c :: body, '\x7d' :: rest => some (c :: body, rest)
  | _, _ => none

/-- A group's body, its closing brace and what follows make up the text behind its opening brace. -/
theorem eq_of_groupBody? {s body rest : List Char} (h : groupBody? s = some (body, rest)) :
    s = body ++ '\x7d' :: rest := by
  unfold groupBody? at h
  split at h
  · next c cs t h₁ h₂ =>
    simp only [Option.some.injEq, Prod.mk.injEq] at h
    obtain ⟨rfl, rfl⟩ := h
    rw [← h₁, ← h₂, List.takeWhile_append_dropWhile]
  · simp at h

/-- What follows a group is shorter than the text behind its opening brace. -/
theorem length_groupBody? {s body rest : List Char} (h : groupBody? s = some (body, rest)) :
    rest.length < s.length := by
  have := congrArg List.length (eq_of_groupBody? h)
  simp at this
  omega

/-- The text before the first group of a part, and each group's body with the text behind it. -/
def cutAtGroups : List Char → List Char × List (List Char × List Char)
  | [] => ([], [])
  | '\x7b' :: rest =>
    match _h : groupBody? rest with
    | some (body, behind) =>
      let (text, groups) := cutAtGroups behind
      ([], (body, text) :: groups)
    | none =>
      let (text, groups) := cutAtGroups rest
      ('\x7b' :: text, groups)
  | c :: rest =>
    let (text, groups) := cutAtGroups rest
    (c :: text, groups)
termination_by s => s.length
decreasing_by
  all_goals simp_wf
  have := length_groupBody? _h
  omega

/-- The texts that a group stands for. -/
def alternatives (body : List Char) : List (List Char) := (body.splitOn ',').map Text.trim

/-- The expression of a group. -/
def groupExpression (body : List Char) : List Char :=
  ['(', '?', ':'] ++ ['|'].intercalate ((alternatives body).map literally) ++ [')']

/-- The expression of a part of a pattern. -/
def partExpression (part : List Char) : List Char :=
  if part == ['*', '*'] then anyRun
  else
    let (text, groups) := cutAtGroups part
    wildcards text ++ groups.flatMap fun (body, text) => groupExpression body ++ wildcards text

/-- The expression of a pattern, which has to account for the whole text. -/
def expression (pattern : List Char) : List Char :=
  '^' :: (Path.joinParts ((pattern.splitOn '/').map partExpression) ++ ['$'])

end FlagAudit.Glob
