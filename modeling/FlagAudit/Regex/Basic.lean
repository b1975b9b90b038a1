import FlagAudit.Text.Digit
import FlagAudit.Text.LetterCase
import FlagAudit.Text.Word

/-!
# Regular expressions

The abstract syntax of the regular expressions that people write to say where a flag is read, and
what each of its smallest parts accepts. The concrete syntax is in `FlagAudit.Regex.Reader`, the
search in `FlagAudit.Regex.Match`.
-/

namespace FlagAudit

namespace Regex

/-- A kind of character that has a name. -/
inductive CharKind where
  /-- A decimal digit. -/
  | digit
  /-- A blank. -/
  | blank
  /-- A letter, a digit or a low line. -/
  | word
  deriving DecidableEq, Repr

/-- Whether a character is of a kind, among all characters or among the first 128 only. -/
def CharKind.holds (ascii : Bool) (c : Char) : CharKind → Bool
  | .digit => if ascii then c.isDigit else Text.isDecimalDigit c
  | .blank => if ascii then Text.isAsciiBlank c else Text.isBlank c
  | .word => if ascii then Text.isAsciiWord c else Text.isWord c

/-- How letters are read: whether capitals and small letters are told apart, and whether only the
first 128 characters count as letters, digits and blanks. -/
structure Letters where
  /-- Capitals and small letters are the same. -/
  ignoreCase : Bool
  /-- Only the first 128 characters have a kind and a case. -/
  ascii : Bool
  deriving DecidableEq, Repr

/-- The lower-case form of a code point. -/
def Letters.lowerCode (letters : Letters) (n : Nat) : Nat :=
  if letters.ascii && 128 ≤ n then n else Text.lowerCode n

/-- The code points that are the same letter as a lower-case one. -/
def Letters.alike (letters : Letters) (n : Nat) : List Nat :=
  if letters.ascii then
    if 97 ≤ n && n ≤ 122 then [n, n - 32] else [n]
  else Text.sameLetter n

/-- A member of a set of characters. -/
inductive SetItem where
  /-- One code point. -/
  | code (n : Nat)
  /-- The code points from one to another. -/
  | range (first last : Nat)
  /-- The characters of a kind, or those that are not of it. -/
  | kind (k : CharKind) (negated : Bool)
  deriving DecidableEq, Repr

/-- Whether a set item has a code point. -/
def SetItem.has (ascii : Bool) (n : Nat) : SetItem → Bool
  | .code m => n == m
  | .range first last => first ≤ n && n ≤ last
  | .kind k negated => k.holds ascii (Char.ofNat n) != negated

/-- Whether a set item has a character. Where case does not matter, it has the character if it has
any spelling of the same letter; a kind is asked about the lower-case form only. -/
def SetItem.accepts (letters : Letters) (c : Char) (item : SetItem) : Bool :=
  if letters.ignoreCase then
    let n := letters.lowerCode c.toNat
    match item with
    | .kind .. => item.has letters.ascii n
    | _ => (letters.alike n).any fun m => item.has letters.ascii m
  else item.has letters.ascii c.toNat

/-- What one character has to be. -/
inductive Single where
  /-- Any character; a line feed only if the flag is set. -/
  | any (lineFeedToo : Bool)
  /-- A character of a set, or one that is not in it. -/
  | oneOf (items : List SetItem) (negated : Bool) (letters : Letters)
  deriving DecidableEq, Repr

/-- Whether a character is what it has to be. -/
def Single.accepts (c : Char) : Single → Bool
  | .any lineFeedToo => lineFeedToo || c != '\n'
  | .oneOf items negated letters => items.any (·.accepts letters c) != negated

/-- A condition on a place in the text. -/
inductive Anchor where
  /-- The start of the text. -/
  | textStart
  /-- The start of a line. -/
  | lineStart
  /-- The end of the text. -/
  | textEnd
  /-- The end of the text or the place before a line feed that ends it. -/
  | lastLineEnd
  /-- The end of a line. -/
  | lineEnd
  /-- An edge of a word, or a place that is not one. -/
  | wordEdge (negated ascii : Bool)
  deriving DecidableEq, Repr

/-- How many repetitions are preferred. -/
inductive Greed where
  /-- As many as possible. -/
  | most
  /-- As few as possible. -/
  | least
  /-- As many as possible, and none is given back. -/
  | possessive
  deriving DecidableEq, Repr

end Regex

open Regex in
/-- A regular expression. -/
inductive Regex where
  /-- Nothing at all. -/
  | empty
  /-- One character. -/
  | single (what : Single)
  /-- A place. -/
  | anchor (place : Anchor)
  /-- One after the other. -/
  | concat (first second : Regex)
  /-- The first or else the second. -/
  | either (first second : Regex)
  /-- A part whose text is kept under a number. -/
  | group (number : Nat) (body : Regex)
  /-- A part repeated at least `min` times and at most `max` times. -/
  | repeated (body : Regex) (min : Nat) (max : Option Nat) (greed : Greed)
  /-- The text that a group has kept. -/
  | backref (number : Nat) (letters : Letters)
  /-- A place behind which the body occurs, or does not. -/
  | ahead (positive : Bool) (body : Regex)
  /-- A place before which the body, so many characters long, occurs, or does not. -/
  | behind (positive : Bool) (width : Nat) (body : Regex)
  /-- A part that is not tried in another way once it has been found. -/
  | atomic (body : Regex)
  /-- One thing if a group has kept a text, another if not. -/
  | ifGroup (number : Nat) (yes no : Regex)
  deriving DecidableEq, Repr

/-- A regular expression with its number of groups. -/
structure Pattern where
  /-- The expression. -/
  body : Regex
  /-- How many groups it has; they are numbered from 1. -/
  groupCount : Nat
  deriving DecidableEq, Repr

/-- Several expressions one after the other. -/
def Regex.concatAll : List Regex → Regex
  | [] => .empty
  | [r] => r
  | r :: rs => .concat r (concatAll rs)

/-- Several expressions to choose from, the first preferred. -/
def Regex.eitherAll : List Regex → Regex
  | [] => .empty
  | [r] => r
  | r :: rs => .either r (eitherAll rs)

end FlagAudit
