import FlagAudit.Calendar
import FlagAudit.Path
import FlagAudit.Text.LetterCase
import FlagAudit.Text.Number
import FlagAudit.Yaml.Document

/-!
# Reading YAML

The nodes of a document become settings. A node whose tag is not known cannot be understood, nor can
a node whose tag does not go with its kind, or a key that is a list or a mapping itself. A merge key
puts the fields of other mappings before those of its own. Settings are made in rounds, from the outer
ones to those inside, so of several faults the outermost one counts.
-/

namespace FlagAudit.Yaml

/-! ### Texts -/

/-- The truth value that a word stands for. -/
def truthValue? (s : List Char) : Option Bool :=
  let word := String.ofList (Text.lowerText s)
  if ["yes", "true", "on"].contains word then some true
  else if ["no", "false", "off"].contains word then some false
  else none

/-- A text without blanks around it, and with the digits of all scripts in the first one. -/
def numeral (s : List Char) : List Char :=
  (Text.trim s).map fun c => ((Text.digitValue? c).map fun d => Char.ofNat ('0'.toNat + d)).getD c

/-- Whether digits to a base denote zero; they have to be digits of the base. A sign may stand before
them, and so may the letter of the base behind a zero. -/
def basedZero (letter : Char) (isDigit : Char → Bool) (s : List Char) : Except Fault Bool :=
  let ds := match dropSign (numeral s) with
    | '0' :: l :: ds => if l.toLower == letter then ds else '0' :: l :: ds
    | ds => ds
  if ds.isEmpty || !ds.all isDigit then .error .badValue else .ok (ds.all (· == '0'))

/-- Whether a character is a binary digit. -/
def isBinaryDigit (c : Char) : Bool := c == '0' || c == '1'

/-- Whether a character is an octal digit. -/
def isOctalDigit (c : Char) : Bool := '0' ≤ c && c ≤ '7'

/-- Whether a whole number is zero. -/
def intZero (s : List Char) : Except Fault Bool :=
  match dropSign (s.filter (· != '_')) with
  | [] => .error .noDigits
  | ['0'] => .ok true
  | '0' :: 'b' :: ds => basedZero 'b' isBinaryDigit ds
  | '0' :: 'x' :: ds => basedZero 'x' isHexDigit ds
  | '0' :: ds => basedZero 'o' isOctalDigit ('0' :: ds)
  | ds => do
    let parts ← (ds.splitOn ':').mapM fun part =>
      match Text.wholeNumber? part with
      | some n => .ok n
      | none => .error Fault.badValue
    return parts.all (· == 0)

/-- Whether a decimal number, perhaps with a sign, a point and an exponent, is zero. -/
def decimalZero (s : List Char) : Except Fault Bool :=
  let u := dropSign (numeral s)
  if ["nan", "inf", "infinity"].any fun w => u == w.toList then .ok false
  else
    let (whole, rest) := Text.spanDigits u
    let (fraction, rest) := match rest with
      | '.' :: r => Text.spanDigits r
      | r => ([], r)
    let exponent : Option Int := match rest with
      | [] => some 0
      | 'e' :: '-' :: ds => if ds.isEmpty || !ds.all Char.isDigit then none else
          some (-(Text.digitsValue ds : Int))
      | 'e' :: ds =>
        let ds := dropSign ds
        if ds.isEmpty || !ds.all Char.isDigit then none else some (Text.digitsValue ds)
      | _ => none
    match exponent with
    | none => .error .badValue
    | some e =>
      if whole.isEmpty && fraction.isEmpty then .error .badValue
      else .ok (Text.roundsToZero (Text.digitsValue (whole ++ fraction)) (e - fraction.length))

/-- The most parts of a number to the base sixty. With one more, the weight of the first part is larger
than every number of 64 bits. -/
def partLimit : Nat := 174

/-- Whether a number is zero. -/
def floatZero (s : List Char) : Except Fault Bool :=
  let digits := Text.lowerText (s.filter (· != '_'))
  let u := dropSign digits
  if digits.isEmpty then .error .noDigits
  else if [".inf", ".nan"].any fun w => u == w.toList then .ok false
  else do
    let parts ← (u.splitOn ':').mapM decimalZero
    if partLimit < parts.length then .error .tooManyParts else return parts.all id

/-- Whether there is such a date, with such a time. The distance to universal time is less than a
day. -/
def Moment.isValid (m : Moment) : Bool :=
  Calendar.isDate m.year m.month m.day &&
    (m.time.all fun (h, mi, s) => Calendar.isTime h mi s) &&
    (m.offset.all fun (h, mi) => 60 * h + mi < 24 * 60)

/-- How many characters of base 64 there are, up to the padding; nothing if their number does not
come out. `pads` counts the padding since the last of them. -/
def base64Length? : (count pads : Nat) → List Char → Option Nat
  | count, _, [] => if count % 4 == 0 then some count else none
  | count, pads, c :: rest =>
    if c == '=' then
      if 2 ≤ count % 4 && 4 ≤ count % 4 + (pads + 1) then some count
      else base64Length? count (if 2 ≤ count % 4 then pads + 1 else pads) rest
    else if c.isAlphanum || c == '+' || c == '/' then base64Length? (count + 1) 0 rest
    else base64Length? count pads rest

/-- What a text with a tag stands for. -/
def scalarSetting (tag : Tag) (s : List Char) : Except Fault Setting :=
  match tag with
  | .null => .ok .nothing
  | .str => .ok (.text (String.ofList s))
  | .bool =>
    match truthValue? s with
    | some b => .ok (.flag b)
    | none => .error (.noTruthValue (String.ofList (Text.lowerText s)))
  | .int => (intZero s).map .other
  | .float => (floatZero s).map .other
  | .timestamp =>
    match moment? (beforeLineFeed s) with
    | some m => if m.isValid then .ok (.other false) else .error .badValue
    | none => .error .noDate
  | .binary =>
    if s.any fun c => 128 ≤ c.toNat then malformed
    else match base64Length? 0 0 s with
      | some n => .ok (.other (n == 0))
      | none => malformed
  | _ => malformed

/-! ### Lists and mappings -/

mutual

/-- The text of a node. A mapping has the text of what stands in it under an equals sign. -/
def textOf : Node → Except Fault (List Char)
  | .scalar _ text => .ok text
  | .mapping _ pairs => textOfPairs pairs
  | .sequence .. | .ring => malformed

/-- The text of the first of some pairs that has an equals sign for its key. -/
def textOfPairs : List (Node × Node) → Except Fault (List Char)
  | [] => malformed
  | p :: ps => (textOfPair? p).getD (textOfPairs ps)

/-- The text of a pair, if its key is an equals sign. -/
def textOfPair? : Node × Node → Option (Except Fault (List Char))
  | (k, v) => if k.tag? == some .value then some (textOf v) else none

end

/-- What a mapping with the tag of a text stands for. A date has to be a text itself. -/
def mappedSetting (tag : Tag) (pairs : List (Node × Node)) : Except Fault Setting := do
  let text ← textOfPairs pairs
  if tag == .timestamp then .error .noDateText else scalarSetting tag text

/-- What a node stands for that has the tag of a text. -/
def simpleSetting : Node → Except Fault Setting
  | .scalar tag text => scalarSetting tag text
  | .mapping tag pairs => mappedSetting tag pairs
  | .sequence .. | .ring => malformed

/-- The name that a key gives to its field, if it is a text. An equals sign alone is a text here. -/
def keyName (key : Node) : Except Fault (Option String) :=
  match key.tag? with
  | some .value => do return some (String.ofList (← textOf key))
  | _ => do
    match ← simpleSetting key with
    | .text name => return some name
    | _ => return none

/-! ### Rounds -/

/-- The first faults of some rounds, those of two things side by side. -/
def sideBySide : List (Option Fault) → List (Option Fault) → List (Option Fault)
  | [], later => later
  | first, [] => first
  | f :: first, g :: later => (f <|> g) :: sideBySide first later

/-- What is made in rounds: a list or a mapping is made in one round, and what is inside in the next one. -/
structure Made (α : Type) where
  /-- What is made if there is no fault. -/
  value : α
  /-- The first fault of each round. -/
  faults : List (Option Fault) := []

namespace Made

variable {α β γ : Type}

/-- What is made in one round. -/
def now (default : α) : Except Fault α → Made α
  | .ok a => ⟨a, []⟩
  | .error fault => ⟨default, [some fault]⟩

/-- What is made one round later. -/
def later (m : Made α) : Made α := ⟨m.value, none :: m.faults⟩

/-- Something else is made of it. -/
def map (f : α → β) (m : Made α) : Made β := ⟨f m.value, m.faults⟩

/-- Two things are made in the same rounds, and then one of them. -/
def both (f : α → β → γ) (m : Made α) (n : Made β) : Made γ :=
  ⟨f m.value n.value, sideBySide m.faults n.faults⟩

/-- What has been made after all rounds. -/
def finish (m : Made α) : Except Fault α :=
  match m.faults.findSome? id with
  | some fault => .error fault
  | none => .ok m.value

end Made

/-! ### Nodes -/

/-- A field of a mapping; keys that are no texts have no name. -/
abbrev Field := Option String × Setting

/-- The fields of a mapping. Whether there are mappings to merge is known before any field is made. -/
structure FieldList where
  /-- The fault where something else is to be merged. -/
  merging : Except Fault Unit
  /-- Those of merged mappings. -/
  merged : Made (List Field)
  /-- Its own. -/
  own : Made (List Field)

/-- No fields. -/
def FieldList.empty : FieldList := ⟨.ok (), ⟨[], []⟩, ⟨[], []⟩⟩

/-- What cannot be merged. -/
def FieldList.unmergeable : FieldList := { FieldList.empty with merging := malformed }

/-- All fields, those that are merged first. -/
def FieldList.all (fs : FieldList) : Made (List Field) :=
  Made.both (fun _ fields => fields) (.now () fs.merging) (Made.both (· ++ ·) fs.merged fs.own)

/-- The fields of a mapping, merged into another one. -/
def FieldList.asMerged (fs : FieldList) : FieldList :=
  { fs with merged := Made.both (· ++ ·) fs.merged fs.own, own := ⟨[], []⟩ }

/-- Fields as a setting. -/
def tableOf (fs : List Field) : Setting :=
  .table (fs.filterMap fun (name, value) => name.map (·, value))

/-- A list or a mapping whose tag is that of another kind. -/
def misplaced : Made Setting := (Made.now .nothing malformed).later

mutual

/-- What a node stands for. -/
def settingOf : Node → Made Setting
  | .scalar tag text =>
    match tag with
    | .seq | .omap | .pairs | .map | .set => misplaced
    | _ => .now .nothing (scalarSetting tag text)
  | .sequence tag items =>
    match tag with
    | .seq => ((settingsOf items).map .list).later
    | .omap | .pairs => ((singlesOf items).map .list).later
    | .map | .set => misplaced
    | _ => .now .nothing malformed
  | .mapping tag pairs =>
    match tag with
    | .map => ((fieldsOf pairs).all.map tableOf).later
    | .set => ((fieldsOf pairs).all.map fun fs => .other fs.isEmpty).later
    | .seq | .omap | .pairs => misplaced
    | _ => .now .nothing (mappedSetting tag pairs)
  | .ring => ⟨.other false, []⟩

/-- What the items of a list stand for. -/
def settingsOf : List Node → Made (List Setting)
  | [] => ⟨[], []⟩
  | n :: ns => .both (· :: ·) (settingOf n) (settingsOf ns)

/-- What the items of a list of single pairs stand for. -/
def singlesOf : List Node → Made (List Setting)
  | [] => ⟨[], []⟩
  | n :: ns => .both (· :: ·) (singleOf n) (singlesOf ns)

/-- What a mapping with a single pair stands for, as an item of a list of pairs. -/
def singleOf : Node → Made Setting
  | .mapping _ [p] => bothOf p
  | _ => .now .nothing malformed

/-- What both nodes of a pair stand for. -/
def bothOf : Node × Node → Made Setting
  | (k, v) => .both (fun k v => .list [k, v]) (settingOf k) (settingOf v)

/-- The fields that pairs stand for. -/
def fieldsOf : List (Node × Node) → FieldList
  | [] => .empty
  | p :: ps =>
    let fs := fieldsOfPair p
    let more := fieldsOf ps
    ⟨fs.merging *> more.merging, .both (· ++ ·) fs.merged more.merged,
      .both (· ++ ·) fs.own more.own⟩

/-- The fields that one pair stands for. -/
def fieldsOfPair : Node × Node → FieldList
  | (k, v) =>
    if k.tag? == some .merge then mergedFields v
    else { FieldList.empty with
      own := .both (fun name value => [(name, value)]) (.now none (keyName k)) (settingOf v) }

/-- The fields that a merge key takes from its value: from a mapping, or from a list of mappings, of
which the first counts most. -/
def mergedFields : Node → FieldList
  | .mapping _ pairs => (fieldsOf pairs).asMerged
  | .sequence _ items => mergedItems items
  | .scalar .. => .unmergeable
  | .ring => .empty

/-- The fields of mappings in a list, those of the last mapping first. -/
def mergedItems : List Node → FieldList
  | [] => .empty
  | n :: ns =>
    let fs := mergedItem n
    let more := mergedItems ns
    { FieldList.empty with
      merging := fs.merging *> more.merging
      merged := .both (· ++ ·) more.merged fs.merged }

/-- The fields of a mapping in a list. -/
def mergedItem : Node → FieldList
  | .mapping _ pairs => (fieldsOf pairs).asMerged
  | .ring => .empty
  | _ => .unmergeable

end

/-- The setting that a text denotes. -/
def read (s : List Char) : Except Fault Setting := do
  match ← rootOf s with
  | none => return .nothing
  | some node => (settingOf node).finish

end FlagAudit.Yaml
