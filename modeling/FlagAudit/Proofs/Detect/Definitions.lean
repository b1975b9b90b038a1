import Mathlib.Data.List.Nodup
import Mathlib.Data.List.Sort
import FlagAudit.Proofs.Detect.Assignment
import FlagAudit.Proofs.Text.Position

/-!
# Which definitions are found

The pattern of the first pass takes the blank before a name, and it is searched for without overlaps.
Still no definition is missed: the next hit starts behind an equals sign, and no definition can start
between the name of another and its equals sign. The second pass only finds what the first one has
found already.
-/

namespace FlagAudit.Detect

open Text (Cursor Hit)

/-! ### Where definitions start -/

/-- A definition starts at an offset: a name that is given a value, at the start of the text or
behind a blank. -/
structure StartsAt (s : List Char) (i : Nat) (name : List Char) : Prop where
  /-- The name. -/
  assigns : ∃ blanks rest, AssignsWith (s.drop i) name blanks rest
  /-- What is before it. -/
  placed : i = 0 ∨ ∃ b, s[i - 1]? = some b ∧ Text.isBlank b = true

variable {s name blanks rest : List Char} {i j : Nat}

/-- The characters of an assignment up to the equals sign. -/
theorem AssignsWith.getElem?_cases (h : AssignsWith s name blanks rest) {x : Char}
    (hx : s[i]? = some x) (hi : i ≤ name.length + blanks.length) :
    i < name.length ∧ x ∈ name ∨ name.length ≤ i ∧ i < name.length + blanks.length ∧ x ∈ blanks ∨
      i = name.length + blanks.length ∧ x = '=' := by
  rw [h.eq] at hx
  by_cases hname : i < name.length
  · rw [List.getElem?_append_left hname] at hx
    exact .inl ⟨hname, List.mem_of_getElem? hx⟩
  · rw [List.getElem?_append_right (by omega)] at hx
    by_cases hblanks : i < name.length + blanks.length
    · rw [List.getElem?_append_left (by omega)] at hx
      exact .inr (.inl ⟨by omega, hblanks, List.mem_of_getElem? hx⟩)
    · have heq : i = name.length + blanks.length := by omega
      rw [List.getElem?_append_right (by omega), heq] at hx
      simp only [Nat.add_sub_cancel_left, Nat.sub_self, List.getElem?_cons_zero,
        Option.some.injEq] at hx
      exact .inr (.inr ⟨heq, hx.symm⟩)

/-- The first character of an assignment is one that a name can start with. -/
theorem AssignsWith.getElem?_zero (h : AssignsWith s name blanks rest) :
    ∃ x, s[0]? = some x ∧ IsInitial x := by
  obtain ⟨c, cs, rfl, hc, -⟩ := h.isName
  exact ⟨c, by rw [h.eq]; rfl, hc⟩

/-- The name of a definition is determined by where it starts. -/
theorem AssignsWith.name_eq {name' blanks' rest' : List Char} (h : AssignsWith s name blanks rest)
    (h' : AssignsWith s name' blanks' rest') : name = name' := by
  have heq := (assigned?_eq_some_iff.mpr ⟨rest, h⟩).symm.trans (assigned?_eq_some_iff.mpr ⟨rest', h'⟩)
  exact congrArg Prod.fst (Option.some.inj heq)

/-- No definition starts between the name of another one and the place behind its equals sign. -/
theorem StartsAt.outside (hi : StartsAt s i name) {name' : List Char}
    (hj : AssignsWith (s.drop j) name' blanks rest) :
    i ≤ j ∨ j + (name'.length + blanks.length + 1) < i := by
  by_contra hinside
  obtain ⟨m, rfl⟩ : ∃ m, i = j + (m + 1) := ⟨i - j - 1, by omega⟩
  have hm : m ≤ name'.length + blanks.length := by omega
  obtain ⟨b, hbefore, hb⟩ : ∃ b, (s.drop j)[m]? = some b ∧ Text.isBlank b = true := by
    rcases hi.placed with hzero | ⟨b, hbefore, hb⟩
    · omega
    · refine ⟨b, ?_, hb⟩
      rwa [List.getElem?_drop]
  -- The character before the definition is one of the blanks of the other one.
  rcases hj.getElem?_cases hbefore hm with ⟨-, hmem⟩ | ⟨hle, hlt, -⟩ | ⟨-, rfl⟩
  · exact Bool.false_ne_true ((hj.isName.isMedial b hmem).not_blank.symm.trans hb)
  · obtain ⟨blanks', rest', hassigns⟩ := hi.assigns
    obtain ⟨x, hx, hinitial⟩ := hassigns.getElem?_zero
    rw [List.getElem?_drop, Nat.add_zero, ← List.getElem?_drop] at hx
    rcases hj.getElem?_cases hx hlt with ⟨hlt', -⟩ | ⟨-, -, hmem⟩ | ⟨-, rfl⟩
    · omega
    · exact Bool.false_ne_true (hinitial.isMedial.not_blank.symm.trans (hj.blanks x hmem))
    · exact hinitial.isMedial.ne_equals rfl
  · exact absurd hb (by decide)

/-! ### The search of the first pass -/

variable {c : Cursor} {t : Regex.State}

/-- At the start of a line, a definition may start. -/
theorem placed_of_lineStart (hc : c.Within s) (h : Regex.Anchor.lineStart.holds c = true) :
    c.offset = 0 ∨ ∃ b, s[c.offset - 1]? = some b ∧ Text.isBlank b = true := by
  rw [Regex.Anchor.holds, Bool.or_eq_true, List.isEmpty_iff, beq_iff_eq, hc.previous?] at h
  rcases h with h | h
  · rw [hc.offset, h]
    exact .inl rfl
  · split at h
    · next hzero => exact .inl hzero
    · exact .inr ⟨'\n', h, by decide⟩

/-- Where a definition starts that an occurrence has kept, and its name. -/
def startOf (hit : Hit Regex.State) : Nat × List Char :=
  (((hit.value.kept? 1).map (·.1)).getD 0, (hit.value.keptText? 1).getD [])

/-- What is found at a cursor is an assignment there, whose name is kept. -/
theorem exists_assignsWith_of_found (hc : c.Within s) (h : found c = some t) :
    ∃ name blanks rest, AssignsWith (s.drop c.offset) name blanks rest ∧
      t.cursor = c.advance (name.length + blanks.length + 1) ∧
      t.cursor.offset = c.offset + (name.length + blanks.length + 1) ∧
      t.kept? 1 = some (c.offset, c.offset + name.length) ∧ t.keptText? 1 = some name := by
  obtain ⟨name, blanks, rest, hassigns, rfl⟩ := found_eq_some_iff.mp h
  have hoffset := offset_of_assignsWith hassigns
  rw [hc.after] at hassigns
  refine ⟨name, blanks, rest, hassigns, rfl, hoffset, rfl, ?_⟩
  have htext : (c.advance (name.length + blanks.length + 1)).text = s :=
    (Cursor.text_advance _ _).trans hc.text
  change some (((c.advance (name.length + blanks.length + 1)).text.drop c.offset).take
    (c.offset + name.length - c.offset)) = some name
  rw [htext, hassigns.eq, Nat.add_sub_cancel_left, List.take_left]

/-- Where nothing is found, no definition starts. -/
theorem not_startsAt_of_found (hc : c.Within s) (h : found c = none) : ¬ StartsAt s c.offset name := by
  rintro ⟨⟨blanks, rest, hassigns⟩, -⟩
  rw [← hc.after] at hassigns
  have hsome := found_eq_some_iff.mpr ⟨name, blanks, rest, hassigns, rfl⟩
  rw [h] at hsome
  cases hsome

/-- What is still to be found at a cursor: the definitions that start behind it, and one that starts
there if it is the start of a line. The blank before any other has been passed. -/
def Due (s : List Char) (c : Cursor) (start : Nat × List Char) : Prop :=
  StartsAt s start.1 start.2 ∧
    (c.offset < start.1 ∨ start.1 = c.offset ∧ Regex.Anchor.lineStart.holds c = true)

/-- What is due, and not found at the start of a line, starts further on. -/
theorem Due.offset_lt {start : Nat × List Char} (h : Due s c start) (hc : c.Within s)
    (hnone : (if Regex.Anchor.lineStart.holds c then found c else none) = none) : c.offset < start.1 := by
  obtain ⟨hstarts, hlt | ⟨heq, hline⟩⟩ := h
  · exact hlt
  · rw [hline, if_pos rfl] at hnone
    exact absurd (heq ▸ hstarts) (not_startsAt_of_found hc hnone)

theorem offset_next_of_after {x : Char} {rest : List Char} (h : c.after = x :: rest) :
    c.next.offset = c.offset + 1 := by
  rw [Cursor.next, h]

/-- The character at a cursor is before the next place. -/
theorem getElem?_before_next (hc : c.Within s) {x : Char} {rest : List Char} (hafter : c.after = x :: rest) :
    s[c.next.offset - 1]? = some x := by
  rw [offset_next_of_after hafter, Nat.add_sub_cancel, ← Nat.add_zero c.offset, ← List.getElem?_drop,
    ← hc.after, hafter]
  rfl

/-- The first pass finds the first definition that is due. -/
theorem due_of_found (hc : c.Within s) (h : Placing.anywhere.found? c = some t) :
    ∃ d : Cursor, d.Within s ∧ c.offset ≤ d.offset ∧ found d = some t ∧
      ∀ name blanks rest, AssignsWith (s.drop d.offset) name blanks rest →
        Due s c (d.offset, name) ∧ ∀ start, Due s c start → d.offset ≤ start.1 := by
  rw [Placing.found?, Option.or_eq_some_iff] at h
  rcases h with hhere | ⟨hnone, hnext⟩
  · rw [Option.ite_none_right_eq_some] at hhere
    obtain ⟨hline, hfound⟩ := hhere
    refine ⟨c, hc, Nat.le_refl _, hfound, fun name blanks rest hassigns => ⟨⟨⟨?_, ?_⟩, ?_⟩, ?_⟩⟩
    · exact ⟨blanks, rest, hassigns⟩
    · exact placed_of_lineStart hc hline
    · exact .inr ⟨rfl, hline⟩
    · rintro start ⟨-, hstart | ⟨hstart, -⟩⟩
      · exact Nat.le_of_lt hstart
      · exact Nat.le_of_eq hstart.symm
  · rw [Option.ite_none_right_eq_some] at hnext
    obtain ⟨hblank, hfound⟩ := hnext
    cases hafter : c.after with
    | nil =>
      rw [hafter] at hblank
      cases hblank
    | cons b behind =>
      rw [hafter] at hblank
      have hoffset := offset_next_of_after hafter
      refine ⟨c.next, hc.next, Cursor.offset_le_next c, hfound,
        fun name blanks rest hassigns => ⟨⟨⟨⟨blanks, rest, hassigns⟩, .inr ⟨b, ?_, hblank⟩⟩, ?_⟩, ?_⟩⟩
      · exact getElem?_before_next hc hafter
      · exact .inl (by simp only [hoffset]; omega)
      · intro start hdue
        rw [hoffset]
        exact hdue.offset_lt hc hnone

/-- Where the first pass finds nothing, nothing that is due gets lost by moving on. -/
theorem due_of_not_found (hc : c.Within s) (h : Placing.anywhere.found? c = none)
    (start : Nat × List Char) : Due s c start ↔ c.after ≠ [] ∧ Due s c.next start := by
  rw [Placing.found?, Option.or_eq_none_iff] at h
  obtain ⟨hhere, hnext⟩ := h
  obtain ⟨i, name⟩ := start
  constructor
  · intro hdue
    have hlt := hdue.offset_lt hc hhere
    obtain ⟨hstarts, -⟩ := hdue
    cases hafter : c.after with
    | nil =>
      -- A definition starts before the end of the text.
      obtain ⟨blanks, rest, hassigns⟩ := hstarts.assigns
      obtain ⟨x, hx, -⟩ := hassigns.getElem?_zero
      rw [List.getElem?_drop] at hx
      have hlength := List.getElem?_eq_some_iff.mp hx |>.1
      rw [hc.after, List.drop_eq_nil_iff] at hafter
      omega
    | cons b behind =>
      have hoffset := offset_next_of_after hafter
      refine ⟨List.cons_ne_nil _ _, hstarts, ?_⟩
      by_cases hi : i = c.next.offset
      · -- The blank before the definition is next, so it would have been found.
        obtain ⟨b', hbefore, hb⟩ := hstarts.placed.resolve_left (by omega)
        rw [hi, getElem?_before_next hc hafter] at hbefore
        cases hbefore
        rw [hafter, if_pos (by exact hb)] at hnext
        exact absurd (hi ▸ hstarts) (not_startsAt_of_found hc.next hnext)
      · exact .inl (by simp only; omega)
  · rintro ⟨hafter, hstarts, hplace⟩
    obtain ⟨b, behind, hafter⟩ := List.exists_cons_of_ne_nil hafter
    rw [offset_next_of_after hafter] at hplace
    exact ⟨hstarts, .inl (by simp only at hplace ⊢; omega)⟩

/-- What an occurrence of the first pass is: the definition that starts first, up to and with its
equals sign. -/
theorem exists_start_of_reader (hc : c.Within s) {nonempty : Bool} {n : Nat}
    (h : Pattern.reader ⟨Placing.anywhere.body, 1⟩ nonempty c = some (n, t)) :
    ∃ start blanks rest, AssignsWith (s.drop start.1) start.2 blanks rest ∧
      startOf ⟨c.offset, n, t⟩ = start ∧ Due s c start ∧
      (∀ other, Due s c other → start.1 ≤ other.1) ∧ n ≤ c.after.length ∧
      (c.advance n).offset = start.1 + (start.2.length + blanks.length + 1) := by
  rw [reader_eq, Option.map_eq_some_iff] at h
  obtain ⟨t, hfound, heq⟩ := h
  cases heq
  obtain ⟨d, hd, hle, hfound, hdue⟩ := due_of_found hc hfound
  obtain ⟨name, blanks, rest, hassigns, hcursor, hoffset, hkept, htext⟩ :=
    exists_assignsWith_of_found hd hfound
  obtain ⟨hthis, hfirst⟩ := hdue name blanks rest hassigns
  have hlength : t.cursor.offset - c.offset ≤ c.after.length := by
    have hbound := (hd.advance (name.length + blanks.length + 1)).offset_le
    rw [← hcursor] at hbound
    rw [hc.after, List.length_drop]
    omega
  refine ⟨(d.offset, name), blanks, rest, hassigns, ?_, hthis, hfirst, hlength, ?_⟩
  · simp only [startOf, hkept, htext]
    rfl
  · rw [Cursor.offset_advance hlength]
    simp only
    omega

/-- The first pass accounts for all definitions. -/
theorem accounts_anywhere (s : List Char) :
    Text.Accounts (Pattern.reader ⟨Placing.anywhere.body, 1⟩) s startOf (Due s) where
  hit := by
    intro nonempty c n t hc h
    obtain ⟨start, blanks, rest, hassigns, hstart, hdue, hfirst, hlength, hoffset⟩ :=
      exists_start_of_reader hc h
    have hle : c.offset ≤ start.1 := by
      rcases hdue.2 with hlt | ⟨heq, -⟩
      · exact Nat.le_of_lt hlt
      · exact Nat.le_of_eq heq.symm
    have hadvance := Cursor.offset_advance hlength
    refine ⟨by omega, hlength, fun other => ?_⟩
    rw [hstart]
    constructor
    · intro hother
      rcases Nat.lt_or_eq_of_le (hfirst other hother) with hlt | heq
      · rcases hother.1.outside hassigns with hbefore | hbehind
        · omega
        · exact .inr ⟨hother.1, .inl (by omega)⟩
      · obtain ⟨blanks', rest', hassigns'⟩ := hother.1.assigns
        rw [← heq] at hassigns'
        exact .inl (Prod.ext heq.symm (hassigns'.name_eq hassigns))
    · rintro (rfl | ⟨hother, hplace⟩)
      · exact hdue
      · exact ⟨hother, .inl (by omega)⟩
  miss := by
    intro nonempty c hc h start
    rw [reader_eq, Option.map_eq_none_iff] at h
    exact due_of_not_found hc h start

/-- The starts of definitions that the first pass finds, in their order. -/
def starts (s : List Char) : List (Nat × List Char) :=
  (Pattern.occurrences ⟨Placing.anywhere.body, 1⟩ s).map startOf

theorem mem_starts_iff {start : Nat × List Char} :
    start ∈ starts s ↔ StartsAt s start.1 start.2 := by
  have hmem : start ∈ (Text.hitsFrom (Pattern.reader ⟨Placing.anywhere.body, 1⟩)
      (2 * s.length + 2) false (Cursor.start s)).map startOf ↔ Due s (Cursor.start s) start :=
    (accounts_anywhere s).mem_hitsFrom (Cursor.within_start s)
      (by simp only [Cursor.start]; omega) start
  rw [starts, Pattern.occurrences, Text.hits, hmem]
  constructor
  · exact And.left
  · intro h
    refine ⟨h, ?_⟩
    rcases Nat.eq_zero_or_pos start.1 with hzero | hpos
    · exact .inr ⟨hzero, rfl⟩
    · exact .inl hpos

theorem pairwise_starts (s : List Char) : (starts s).Pairwise fun a b => a.1 < b.1 := by
  refine (accounts_anywhere s).pairwise_hitsFrom ?_ (Cursor.within_start s)
    (by simp only [Cursor.start]; omega)
  intro nonempty c n t hc h other hother
  obtain ⟨start, blanks, rest, -, hstart, -, -, -, hoffset⟩ := exists_start_of_reader hc h
  rw [hstart]
  rcases hother.2 with hlt | ⟨heq, -⟩ <;> omega

/-- The starts of definitions, listed in their order, are what the first pass finds. -/
theorem starts_eq_of_mem_iff {list : List (Nat × List Char)} (horder : list.Pairwise fun a b => a.1 < b.1)
    (hmem : ∀ start, start ∈ list ↔ StartsAt s start.1 start.2) : starts s = list := by
  have : Std.Irrefl fun a b : Nat × List Char => a.1 < b.1 := ⟨fun a => Nat.lt_irrefl a.1⟩
  have : IsTrans (Nat × List Char) fun a b => a.1 < b.1 := ⟨fun _ _ _ => Nat.lt_trans⟩
  exact (pairwise_starts s).eq_of_mem_iff horder fun start => mem_starts_iff.trans (hmem start).symm

/-! ### Both passes -/

/-- The definition that starts at an offset. -/
def definitionOf (content : List Char) (file : String) (start : Nat × List Char) : Definition :=
  let p := Text.Position.ofOffset content start.1
  ⟨String.ofList start.2, file, p.line, p.column⟩

/-- Each pass only comes across definitions. -/
theorem startsAt_of_mem_occurrences {placing : Placing} {content : List Char}
    {hit : Hit Regex.State} (h : hit ∈ Pattern.occurrences ⟨placing.body, 1⟩ content)
    (prefixes : List String) (file : String) :
    StartsAt content (startOf hit).1 (startOf hit).2 ∧
      definitionAt content prefixes file hit =
        if startsWithAny prefixes (startOf hit).2 then some (definitionOf content file (startOf hit))
        else none := by
  obtain ⟨nonempty, c, hc, hoffset, hread⟩ :=
    Text.exists_read_of_mem_hitsFrom (Cursor.within_start content) h
  rw [reader_eq, Option.map_eq_some_iff] at hread
  obtain ⟨t, hfound, heq⟩ := hread
  rw [(Prod.mk.inj heq).2] at hfound
  obtain ⟨d, hd, hfound, hplaced⟩ : ∃ d : Cursor, d.Within content ∧ found d = some hit.value ∧
      ∀ name blanks rest, AssignsWith (content.drop d.offset) name blanks rest →
        StartsAt content d.offset name := by
    cases placing with
    | anywhere =>
      obtain ⟨d, hd, -, hfound, hdue⟩ := due_of_found hc hfound
      exact ⟨d, hd, hfound, fun name blanks rest hassigns => (hdue name blanks rest hassigns).1.1⟩
    | firstColumn =>
      rw [Placing.found?, Option.ite_none_right_eq_some] at hfound
      exact ⟨c, hc, hfound.2, fun name blanks rest hassigns =>
        ⟨⟨blanks, rest, hassigns⟩, placed_of_lineStart hc hfound.1⟩⟩
  obtain ⟨name, blanks, rest, hassigns, -, -, hkept, htext⟩ := exists_assignsWith_of_found hd hfound
  have hstart : startOf hit = (d.offset, name) := by
    simp only [startOf, hkept, htext]
    rfl
  refine ⟨hstart ▸ hplaced name blanks rest hassigns, ?_⟩
  obtain ⟨x, xs, rfl, -⟩ := hassigns.isName
  simp only [definitionAt, htext, hkept, hstart]
  rfl

/-- The first pass finds the definitions with one of the prefixes. -/
theorem definitionsOf_anywhere (content : List Char) (prefixes : List String) (file : String) :
    definitionsOf content prefixes file .anywhere =
      ((starts content).filter fun start => startsWithAny prefixes start.2).map
        (definitionOf content file) := by
  have hhits : ∀ hits : List (Hit Regex.State),
      (∀ hit ∈ hits, definitionAt content prefixes file hit =
        if startsWithAny prefixes (startOf hit).2 then some (definitionOf content file (startOf hit))
        else none) →
      hits.filterMap (definitionAt content prefixes file) =
        ((hits.map startOf).filter fun start => startsWithAny prefixes start.2).map
          (definitionOf content file) := by
    intro hits hall
    induction hits with
    | nil => rfl
    | cons hit hits ih =>
      rw [List.forall_mem_cons] at hall
      rw [List.filterMap_cons, hall.1, List.map_cons, List.filter_cons]
      split <;> simp_all
  rw [definitionsOf, compile_eq]
  exact hhits _ fun hit h => (startsAt_of_mem_occurrences h prefixes file).2

/-- The second pass finds nothing new. -/
theorem definitionsOf_firstColumn_subset {content : List Char} {prefixes : List String}
    {file : String} {d : Definition} (h : d ∈ definitionsOf content prefixes file .firstColumn) :
    d ∈ definitionsOf content prefixes file .anywhere := by
  rw [definitionsOf, compile_eq] at h
  obtain ⟨hit, hhit, hd⟩ := List.mem_filterMap.mp h
  obtain ⟨hstarts, hdefinition⟩ := startsAt_of_mem_occurrences hhit prefixes file
  rw [hdefinition, Option.ite_none_right_eq_some] at hd
  rw [definitionsOf_anywhere, List.mem_map]
  exact ⟨startOf hit, List.mem_filter.mpr ⟨mem_starts_iff.mpr hstarts, hd.1⟩,
    Option.some.inj hd.2⟩

/-- A definition starts in the text. -/
theorem StartsAt.lt_length {i : Nat} (h : StartsAt s i name) : i < s.length := by
  obtain ⟨blanks, rest, hassigns⟩ := h.assigns
  obtain ⟨x, hx, -⟩ := hassigns.getElem?_zero
  rw [List.getElem?_drop] at hx
  exact (List.getElem?_eq_some_iff.mp hx).1

/-- Definitions that start at different offsets are different. -/
theorem nodup_definitionsOf (content : List Char) (prefixes : List String) (file : String) :
    (definitionsOf content prefixes file .anywhere).Nodup := by
  rw [definitionsOf_anywhere, List.Nodup, List.pairwise_map]
  have hpairwise := (pairwise_starts content).filter fun start => startsWithAny prefixes start.2
  refine hpairwise.imp_of_mem fun {a b} ha hb hlt heq => ?_
  have hstart := mem_starts_iff.mp (List.mem_filter.mp ha).1
  have hstart' := mem_starts_iff.mp (List.mem_filter.mp hb).1
  have hposition : Text.Position.ofOffset content a.1 = Text.Position.ofOffset content b.1 := by
    obtain ⟨-, -, hline, hcolumn⟩ := Definition.mk.inj heq
    exact Text.Position.eq_of_reported hline hcolumn
  have hoffset := Text.Position.ofOffset_injective (Nat.le_of_lt hstart.lt_length)
    (Nat.le_of_lt hstart'.lt_length) hposition
  omega

/-- Definitions are those that the first pass comes across. -/
theorem definitions_eq_map (content : List Char) (prefixes : List String) (file : String) :
    definitions content prefixes file =
      ((starts content).filter fun start => startsWithAny prefixes start.2).map
        (definitionOf content file) := by
  rw [definitions, List.flatMap_cons, List.flatMap_cons, List.flatMap_nil, List.append_nil,
    distinct_append_of_subset (nodup_definitionsOf content prefixes file)
      fun d => definitionsOf_firstColumn_subset,
    definitionsOf_anywhere]

/-- A definition starts at an offset of a text: there is a name that is as long as possible and has
one of the prefixes, it is given a value, and it is at the start of the text or behind a blank. -/
structure DefinesAt (content : List Char) (prefixes : List String) (i : Nat) (name : List Char) :
    Prop where
  /-- The name. -/
  isName : IsName name
  /-- No longer name is there. -/
  maximal : ∀ longer, IsName longer → longer <+: content.drop i → longer.length ≤ name.length
  /-- What is behind the name. -/
  given : ∃ blanks rest, content.drop i = name ++ (blanks ++ '=' :: rest) ∧
    ∀ b ∈ blanks, Text.isBlank b = true
  /-- What is before the name. -/
  placed : i = 0 ∨ ∃ b, content[i - 1]? = some b ∧ Text.isBlank b = true
  /-- What the name starts with. -/
  admitted : ∃ p ∈ prefixes, p.toList <+: name

/-- Behind the name of an assignment no name goes on. -/
theorem AssignsWith.maximal (h : AssignsWith s name blanks rest) {longer : List Char}
    (hlonger : IsName longer) (hbegins : longer <+: s) : longer.length ≤ name.length := by
  by_contra hlt
  obtain ⟨x, hx⟩ : ∃ x, longer[name.length]? = some x :=
    ⟨_, List.getElem?_eq_getElem (Nat.lt_of_not_le hlt)⟩
  have hmedial := hlonger.isMedial x (List.mem_of_getElem? hx)
  obtain ⟨behind, rfl⟩ := hbegins
  have hx' : (longer ++ behind)[name.length]? = some x :=
    (List.getElem?_append_left (Nat.lt_of_not_le hlt)).trans hx
  rcases h.getElem?_cases hx' (Nat.le_add_right _ _) with ⟨hlt', -⟩ | ⟨-, -, hmem⟩ | ⟨-, rfl⟩
  · exact Nat.lt_irrefl _ hlt'
  · exact Bool.false_ne_true (hmedial.not_blank.symm.trans (h.blanks x hmem))
  · exact hmedial.ne_equals rfl

theorem definesAt_iff {content : List Char} {prefixes : List String} :
    DefinesAt content prefixes i name ↔
      StartsAt content i name ∧ startsWithAny prefixes name = true := by
  rw [startsWithAny_iff]
  constructor
  · rintro ⟨hname, -, ⟨blanks, rest, heq, hblanks⟩, hplaced, hbegins⟩
    exact ⟨⟨⟨blanks, rest, heq, hname, hblanks⟩, hplaced⟩, hbegins⟩
  · rintro ⟨⟨⟨blanks, rest, hassigns⟩, hplaced⟩, hbegins⟩
    exact ⟨hassigns.isName, fun longer => hassigns.maximal,
      ⟨blanks, rest, hassigns.eq, hassigns.blanks⟩, hplaced, hbegins⟩

/-- The definitions in a text are those that start at some offset, each once and in the order of
their offsets. The second pass adds nothing to those that the first one finds. -/
theorem definitions_eq (content : List Char) (prefixes : List String) (file : String) :
    ∃ sites : List (Nat × List Char),
      definitions content prefixes file = sites.map (definitionOf content file) ∧
      (∀ i name, (i, name) ∈ sites ↔ DefinesAt content prefixes i name) ∧
      sites.Pairwise (fun a b => a.1 < b.1) ∧
      (definitions content prefixes file).Nodup ∧
      definitions content prefixes file = definitionsOf content prefixes file .anywhere := by
  have hfirst : definitions content prefixes file =
      definitionsOf content prefixes file .anywhere := by
    rw [definitions, List.flatMap_cons, List.flatMap_cons, List.flatMap_nil, List.append_nil]
    exact distinct_append_of_subset (nodup_definitionsOf content prefixes file)
      fun d => definitionsOf_firstColumn_subset
  refine ⟨_, hfirst.trans (definitionsOf_anywhere content prefixes file), fun i name => ?_,
    (pairwise_starts content).filter _, ?_, hfirst⟩
  · rw [definesAt_iff, List.mem_filter, mem_starts_iff]
  · rw [hfirst]
    exact nodup_definitionsOf content prefixes file

/-- A name may stand on another line than its equals sign, and the next one behind its value. -/
example : definitions "A\n=1 B =2".toList ["A", "B"] "f" =
    [⟨"A", "f", 1, 1⟩, ⟨"B", "f", 2, 4⟩] := by
  decide +kernel

end FlagAudit.Detect
