import Mathlib.Data.List.TakeWhile
import FlagAudit.Detect.Definitions
import FlagAudit.Proofs.Regex.Greedy

/-!
# Names that are given a value

Both patterns of definitions end with an upper-case name, blanks and an equals sign. There is one way
only to go through them: no name goes on with a blank or an equals sign, and no blank is an equals
sign, so neither the name nor the blanks behind it can stop early.
-/

namespace FlagAudit.Detect

open Regex (Single SetItem Continue run)
open Text (Cursor)

/-! ### The patterns -/

/-- The characters that a name starts with. -/
def initial : Single := .oneOf [.range 65 90, .code 95] false ⟨false, false⟩

/-- The characters that a name goes on with. -/
def medial : Single := .oneOf [.range 65 90, .range 48 57, .code 95] false ⟨false, false⟩

/-- The blanks. -/
def blank : Single := .oneOf [.kind .blank false] false ⟨false, false⟩

/-- The equals sign. -/
def equals : Single := .oneOf [.code 61] false ⟨false, false⟩

/-- Blanks and an equals sign. -/
def givesValue : Regex := .concat (.repeated (.single blank) 0 none .most) (.single equals)

/-- A name, kept as the first group, that is given a value. -/
def assignment : Regex :=
  .concat (.group 1 (.concat (.single initial) (.repeated (.single medial) 0 none .most))) givesValue

/-- What a pass searches for. -/
def Placing.body : Placing → Regex
  | .anywhere => .concat (.either (.anchor .lineStart) (.single blank)) assignment
  | .firstColumn => .concat (.anchor .lineStart) assignment

theorem eq_ok_of_toOption {α β : Type} {x : Except α β} {b : β} (h : x.toOption = some b) :
    x = .ok b := by
  cases x with
  | error => cases h
  | ok => exact congrArg Except.ok (Option.some.inj h)

/-- Both patterns are well formed. -/
theorem compile_eq (placing : Placing) : placing.compile = .ok ⟨placing.body, 1⟩ := by
  refine eq_ok_of_toOption ?_
  cases placing <;> decide +kernel

/-! ### The characters of a definition -/

/-- Whether a name can start with the character. -/
def IsInitial (c : Char) : Prop := c.isUpper = true ∨ c = '_'

/-- Whether a name can go on with the character. -/
def IsMedial (c : Char) : Prop := c.isUpper = true ∨ c.isDigit = true ∨ c = '_'

theorem isUpper_iff {c : Char} : c.isUpper = true ↔ 65 ≤ c.toNat ∧ c.toNat ≤ 90 := by
  change decide (c.val ≥ 'A'.val ∧ c.val ≤ 'Z'.val) = true ↔ _
  rw [decide_eq_true_eq, ge_iff_le, UInt32.le_iff_toNat_le, UInt32.le_iff_toNat_le]
  exact Iff.rfl

theorem accepts_initial {c : Char} : initial.accepts c = true ↔ IsInitial c := by
  rw [IsInitial, isUpper_iff, ← Char.toNat_inj]
  simp [initial, Single.accepts, SetItem.accepts, SetItem.has]

theorem accepts_medial {c : Char} : medial.accepts c = true ↔ IsMedial c := by
  rw [IsMedial, isUpper_iff, Char.isDigit_iff_toNat, ← Char.toNat_inj]
  simp [medial, Single.accepts, SetItem.accepts, SetItem.has]

theorem accepts_blank (c : Char) : blank.accepts c = Text.isBlank c := by
  simp [blank, Single.accepts, SetItem.accepts, SetItem.has, Regex.CharKind.holds]

theorem accepts_equals {c : Char} : equals.accepts c = true ↔ c = '=' := by
  rw [← Char.toNat_inj]
  simp [equals, Single.accepts, SetItem.accepts, SetItem.has]

theorem IsInitial.isMedial {c : Char} (h : IsInitial c) : IsMedial c := h.imp_right .inr

/-- A character of a name is no blank. -/
theorem IsMedial.not_blank {c : Char} (h : IsMedial c) : Text.isBlank c = false := by
  rw [IsMedial, isUpper_iff, Char.isDigit_iff_toNat, ← Char.toNat_inj] at h
  have hlow : '_'.toNat = 95 := rfl
  have hzero : '0'.toNat = 48 := rfl
  have hnine : '9'.toNat = 57 := rfl
  have hlt : c.toNat < 128 := by omega
  simp only [Text.isBlank, hlt, if_true]
  rw [← Bool.not_eq_true, Bool.or_eq_true, Bool.and_eq_true, Bool.and_eq_true]
  simp only [decide_eq_true_eq]
  omega

/-- A character of a name is no equals sign. -/
theorem IsMedial.ne_equals {c : Char} (h : IsMedial c) : c ≠ '=' := by
  rintro rfl
  rw [← accepts_medial] at h
  revert h
  decide

/-! ### Names that are given a value -/

/-- An upper-case name. -/
def IsName (name : List Char) : Prop :=
  ∃ c cs, name = c :: cs ∧ IsInitial c ∧ ∀ d ∈ cs, IsMedial d

/-- A text begins with a name, and blanks and an equals sign come behind it. -/
structure AssignsWith (s name blanks rest : List Char) : Prop where
  /-- The whole text. -/
  eq : s = name ++ (blanks ++ '=' :: rest)
  /-- The name. -/
  isName : IsName name
  /-- The blanks. -/
  blanks : ∀ b ∈ blanks, Text.isBlank b = true

theorem IsName.isMedial {name : List Char} (h : IsName name) : ∀ c ∈ name, IsMedial c := by
  obtain ⟨c, cs, rfl, hc, hcs⟩ := h
  exact List.forall_mem_cons.mpr ⟨hc.isMedial, hcs⟩

/-- What begins a text as long as a condition holds ends where the condition fails. -/
theorem takeWhile_append_stop {p : Char → Bool} {piece : List Char} {x : Char} {rest : List Char}
    (hpiece : ∀ c ∈ piece, p c = true) (hx : p x = false) :
    (piece ++ x :: rest).takeWhile p = piece ∧ (piece ++ x :: rest).dropWhile p = x :: rest := by
  rw [List.takeWhile_append_of_pos hpiece, List.dropWhile_append_of_pos hpiece,
    List.takeWhile_cons_of_neg (by simp [hx]), List.dropWhile_cons_of_neg (by simp [hx])]
  exact ⟨List.append_nil _, rfl⟩

/-- A name that is given a value ends where the blanks and the equals sign begin. -/
theorem medial_append_stop {p : Char → Bool} {cs blanks rest : List Char}
    (hp : ∀ c, p c = true ↔ IsMedial c) (hcs : ∀ d ∈ cs, IsMedial d)
    (hblanks : ∀ b ∈ blanks, Text.isBlank b = true) :
    (cs ++ (blanks ++ '=' :: rest)).takeWhile p = cs ∧
      (cs ++ (blanks ++ '=' :: rest)).dropWhile p = blanks ++ '=' :: rest := by
  have hchars : ∀ d ∈ cs, p d = true := fun d hd => (hp d).mpr (hcs d hd)
  cases blanks with
  | nil =>
    refine takeWhile_append_stop hchars ?_
    rw [← Bool.not_eq_true, hp]
    exact fun h => h.ne_equals rfl
  | cons b blanks =>
    refine takeWhile_append_stop hchars ?_
    rw [← Bool.not_eq_true, hp]
    intro hb
    exact Bool.false_ne_true (hb.not_blank.symm.trans (hblanks b List.mem_cons_self))

/-- The name that a text begins with and the blanks behind it, if it is given a value there. -/
def assigned? : List Char → Option (List Char × List Char)
  | [] => none
  | c :: rest =>
    let behind := rest.dropWhile medial.accepts
    if initial.accepts c ∧ (behind.dropWhile Text.isBlank).head? = some '=' then
      some (c :: rest.takeWhile medial.accepts, behind.takeWhile Text.isBlank)
    else none

theorem assigned?_eq_some_iff {s name blanks : List Char} :
    assigned? s = some (name, blanks) ↔ ∃ rest, AssignsWith s name blanks rest := by
  constructor
  · intro h
    cases s with
    | nil => cases h
    | cons c s =>
      rw [assigned?] at h
      split at h
      · next hcond =>
        cases h
        obtain ⟨hc, hequals⟩ := hcond
        obtain ⟨rest, hrest⟩ := List.head?_eq_some_iff.mp hequals
        refine ⟨rest, ?_, ⟨c, _, rfl, accepts_initial.mp hc, fun d hd => ?_⟩, fun b hb => ?_⟩
        · rw [← hrest, List.takeWhile_append_dropWhile, List.cons_append,
            List.takeWhile_append_dropWhile]
        · exact accepts_medial.mp (List.mem_takeWhile_imp (p := fun x => medial.accepts x) hd)
        · exact List.mem_takeWhile_imp hb
      · cases h
  · rintro ⟨rest, rfl, ⟨c, cs, rfl, hc, hcs⟩, hblanks⟩
    have hequals : Text.isBlank '=' = false := by decide
    obtain ⟨htake, hdrop⟩ :
        (blanks ++ '=' :: rest).takeWhile Text.isBlank = blanks ∧
          (blanks ++ '=' :: rest).dropWhile Text.isBlank = '=' :: rest :=
      takeWhile_append_stop hblanks hequals
    obtain ⟨htake', hdrop'⟩ : (cs ++ (blanks ++ '=' :: rest)).takeWhile medial.accepts = cs ∧
        (cs ++ (blanks ++ '=' :: rest)).dropWhile medial.accepts = blanks ++ '=' :: rest :=
      medial_append_stop (fun _ => accepts_medial) hcs hblanks
    rw [List.cons_append, assigned?, htake', hdrop', htake, hdrop]
    exact if_pos ⟨accepts_initial.mpr hc, rfl⟩

/-! ### Going through the patterns -/

theorem drop_takeWhile (p : Char → Bool) (l : List Char) :
    l.drop (l.takeWhile p).length = l.dropWhile p := by
  conv_lhs => arg 2; rw [← List.takeWhile_append_dropWhile (p := p) (l := l)]
  exact List.drop_left

/-- Blanks and an equals sign are gone through if an equals sign is what comes behind the blanks. -/
theorem run_givesValue (s : Regex.State) (k : Continue) :
    run givesValue s k =
      if (s.cursor.after.dropWhile Text.isBlank).head? = some '=' then
        k { s with
          cursor := s.cursor.advance ((s.cursor.after.takeWhile Text.isBlank).length + 1) }
      else none := by
  have hblank : (fun c => blank.accepts c) = Text.isBlank := funext accepts_blank
  have hshort : ∀ n < (s.cursor.after.takeWhile blank.accepts).length,
      run (.single equals) { s with cursor := s.cursor.advance n } k = none := by
    intro n hn
    obtain ⟨x, rest, hdrop, hx⟩ := Regex.drop_eq_cons_of_lt_takeWhile hn
    rw [Regex.run_single ((Cursor.after_advance n s.cursor).trans hdrop), if_neg]
    rw [accepts_equals]
    rintro rfl
    rw [accepts_blank] at hx
    exact absurd hx (by decide)
  have hrun : run givesValue s k =
      run (.repeated (.single blank) 0 none .most) s fun t => run (.single equals) t k :=
    Regex.run_concat _ _
  rw [hrun, Regex.run_repeated_single hshort, hblank]
  cases hbehind : s.cursor.after.dropWhile Text.isBlank with
  | nil =>
    exact Regex.run_single_of_nil
      ((Cursor.after_advance _ _).trans ((drop_takeWhile _ _).trans hbehind))
  | cons x rest =>
    rw [Regex.run_single ((Cursor.after_advance _ _).trans ((drop_takeWhile _ _).trans hbehind)),
      Cursor.next_advance]
    simp only [accepts_equals, List.head?_cons, Option.some.injEq]

/-- Within a name nothing is given a value. -/
theorem run_givesValue_of_medial {s : Regex.State} {x : Char} {rest : List Char}
    (hafter : s.cursor.after = x :: rest) (hx : medial.accepts x = true) (k : Continue) :
    run givesValue s k = none := by
  rw [accepts_medial] at hx
  rw [run_givesValue, if_neg]
  rw [hafter, List.dropWhile_cons_of_neg (by simp [hx.not_blank])]
  simpa using hx.ne_equals

/-- The group of a name that starts at a cursor ends behind the last of its characters. -/
theorem leave_name {c : Cursor} {x : Char} {rest : List Char} {n : Nat} (hafter : c.after = x :: rest)
    (hn : n ≤ rest.length) :
    Regex.State.leave ⟨c.next.advance n, [(1, ⟨c.offset, none⟩)]⟩ 1 =
      ⟨c.next.advance n, [(1, ⟨c.offset, some (c.offset + (n + 1))⟩)]⟩ := by
  have hoffset : (c.advance (n + 1)).offset = c.offset + (n + 1) := by
    refine Cursor.offset_advance ?_
    rw [hafter, List.length_cons]
    exact Nat.succ_le_succ hn
  rw [← hoffset]
  rfl

/-- Where the search for a name that is given a value ends, if there is one at the cursor. -/
def found (c : Cursor) : Option Regex.State :=
  (assigned? c.after).map fun (name, blanks) =>
    ⟨c.advance (name.length + blanks.length + 1), [(1, ⟨c.offset, some (c.offset + name.length)⟩)]⟩

/-- A name that is given a value is gone through in one way only. -/
theorem run_assignment (c : Cursor) (k : Continue) :
    run assignment ⟨c, []⟩ k = (found c).bind k := by
  have hrun : run assignment ⟨c, []⟩ k = run (.single initial) ⟨c, [(1, ⟨c.offset, none⟩)]⟩
      fun t => run (.repeated (.single medial) 0 none .most) t fun t =>
        run givesValue (t.leave 1) k := by
    rw [assignment, Regex.run_concat, Regex.run_group, Regex.run_concat]
    rfl
  rw [hrun, found]
  cases hafter : c.after with
  | nil =>
    rw [Regex.run_single_of_nil hafter]
    rfl
  | cons x rest =>
    rw [Regex.run_single hafter]
    have hnext : c.next.after = rest := by
      rw [Cursor.next, hafter]
    have hshort : ∀ n < (c.next.after.takeWhile medial.accepts).length,
        run givesValue
          (Regex.State.leave ⟨c.next.advance n, [(1, ⟨c.offset, none⟩)]⟩ 1) k = none := by
      intro n hn
      obtain ⟨y, behind, hdrop, hy⟩ := Regex.drop_eq_cons_of_lt_takeWhile hn
      have hinside : (c.next.advance n).after = y :: behind := (Cursor.after_advance n c.next).trans hdrop
      exact run_givesValue_of_medial (s := Regex.State.leave ⟨c.next.advance n, _⟩ 1) hinside hy k
    rw [Regex.run_repeated_single hshort, run_givesValue, hnext, assigned?]
    set name := rest.takeWhile fun d => medial.accepts d with hname
    have hlength : name.length ≤ rest.length := (List.takeWhile_sublist _).length_le
    have hbehind : (c.next.advance name.length).after = rest.dropWhile fun d => medial.accepts d := by
      rw [Cursor.after_advance, hnext, hname, drop_takeWhile]
    rw [leave_name hafter hlength]
    simp only [hbehind]
    split
    · next hx =>
      split
      · next hequals =>
        rw [if_pos ⟨hx, hequals⟩, Option.map_some, Option.bind_some, Cursor.advance_advance]
        have hadvance : ∀ n, c.next.advance (name.length + (n + 1)) =
            c.advance ((x :: name).length + n + 1) := by
          intro n
          rw [List.length_cons, show name.length + 1 + n + 1 = name.length + (n + 1) + 1 by omega]
          rfl
        rw [hadvance]
        rfl
      · next hequals => rw [if_neg fun h => hequals h.2]; rfl
    · next hx => rw [if_neg fun h => hx h.1]; rfl

/-- What is found at a cursor. -/
theorem found_eq_some_iff {c : Cursor} {t : Regex.State} :
    found c = some t ↔ ∃ name blanks rest, AssignsWith c.after name blanks rest ∧
      t = ⟨c.advance (name.length + blanks.length + 1),
        [(1, ⟨c.offset, some (c.offset + name.length)⟩)]⟩ := by
  rw [found, Option.map_eq_some_iff]
  constructor
  · rintro ⟨⟨name, blanks⟩, hassigned, rfl⟩
    obtain ⟨rest, h⟩ := assigned?_eq_some_iff.mp hassigned
    exact ⟨name, blanks, rest, h, rfl⟩
  · rintro ⟨name, blanks, rest, h, rfl⟩
    exact ⟨(name, blanks), assigned?_eq_some_iff.mpr ⟨rest, h⟩, rfl⟩

/-- The search ends behind the equals sign. -/
theorem offset_of_assignsWith {c : Cursor} {name blanks rest : List Char}
    (h : AssignsWith c.after name blanks rest) :
    (c.advance (name.length + blanks.length + 1)).offset =
      c.offset + (name.length + blanks.length + 1) := by
  refine Cursor.offset_advance ?_
  rw [h.eq]
  simp only [List.length_append, List.length_cons]
  omega

/-- Where a pass ends if it finds something at a cursor. -/
def Placing.found? : Placing → Cursor → Option Regex.State
  | .firstColumn, c => if Regex.Anchor.lineStart.holds c then found c else none
  | .anywhere, c =>
    (if Regex.Anchor.lineStart.holds c then found c else none).or
      (if c.after.head?.any Text.isBlank then found c.next else none)

/-- What is found is never empty, so it does not matter whether it has to be. -/
theorem found_bind {c c' : Cursor} (h : c.offset ≤ c'.offset) (nonempty : Bool) :
    ((found c').bind fun t =>
      if nonempty && t.cursor.offset == c.offset then none else some t) = found c' := by
  cases hfound : found c' with
  | none => rfl
  | some t =>
    obtain ⟨name, blanks, rest, hassigns, rfl⟩ := found_eq_some_iff.mp hfound
    have hoffset := offset_of_assignsWith hassigns
    rw [Option.bind_some, if_neg]
    simp only [hoffset, Bool.and_eq_true, beq_iff_eq]
    omega

/-- A pass reads what it finds. -/
theorem reader_eq (placing : Placing) (nonempty : Bool) (c : Cursor) :
    Pattern.reader ⟨placing.body, 1⟩ nonempty c =
      (placing.found? c).map fun t => (t.cursor.offset - c.offset, t) := by
  suffices h : run placing.body ⟨c, []⟩ (fun t =>
      if nonempty && t.cursor.offset == c.offset then none else some t) = placing.found? c by
    rw [Pattern.reader, h]
    cases placing.found? c <;> rfl
  generalize hk : (fun t : Regex.State =>
    if nonempty && t.cursor.offset == c.offset then none else some t) = k
  have hcolumn : run (.anchor .lineStart) ⟨c, []⟩ (fun t => run assignment t k) =
      if Regex.Anchor.lineStart.holds c then found c else none := by
    rw [Regex.run_anchor, run_assignment, ← hk, found_bind (Nat.le_refl _)]
  cases placing with
  | firstColumn => rw [Placing.body, Regex.run_concat, hcolumn, Placing.found?]
  | anywhere =>
    rw [Placing.body, Regex.run_concat, Regex.run_either, hcolumn, Placing.found?]
    cases hfound : (if Regex.Anchor.lineStart.holds c then found c else none) with
    | some t => rfl
    | none =>
      rw [Option.none_or]
      cases hafter : c.after with
      | nil =>
        rw [Regex.run_single_of_nil hafter]
        rfl
      | cons x rest =>
        rw [Regex.run_single hafter, accepts_blank]
        change (if _ then run assignment ⟨c.next, []⟩ k else none) = _
        rw [run_assignment, ← hk, found_bind (Cursor.offset_le_next c)]
        rfl

end FlagAudit.Detect
