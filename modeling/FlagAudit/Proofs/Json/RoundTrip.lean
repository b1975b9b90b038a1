import Mathlib.Algebra.Order.BigOperators.Group.List
import Mathlib.Algebra.Order.Group.Nat
import FlagAudit.Proofs.Json.Scalars
import FlagAudit.Text.Newlines

/-!
# JSON values, written and read

A value that is written in either layout is read back, with nothing left over and nothing changed, unless it
holds a whole number with more digits than the reader accepts; the first such number decides then
(`readUpTo_render`). A reader with a limit that is large enough tells all values apart, so no two values are
written in the same way (`render_injective`).
-/

namespace FlagAudit.Json

open Text (digitCount)

variable {s rest : List Char} {limit fuel depth : Nat} {layout : Layout}

/-- Induction over the values inside a value. -/
@[elab_as_elim]
theorem induct {motive : Json → Prop} (null : motive .null) (bool : ∀ b, motive (.bool b))
    (int : ∀ n, motive (.int n)) (float : ∀ zero, motive (.float zero))
    (string : ∀ s, motive (.string s))
    (array : ∀ items : List Json, (∀ x ∈ items, motive x) → motive (.array items))
    (object : ∀ fields : List (String × Json), (∀ f ∈ fields, motive f.2) → motive (.object fields)) :
    ∀ v, motive v
  | .null => null
  | .bool b => bool b
  | .int n => int n
  | .float zero => float zero
  | .string s => string s
  | .array items => array items fun x hx =>
      have : sizeOf x < 1 + sizeOf items := by
        have hlt := List.sizeOf_lt_of_mem hx
        omega
      induct null bool int float string array object x
  | .object fields => object fields fun f hf =>
      have : sizeOf f.2 < 1 + sizeOf fields := by
        have hlt := List.sizeOf_lt_of_mem hf
        obtain ⟨key, value⟩ := f
        rw [Prod.mk.sizeOf_spec] at hlt
        change sizeOf value < 1 + sizeOf fields
        omega
      induct null bool int float string array object f.2

/-! ### The whole numbers in a value -/

theorem integersOfFields_cons (f : String × Json) (fs : List (String × Json)) :
    integersOfFields (f :: fs) = integers f.2 ++ integersOfFields fs := by
  obtain ⟨key, value⟩ := f
  rw [integersOfFields, integersOfField]

/-- What is read first decides first. -/
theorem keeping_bind {α β : Type} {ns ms : List Int} {a : α} {b : β} {f : α → Except ReadError β}
    (h : f a = keeping limit ms b) : (keeping limit ns a >>= f) = keeping limit (ns ++ ms) b := by
  rw [keeping, keeping, List.find?_append]
  cases ns.find? fun n => limit < digitCount n with
  | none => exact h
  | some n => rfl

theorem keeping_map {α β : Type} {ns : List Int} {a : α} {b : β} {f : α → Except ReadError β}
    (h : f a = .ok b) : (keeping limit ns a >>= f) = keeping limit ns b := by
  have hread : (keeping limit ns a >>= f) = keeping limit (ns ++ []) b := keeping_bind h
  rwa [List.append_nil] at hread

/-- Nothing is refused exactly if no number has too many digits. -/
theorem keeping_eq_ok_iff {α : Type} {ns : List Int} {a : α} :
    keeping limit ns a = .ok a ↔ ∀ n ∈ ns, digitCount n ≤ limit := by
  rw [keeping]
  cases h : ns.find? fun n => limit < digitCount n with
  | none => simpa using h
  | some n =>
    have hmem := List.mem_of_find?_eq_some h
    have hlimit := List.find?_some h
    rw [decide_eq_true_eq] at hlimit
    constructor
    · intro heq
      cases heq
    · intro hall
      exact absurd (hall n hmem) (Nat.not_le_of_lt hlimit)

/-! ### Blanks between values -/

theorem skipSpace_cons {c : Char} (h : isSpace c = false) (s : List Char) :
    skipSpace (c :: s) = c :: s := by
  rw [skipSpace, List.dropWhile_cons_of_neg (by rw [h]; exact Bool.false_ne_true)]

/-- The start of a new line is passed over. -/
theorem skipSpace_newline (layout : Layout) (depth : Nat) (s : List Char) :
    skipSpace (layout.newline depth ++ s) = skipSpace s := by
  have hall : ∀ c ∈ layout.newline depth, isSpace c = true := by
    intro c hc
    cases layout with
    | indented =>
      rcases List.mem_cons.mp hc with rfl | hc
      · rfl
      · rw [List.eq_of_mem_replicate hc]
        rfl
    | compact => cases hc
  rw [skipSpace, List.dropWhile_append_of_pos hall]
  rfl

theorem closes_nil : Closes [] := fun _ hc => nomatch hc

/-- What follows a value inside of brackets ends it. -/
theorem closes_cons {c : Char} (h : c = ',' ∨ c = ']' ∨ c = '\x7d' ∨ c = '\n') : Closes (c :: s) := by
  rintro _ ⟨⟩
  exact h

theorem closes_newline {c : Char} (h : c = ']' ∨ c = '\x7d') (layout : Layout) (depth : Nat) :
    Closes (layout.newline depth ++ c :: s) := by
  cases layout with
  | indented => exact closes_cons (.inr (.inr (.inr rfl)))
  | compact => exact closes_cons (.inr (h.elim .inl fun h => .inr (.inl h)))

/-! ### How a value starts -/

theorem toList_toString_int (n : Int) :
    (toString n).toList = (if n < 0 then ['-'] else []) ++ Nat.toDigits 10 n.natAbs := by
  rw [Int.toString_eq_repr]
  cases n with
  | ofNat m => simp [Int.repr, Nat.toList_repr]
  | negSucc m => simp [Int.repr, Nat.toList_repr, Int.negSucc_lt_zero]

/-- A number is written with digits and perhaps a sign. -/
theorem notMem_toString_int {c : Char} (hsign : c ≠ '-') (hdigit : c.isDigit = false) (n : Int) :
    c ∉ (toString n).toList := by
  have hdigits : c ∉ Nat.toDigits 10 n.natAbs := fun h =>
    Bool.false_ne_true (hdigit.symm.trans (Text.isDigit_of_mem_toDigits h))
  rw [toList_toString_int]
  split <;> simp [hdigits, hsign]

theorem exists_toDigits (n : Nat) : ∃ d ds, Nat.toDigits 10 n = d :: ds ∧ d.isDigit = true := by
  cases hds : Nat.toDigits 10 n with
  | nil => exact absurd hds Nat.toDigits_ne_nil
  | cons d ds => exact ⟨d, ds, rfl, Text.isDigit_of_mem_toDigits (hds ▸ List.mem_cons_self)⟩

/-- A value starts with a character that is neither a blank nor a closing bracket. -/
theorem exists_renderAt (layout : Layout) (depth : Nat) (v : Json) :
    ∃ c s, renderAt layout depth v = c :: s ∧ isSpace c = false ∧ c ≠ ']' := by
  have hdigit : ∀ c : Char, c.isDigit = true → isSpace c = false ∧ c ≠ ']' := by
    intro c hc
    refine ⟨?_, ?_⟩
    · rw [isSpace, Bool.or_eq_false_iff, Bool.or_eq_false_iff, Bool.or_eq_false_iff]
      refine ⟨⟨⟨?_, ?_⟩, ?_⟩, ?_⟩ <;> rw [beq_eq_false_iff_ne] <;> rintro rfl <;> cases hc
    · rintro rfl
      cases hc
  cases v with
  | null => exact ⟨_, _, rfl, rfl, by decide⟩
  | bool b => cases b <;> exact ⟨_, _, rfl, rfl, by decide⟩
  | int n =>
    rw [renderAt, toList_toString_int]
    split
    · exact ⟨_, _, rfl, rfl, by decide⟩
    · obtain ⟨d, ds, hds, hd⟩ := exists_toDigits n.natAbs
      exact ⟨d, ds, hds, hdigit d hd⟩
  | float zero => cases zero <;> exact ⟨_, _, rfl, rfl, by decide⟩
  | string s => exact ⟨_, _, rfl, rfl, by decide⟩
  | array items => cases items <;> exact ⟨_, _, rfl, rfl, by decide⟩
  | object fields => cases fields <;> exact ⟨_, _, rfl, rfl, by decide⟩

/-! ### Values without other values in them -/

theorem expect?_eq_none (word : String) {w c : Char} (hword : word.toList.head? = some w) (h : w ≠ c)
    (s : List Char) : expect? word (c :: s) = none := by
  cases hletters : word.toList with
  | nil =>
    rw [hletters] at hword
    cases hword
  | cons w' letters =>
    rw [hletters] at hword
    cases hword
    simp [expect?, hletters, h]

/-- A digit starts a number without a sign. -/
theorem readValue_digit {c : Char} (h : c.isDigit = true) :
    readValue limit (fuel + 1) (c :: s) = readMagnitude limit false (c :: s) := by
  have hne : ∀ x : Char, x.isDigit = false → x ≠ c := by
    rintro x hx rfl
    exact Bool.false_ne_true (hx.symm.trans h)
  have hother : ∀ x rest, x.isDigit = false → c :: s ≠ x :: rest := fun x rest hx heq =>
    hne x hx (List.head_eq_of_cons_eq heq).symm
  rw [readValue, expect?_eq_none "null" rfl (hne 'n' rfl),
    expect?_eq_none "true" rfl (hne 't' rfl),
    expect?_eq_none "false" rfl (hne 'f' rfl),
    expect?_eq_none "NaN" rfl (hne 'N' rfl),
    expect?_eq_none "Infinity" rfl (hne 'I' rfl),
    expect?_eq_none "-Infinity" rfl (hne '-' rfl)]
  all_goals exact fun rest => hother _ rest rfl

/-- A minus sign starts a number below zero. -/
theorem readValue_minus {c : Char} (h : c.isDigit = true) :
    readValue limit (fuel + 1) ('-' :: c :: s) = readMagnitude limit true (c :: s) := by
  have hinfinity : expect? "-Infinity" ('-' :: c :: s) = none := by
    have hne : c ≠ 'I' := by
      rintro rfl
      cases h
    simp [expect?, hne.symm]
  rw [readValue, expect?_eq_none "null" rfl (by decide),
    expect?_eq_none "true" rfl (by decide),
    expect?_eq_none "false" rfl (by decide),
    expect?_eq_none "NaN" rfl (by decide),
    expect?_eq_none "Infinity" rfl (by decide), hinfinity]

/-! ### Values -/

/-- A value is read back with what follows it, given enough fuel. -/
def ReadsBack (limit : Nat) (layout : Layout) (v : Json) : Prop :=
  ∀ depth fuel rest, Closes rest → 2 * (renderAt layout depth v).length ≤ fuel →
    readValue limit fuel (renderAt layout depth v ++ rest) = keeping limit v.integers (v, rest)

/-- A value takes up fuel, as it is not written as nothing. -/
theorem ReadsBack.of_succ {v : Json}
    (h : ∀ depth fuel rest, Closes rest → 2 * (renderAt layout depth v).length ≤ fuel + 1 →
      readValue limit (fuel + 1) (renderAt layout depth v ++ rest) = keeping limit v.integers (v, rest)) :
    ReadsBack limit layout v := by
  intro depth fuel rest hrest hfuel
  cases fuel with
  | zero =>
    obtain ⟨c, s, hstart, -⟩ := exists_renderAt layout depth v
    rw [hstart, List.length_cons] at hfuel
    omega
  | succ fuel => exact h depth fuel rest hrest hfuel

theorem readsBack_int (n : Int) : ReadsBack limit layout (.int n) := by
  refine .of_succ fun depth fuel rest hrest _ => ?_
  obtain ⟨d, ds, hds, hd⟩ := exists_toDigits n.natAbs
  have hread := readMagnitude_digits limit (decide (n < 0)) n.natAbs hrest
  have hvalue : (if decide (n < 0) = true then -(n.natAbs : Int) else n.natAbs) = n := by
    split
    · next h => have := of_decide_eq_true h; omega
    · next h => have := of_decide_eq_false (Bool.eq_false_of_not_eq_true h); omega
  rw [hvalue, hds, List.cons_append] at hread
  rw [renderAt, toList_toString_int, hds]
  split
  · next h =>
    rw [decide_eq_true h] at hread
    exact (readValue_minus hd).trans hread
  · next h =>
    rw [decide_eq_false h] at hread
    exact (readValue_digit hd).trans hread

theorem readsBack_float (zero : Bool) : ReadsBack limit layout (.float zero) := by
  refine .of_succ fun depth fuel rest hrest _ => ?_
  have hread := readMagnitude_float limit zero hrest
  cases zero <;> exact (readValue_digit rfl).trans hread

theorem readsBack_string (s : String) : ReadsBack limit layout (.string s) := by
  refine .of_succ fun depth fuel rest hrest _ => ?_
  rw [renderAt, renderText, List.append_assoc, List.cons_append, List.singleton_append, readValue,
    readText_escaped]
  simp only [String.ofList_toList]
  rfl

/-- A value does not start with blanks. -/
theorem skipSpace_renderAt (layout : Layout) (depth : Nat) (v : Json) (rest : List Char) :
    skipSpace (renderAt layout depth v ++ rest) = renderAt layout depth v ++ rest := by
  obtain ⟨c, s, hstart, hspace, -⟩ := exists_renderAt layout depth v
  rw [hstart, List.cons_append, skipSpace_cons hspace]

/-- The items of a list are read back one after the other. -/
theorem readItems_render {x : Json} {xs : List Json} (h : ∀ y ∈ x :: xs, ReadsBack limit layout y)
    (outer : Nat) (hfuel : 2 * ((renderAt layout depth x).length + (renderItems layout depth xs).length) < fuel) :
    readItems limit fuel (renderAt layout depth x ++ (renderItems layout depth xs ++
        (layout.newline outer ++ ']' :: rest))) =
      keeping limit (integersOfItems (x :: xs)) (x :: xs, rest) := by
  induction xs generalizing x fuel with
  | nil =>
    obtain ⟨fuel, rfl⟩ := Nat.exists_eq_succ_of_ne_zero (Nat.ne_of_gt (Nat.zero_lt_of_lt hfuel))
    rw [renderItems, List.nil_append, readItems, h x List.mem_cons_self _ _ _
      (closes_newline (.inl rfl) layout outer) (by omega)]
    refine keeping_bind ?_
    simp only [skipSpace_newline, skipSpace_cons (by rfl : isSpace ']' = false)]
    rfl
  | cons y ys ih =>
    obtain ⟨hx, hys⟩ := List.forall_mem_cons.mp h
    obtain ⟨fuel, rfl⟩ := Nat.exists_eq_succ_of_ne_zero (Nat.ne_of_gt (Nat.zero_lt_of_lt hfuel))
    simp only [renderItems, List.cons_append, List.append_assoc, List.length_cons,
      List.length_append] at hfuel ⊢
    rw [readItems, hx _ _ _ (closes_cons (.inl rfl)) (by omega)]
    refine keeping_bind ?_
    simp only [skipSpace_cons (by rfl : isSpace ',' = false), skipSpace_newline, skipSpace_renderAt]
    rw [ih hys (by omega)]
    exact keeping_map rfl

/-- A colon stands between a key and its value, and blanks at most. -/
theorem exists_colon (layout : Layout) (s : List Char) :
    ∃ behind, layout.colon ++ s = ':' :: behind ∧ skipSpace behind = skipSpace s := by
  cases layout
  · exact ⟨' ' :: s, rfl, rfl⟩
  · exact ⟨s, rfl, rfl⟩

/-- A field is written as its key and its value. -/
theorem renderField_append (layout : Layout) (depth : Nat) (f : String × Json) (s : List Char) :
    renderField layout depth f ++ s = '"' :: (f.1.toList.flatMap escape ++
      '"' :: (layout.colon ++ (renderAt layout depth f.2 ++ s))) := by
  obtain ⟨key, value⟩ := f
  simp [renderField, renderText]

theorem skipSpace_renderField (layout : Layout) (depth : Nat) (f : String × Json) (s : List Char) :
    skipSpace (renderField layout depth f ++ s) = renderField layout depth f ++ s := by
  rw [renderField_append, skipSpace_cons rfl]

theorem length_renderAt_lt (layout : Layout) (depth : Nat) (f : String × Json) :
    (renderAt layout depth f.2).length < (renderField layout depth f).length := by
  have hlength := congrArg List.length (renderField_append layout depth f [])
  simp only [List.append_nil, List.length_cons, List.length_append] at hlength
  omega

/-- The fields of an object are read back one after the other. -/
theorem readFields_render {f : String × Json} {fs : List (String × Json)}
    (h : ∀ g ∈ f :: fs, ReadsBack limit layout g.2) (outer : Nat)
    (hfuel : 2 * ((renderField layout depth f).length + (renderFields layout depth fs).length) < fuel) :
    readFields limit fuel (renderField layout depth f ++ (renderFields layout depth fs ++
        (layout.newline outer ++ '\x7d' :: rest))) =
      keeping limit (integersOfFields (f :: fs)) (f :: fs, rest) := by
  rw [integersOfFields_cons]
  induction fs generalizing f fuel with
  | nil =>
    have hlength := length_renderAt_lt layout depth f
    obtain ⟨fuel, rfl⟩ := Nat.exists_eq_succ_of_ne_zero (Nat.ne_of_gt (Nat.zero_lt_of_lt hfuel))
    obtain ⟨behind, hcolon, hbehind⟩ := exists_colon layout
      (renderAt layout depth f.2 ++ (layout.newline outer ++ '\x7d' :: rest))
    rw [renderFields, List.nil_append, renderField_append, readFields, readText_escaped]
    simp only [hcolon, skipSpace_cons (by rfl : isSpace ':' = false), hbehind, skipSpace_renderAt]
    rw [h _ List.mem_cons_self _ _ _ (closes_newline (.inr rfl) layout outer) (by omega)]
    refine keeping_bind ?_
    simp only [skipSpace_newline, skipSpace_cons (by rfl : isSpace '\x7d' = false), String.ofList_toList]
    rfl
  | cons g gs ih =>
    obtain ⟨hf, hgs⟩ := List.forall_mem_cons.mp h
    have hlength := length_renderAt_lt layout depth f
    obtain ⟨fuel, rfl⟩ := Nat.exists_eq_succ_of_ne_zero (Nat.ne_of_gt (Nat.zero_lt_of_lt hfuel))
    simp only [renderFields, List.cons_append, List.append_assoc, List.length_cons,
      List.length_append] at hfuel ⊢
    obtain ⟨behind, hcolon, hbehind⟩ := exists_colon layout
      (renderAt layout depth f.2 ++ ',' :: (layout.newline depth ++ (renderField layout depth g ++
        (renderFields layout depth gs ++ (layout.newline outer ++ '\x7d' :: rest)))))
    rw [renderField_append, readFields, readText_escaped]
    simp only [hcolon, skipSpace_cons (by rfl : isSpace ':' = false), hbehind, skipSpace_renderAt]
    rw [hf _ _ _ (closes_cons (.inl rfl)) (by omega)]
    refine keeping_bind ?_
    simp only [skipSpace_cons (by rfl : isSpace ',' = false), skipSpace_newline, skipSpace_renderField]
    rw [ih hgs (by omega), integersOfFields_cons]
    exact keeping_map (by simp only [String.ofList_toList]; rfl)

theorem readsBack_array {items : List Json} (h : ∀ x ∈ items, ReadsBack limit layout x) :
    ReadsBack limit layout (.array items) := by
  refine .of_succ fun depth fuel rest _ hfuel => ?_
  cases items with
  | nil =>
    rw [renderAt, List.cons_append, List.singleton_append, readValue,
      skipSpace_cons (by rfl : isSpace ']' = false)]
    rfl
  | cons x xs =>
    obtain ⟨c, s, hstart, -, hbracket⟩ := exists_renderAt layout (depth + 1) x
    simp only [renderAt, List.cons_append, List.append_assoc, List.nil_append, List.length_cons,
      List.length_append] at hfuel ⊢
    rw [readValue, skipSpace_newline, skipSpace_renderAt]
    split
    · next heq =>
      rw [hstart] at heq
      exact absurd (List.head_eq_of_cons_eq heq) hbracket
    · rw [readItems_render h depth (by omega)]
      exact keeping_map rfl

theorem readsBack_object {fields : List (String × Json)} (h : ∀ f ∈ fields, ReadsBack limit layout f.2) :
    ReadsBack limit layout (.object fields) := by
  refine .of_succ fun depth fuel rest _ hfuel => ?_
  cases fields with
  | nil =>
    rw [renderAt, List.cons_append, List.singleton_append, readValue,
      skipSpace_cons (by rfl : isSpace '\x7d' = false)]
    rfl
  | cons f fs =>
    simp only [renderAt, List.cons_append, List.append_assoc, List.nil_append, List.length_cons,
      List.length_append] at hfuel ⊢
    rw [readValue, skipSpace_newline, skipSpace_renderField]
    split
    · next heq =>
      rw [renderField_append] at heq
      cases heq
    · rw [readFields_render h depth (by omega)]
      exact keeping_map rfl

/-- Every value is read back. -/
theorem readsBack (limit : Nat) (layout : Layout) (v : Json) : ReadsBack limit layout v := by
  induction v using Json.induct with
  | null =>
    refine .of_succ fun depth fuel rest _ _ => ?_
    rfl
  | bool b =>
    refine .of_succ fun depth fuel rest _ _ => ?_
    cases b <;> rfl
  | int n => exact readsBack_int n
  | float zero => exact readsBack_float zero
  | string s => exact readsBack_string s
  | array items ih => exact readsBack_array ih
  | object fields ih => exact readsBack_object ih

/-! ### Documents -/

/-- A document with a value is read back. -/
theorem readUpTo_render (limit : Nat) (layout : Layout) (v : Json) :
    readUpTo limit (render layout v).toList = keeping limit v.integers v := by
  have hread := readsBack limit layout v 0 (2 * (renderAt layout 0 v).length + 2) [] closes_nil (by omega)
  have hspace := skipSpace_renderAt layout 0 v []
  rw [List.append_nil] at hread hspace
  rw [render, String.toList_ofList, readUpTo, hspace, hread]
  exact keeping_map rfl

/-- No two values are written in the same way. -/
theorem render_injective (layout : Layout) : Function.Injective (render layout) := by
  intro v w h
  -- A limit that all numbers in both values keep to.
  obtain ⟨limit, hlimit⟩ : ∃ limit, ∀ n ∈ v.integers ++ w.integers, digitCount n ≤ limit :=
    ⟨((v.integers ++ w.integers).map digitCount).sum, fun n hn => List.le_sum_of_mem (List.mem_map_of_mem hn)⟩
  have hv := (readUpTo_render limit layout v).trans
    (keeping_eq_ok_iff.mpr fun n hn => hlimit n (List.mem_append_left _ hn))
  have hw := (readUpTo_render limit layout w).trans
    (keeping_eq_ok_iff.mpr fun n hn => hlimit n (List.mem_append_right _ hn))
  rw [h, hw] at hv
  exact (Except.ok.inj hv).symm

/-! ### Line endings -/

/-- A carriage return is written by its escape. -/
theorem return_not_mem_escape (c : Char) : '\r' ∉ escape c := by
  have hhex : ∀ n < 32, '\r' ∉ Text.Quoted.hex 4 n := by decide
  rw [escape]
  split
  · next h =>
    rw [Bool.or_eq_true, beq_iff_eq, beq_iff_eq] at h
    rcases h with rfl | rfl <;> decide
  split
  · decide
  split
  · decide
  · next hreturn =>
    rw [beq_iff_eq] at hreturn
    split
    · decide
    split
    · decide
    split
    · decide
    split
    · next hlt => simpa using hhex _ hlt
    · simpa using Ne.symm hreturn

theorem return_not_mem_renderText (s : String) : '\r' ∉ renderText s := by
  simp [renderText, return_not_mem_escape]

theorem return_not_mem_newline (layout : Layout) (depth : Nat) : '\r' ∉ layout.newline depth := by
  cases layout <;> simp [Layout.newline]

theorem return_not_mem_renderItems {xs : List Json}
    (h : ∀ x ∈ xs, ∀ depth, '\r' ∉ renderAt layout depth x) (depth : Nat) :
    '\r' ∉ renderItems layout depth xs := by
  induction xs with
  | nil => simp [renderItems]
  | cons x xs ih =>
    rw [List.forall_mem_cons] at h
    simp [renderItems, return_not_mem_newline, h.1, ih h.2]

theorem return_not_mem_renderField {f : String × Json} (h : ∀ depth, '\r' ∉ renderAt layout depth f.2)
    (depth : Nat) : '\r' ∉ renderField layout depth f := by
  obtain ⟨key, value⟩ := f
  cases layout <;> simp [renderField, return_not_mem_renderText, Layout.colon, h]

theorem return_not_mem_renderFields {fs : List (String × Json)}
    (h : ∀ f ∈ fs, ∀ depth, '\r' ∉ renderAt layout depth f.2) (depth : Nat) :
    '\r' ∉ renderFields layout depth fs := by
  induction fs with
  | nil => simp [renderFields]
  | cons f fs ih =>
    rw [List.forall_mem_cons] at h
    simp [renderFields, return_not_mem_newline, return_not_mem_renderField h.1, ih h.2]

/-- A value is written without a carriage return. -/
theorem return_not_mem_renderAt (layout : Layout) (v : Json) (depth : Nat) :
    '\r' ∉ renderAt layout depth v := by
  induction v using Json.induct generalizing depth with
  | null => simp [renderAt]
  | bool b => cases b <;> simp [renderAt]
  | int n =>
    rw [renderAt]
    exact notMem_toString_int (by decide) (by decide) n
  | float zero => cases zero <;> simp [renderAt]
  | string s => exact return_not_mem_renderText s
  | array items ih =>
    cases items with
    | nil => simp [renderAt]
    | cons x xs =>
      rw [List.forall_mem_cons] at ih
      simp [renderAt, return_not_mem_newline, ih.1, return_not_mem_renderItems ih.2]
  | object fields ih =>
    cases fields with
    | nil => simp [renderAt]
    | cons f fs =>
      rw [List.forall_mem_cons] at ih
      simp [renderAt, return_not_mem_newline, return_not_mem_renderField ih.1,
        return_not_mem_renderFields ih.2]

/-- Reading a file does not change what has been written. -/
theorem unifyNewlines_render (layout : Layout) (v : Json) :
    Text.unifyNewlines (render layout v).toList = (render layout v).toList := by
  rw [render, String.toList_ofList]
  exact Text.unifyNewlines_eq_self (return_not_mem_renderAt layout v 0)

end FlagAudit.Json
