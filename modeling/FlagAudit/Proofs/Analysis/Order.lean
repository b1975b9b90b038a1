import Mathlib.Data.Prod.Lex
import Mathlib.Data.String.Basic
import FlagAudit.Analysis

/-!
# The order of findings

Findings are put in the order of their places, and those at the same place stay in the order in which
they came. There is one such order only (`StablySorted.unique`): the place tells which finding comes
first, and among those at the same place the list that they came in does. A list that came in another
order gives the same findings at each place, so only these can change places (`StablySorted.alike`).
-/

namespace FlagAudit.Analysis

/-! ### The order of places -/

/-- One place is another one or comes before it. Files are compared by the code points of their names,
then lines and then columns as numbers. -/
def Place.AtOrBefore (p q : Place) : Prop :=
  p.file < q.file ∨
    p.file = q.file ∧ (p.line < q.line ∨ p.line = q.line ∧ p.column ≤ q.column)

/-- A place as what it is compared by. -/
def Place.key (p : Place) : String ×ₗ (Int ×ₗ Int) := toLex (p.file, toLex (p.line, p.column))

theorem Place.atOrBefore_iff {p q : Place} : p.AtOrBefore q ↔ p.key ≤ q.key := by
  rw [key, key, Prod.Lex.toLex_le_toLex, Prod.Lex.toLex_le_toLex]
  exact Iff.rfl

theorem Place.le_iff {p q : Place} : p.le q = true ↔ p.AtOrBefore q := by
  rw [le, AtOrBefore]
  by_cases hfile : p.file = q.file
  · by_cases hline : p.line = q.line <;> simp [hfile, hline]
  · simp [hfile]

theorem Place.AtOrBefore.trans {p q r : Place} (h : p.AtOrBefore q) (h' : q.AtOrBefore r) :
    p.AtOrBefore r :=
  atOrBefore_iff.mpr ((atOrBefore_iff.mp h).trans (atOrBefore_iff.mp h'))

theorem Place.atOrBefore_total (p q : Place) : p.AtOrBefore q ∨ q.AtOrBefore p := by
  rw [atOrBefore_iff, atOrBefore_iff]
  exact le_total p.key q.key

theorem Place.AtOrBefore.refl (p : Place) : p.AtOrBefore p := atOrBefore_iff.mpr le_rfl

/-- No two places are each before the other. -/
theorem Place.AtOrBefore.antisymm {p q : Place} (h : p.AtOrBefore q) (h' : q.AtOrBefore p) :
    p = q := by
  have hkey : p.key = q.key := le_antisymm (atOrBefore_iff.mp h) (atOrBefore_iff.mp h')
  obtain ⟨hfile, hrest⟩ := Prod.mk.inj hkey
  obtain ⟨hline, hcolumn⟩ := Prod.mk.inj hrest
  cases p
  cases q
  simp_all

/-! ### Stable sorting -/

variable {α : Type} {place : α → Place} {l l' sorted sorted' : List α}

/-- A list is another one in the order of places. What stands at the same place has kept its order. -/
structure StablySorted (place : α → Place) (l sorted : List α) : Prop where
  /-- The elements. -/
  perm : sorted.Perm l
  /-- Their order. -/
  ordered : sorted.Pairwise fun a b => (place a).AtOrBefore (place b)
  /-- The elements at the same place. -/
  stable : ∀ p, sorted.filter (place · = p) = l.filter (place · = p)

/-- Lists in the order of places are the same if they have the same elements at each place, in the same
order. -/
theorem eq_of_filter_eq (hsorted : sorted.Pairwise fun a b => (place a).AtOrBefore (place b))
    (hsorted' : sorted'.Pairwise fun a b => (place a).AtOrBefore (place b))
    (h : ∀ p, sorted.filter (place · = p) = sorted'.filter (place · = p)) : sorted = sorted' := by
  induction sorted generalizing sorted' with
  | nil =>
    refine (List.eq_nil_iff_forall_not_mem.mpr fun a ha => ?_).symm
    have hnil : sorted'.filter (place · = place a) = [] := (h (place a)).symm
    simpa using List.filter_eq_nil_iff.mp hnil a ha
  | cons a rest ih =>
    have hmem : ∀ b, b ∈ a :: rest ↔ b ∈ sorted' := by
      intro b
      have hfilter : b ∈ (a :: rest).filter (place · = place b) ↔
          b ∈ sorted'.filter (place · = place b) := by rw [h]
      simpa [List.mem_filter] using hfilter
    cases sorted' with
    | nil => exact absurd ((hmem a).mp List.mem_cons_self) List.not_mem_nil
    | cons b rest' =>
      rw [List.pairwise_cons] at hsorted hsorted'
      -- Each of the two first elements is before the other one or at its place.
      have hfirst : ∀ {x y : α} {ys : List α}, (∀ z ∈ ys, (place y).AtOrBefore (place z)) →
          x ∈ y :: ys → (place y).AtOrBefore (place x) := by
        intro x y ys hys hx
        rcases List.mem_cons.mp hx with rfl | hx
        · exact .refl _
        · exact hys x hx
      have hplace : place a = place b :=
        (hfirst hsorted.1 ((hmem b).mpr List.mem_cons_self)).antisymm
          (hfirst hsorted'.1 ((hmem a).mp List.mem_cons_self))
      have hhead := h (place a)
      rw [List.filter_cons_of_pos (by simp), List.filter_cons_of_pos (by simp [hplace]),
        List.cons.injEq] at hhead
      obtain ⟨rfl, -⟩ := hhead
      rw [ih hsorted.2 hsorted'.2]
      intro p
      have hrest := h p
      rw [List.filter_cons, List.filter_cons] at hrest
      split at hrest
      · exact (List.cons.inj hrest).2
      · exact hrest

/-- A list can be put in order in one way only. -/
theorem StablySorted.unique (h : StablySorted place l sorted) (h' : StablySorted place l sorted') :
    sorted = sorted' :=
  eq_of_filter_eq h.ordered h'.ordered fun p => (h.stable p).trans (h'.stable p).symm

/-- Sorting keeps the elements at the same place as they are: they are in order already. -/
theorem stablySorted_mergeSort (place : α → Place) (l : List α) :
    StablySorted place l (l.mergeSort fun a b => (place a).le (place b)) := by
  have htrans : ∀ a b c : α, (place a).le (place b) = true → (place b).le (place c) = true →
      (place a).le (place c) = true := by
    simp only [Place.le_iff]
    exact fun _ _ _ => .trans
  have htotal : ∀ a b : α, ((place a).le (place b) || (place b).le (place a)) = true := by
    simp only [Bool.or_eq_true, Place.le_iff]
    exact fun _ _ => Place.atOrBefore_total _ _
  have hperm := List.mergeSort_perm l fun a b => (place a).le (place b)
  refine ⟨hperm, ?_, fun p => ?_⟩
  · have hsorted := List.pairwise_mergeSort htrans htotal l
    simpa only [Place.le_iff] using hsorted
  · have hsame : (l.filter (place · = p)).Pairwise fun a b => (place a).le (place b) = true := by
      refine List.pairwise_of_forall_mem_list fun a ha b hb => ?_
      have ha := (List.mem_filter.mp ha).2
      have hb := (List.mem_filter.mp hb).2
      rw [decide_eq_true_eq] at ha hb
      rw [Place.le_iff, ha, hb]
      exact .refl p
    have hsublist := (List.sublist_mergeSort htrans htotal hsame List.filter_sublist).filter
      (place · = p)
    rw [List.filter_filter] at hsublist
    simp only [Bool.and_self] at hsublist
    exact (hsublist.eq_of_length (hperm.filter _).length_eq.symm).symm

theorem stablySorted_iff :
    StablySorted place l sorted ↔ sorted = l.mergeSort fun a b => (place a).le (place b) :=
  ⟨fun h => h.unique (stablySorted_mergeSort place l),
    fun h => h ▸ stablySorted_mergeSort place l⟩

/-! ### Lists that differ in the order of what stands at the same place -/

/-- A list has the elements of another one, and each of them stands where the other list has an element
at the same place. So the two differ only in the order of elements that share a place. -/
structure Alike (place : α → Place) (l l' : List α) : Prop where
  /-- The elements. -/
  perm : l.Perm l'
  /-- Their places. -/
  places : l.map place = l'.map place

/-- Lists with the same elements that are in order are alike. -/
theorem alike_of_perm (hsorted : l.Pairwise fun a b => (place a).AtOrBefore (place b))
    (hsorted' : l'.Pairwise fun a b => (place a).AtOrBefore (place b)) (h : l.Perm l') :
    Alike place l l' := by
  refine ⟨h, List.Perm.eq_of_pairwise (fun p q _ _ => Place.AtOrBefore.antisymm) ?_ ?_ (h.map place)⟩
  · exact List.pairwise_map.mpr hsorted
  · exact List.pairwise_map.mpr hsorted'

/-- The same list in different orders is alike when sorted, and so is what is chosen of it. -/
theorem StablySorted.alike (h : StablySorted place l sorted) (h' : StablySorted place l' sorted')
    (hperm : l.Perm l') (choose : α → Bool) :
    Alike place (sorted.filter choose) (sorted'.filter choose) :=
  alike_of_perm (h.ordered.filter _) (h'.ordered.filter _)
    (((h.perm.trans hperm).trans h'.perm.symm).filter _)

end FlagAudit.Analysis
