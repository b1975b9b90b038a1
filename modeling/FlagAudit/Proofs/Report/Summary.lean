import FlagAudit.Proofs.Text.Lines
import FlagAudit.Proofs.Report.Lossless
import FlagAudit.Proofs.Command.Outcome

/-!
# The report for a person, the report for a program and the exit code agree

The lines of the report for a person are a heading, the counts, the verdict and perhaps the details
(`lines_summary`). Counts and verdict are found again in the text (`bulletsIn_summary`, `verdictIn_summary`), and
they say what the JSON report and the exit code say (`views_agree`).
-/

namespace FlagAudit.Report

open FlagAudit.Text

variable {f : Findings} {m n : Int} {w w' : String}

/-! ### Bullets -/

theorem toString_int_injective (h : toString m = toString n) : m = n := by
  have hrender : Json.render .compact (.int m) = Json.render .compact (.int n) := by
    rw [Json.render, Json.renderAt, Json.render, Json.renderAt, h]
  exact Json.int.inj (Json.render_injective .compact hrender)

theorem toList_bullet (n : Int) (w : String) :
    (bullet n w).toList = '•' :: ' ' :: ((toString n).toList ++ ' ' :: w.toList) := by
  rw [bullet, String.toList_append, String.toList_append, String.toList_append, List.append_assoc,
    List.append_assoc]
  rfl

/-- A bullet shows its number, which ends at the second blank, and its wording. -/
theorem bullet_inj : bullet m w = bullet n w' ↔ m = n ∧ w = w' := by
  refine ⟨fun h => ?_, fun ⟨hn, hw⟩ => hn ▸ hw ▸ rfl⟩
  have hnumber : ∀ (k : Int) (s : List Char),
      ((toString k).toList ++ ' ' :: s).takeWhile (· ≠ ' ') = (toString k).toList := by
    intro k s
    have hblank : ' ' ∉ (toString k).toList := Json.notMem_toString_int (by decide) (by decide) k
    rw [List.takeWhile_append_of_pos fun c hc => decide_eq_true (ne_of_mem_of_not_mem hc hblank),
      List.takeWhile_cons_of_neg (by decide), List.append_nil]
  have hlist := congrArg (·.toList.drop 2) h
  simp only [toList_bullet, List.drop_succ_cons, List.drop_zero] at hlist
  have hdigits := congrArg (List.takeWhile (· ≠ ' ')) hlist
  rw [hnumber, hnumber, String.toList_inj] at hdigits
  rw [hdigits, List.append_cancel_left_eq, List.cons_inj_right, String.toList_inj] at hlist
  exact ⟨toString_int_injective hdigits, hlist⟩

theorem mem_bulletIfAny {s : String} {n : Nat} : s ∈ bulletIfAny n w ↔ n ≠ 0 ∧ s = bullet n w := by
  rw [bulletIfAny]
  split
  · next h => simp [beq_iff_eq.mp h]
  · next h => simp [mt beq_iff_eq.mpr h]

theorem lineFeed_notMem_bullet (h : '\n' ∉ w.toList) : '\n' ∉ (bullet n w).toList := by
  have hnumber : '\n' ∉ (toString n).toList := Json.notMem_toString_int (by decide) (by decide) n
  rw [toList_bullet]
  simp only [List.mem_cons, List.mem_append, hnumber, h]
  decide

theorem bullet_ne_empty : bullet n w ≠ "" := by
  intro h
  have hlist := congrArg (·.toList) h
  rw [toList_bullet] at hlist
  cases hlist

/-- Every count is a bullet on one line. -/
theorem line_of_mem_counts {s : String} (h : s ∈ counts f) : s ≠ "" ∧ '\n' ∉ s.toList := by
  simp only [counts, List.mem_append, List.mem_singleton, mem_bulletIfAny] at h
  rcases h with (((rfl | ⟨-, rfl⟩) | ⟨-, rfl⟩) | ⟨-, rfl⟩) | ⟨-, rfl⟩ <;>
    exact ⟨bullet_ne_empty, lineFeed_notMem_bullet (by decide)⟩

/-! ### Lines -/

theorem lineFeed_notMem_verdict (ci : Bool) (f : Findings) : '\n' ∉ (verdict ci f).toList := by
  rw [verdict]
  split <;> split <;> decide

/-- The lines of a report: details may have more lines than entries. -/
theorem lines_summary (ci verbose : Bool) (f : Findings) :
    ∃ heading, lines (summary ci verbose f) = heading :: "" :: (counts f ++ "" :: verdict ci f ::
      if verbose then (details f).flatMap lines else []) := by
  refine ⟨if ci then "Feature Flag Summary" else "🚩 Feature Flag Summary", ?_⟩
  have hheading : lines (if ci then "Feature Flag Summary" else "🚩 Feature Flag Summary") =
      [if ci then "Feature Flag Summary" else "🚩 Feature Flag Summary"] :=
    lines_of_notMem (by split <;> decide)
  have hempty : lines "" = [""] := lines_of_notMem (by decide)
  have hcounts : (counts f).flatMap lines = counts f :=
    flatMap_lines_eq_iff.mpr fun s hs => (line_of_mem_counts hs).2
  have hverdict : lines (verdict ci f) = [verdict ci f] := lines_of_notMem (lineFeed_notMem_verdict ci f)
  rw [summary, lines_intercalate (by simp)]
  simp only [List.flatMap_append, List.flatMap_cons, List.flatMap_nil, hheading, hempty, hcounts, hverdict]
  cases verbose <;> simp

/-- The bullets of a report: what stands between the first two empty lines. -/
def bulletsIn (report : String) : List String :=
  ((lines report).drop 2).takeWhile (· ≠ "")

/-- The lines of a report from the second empty line on. -/
def behindBullets (report : String) : List String :=
  ((lines report).drop 2).dropWhile (· ≠ "")

/-- The verdict of a report: the line behind the second empty line. -/
def verdictIn (report : String) : Option String := (behindBullets report)[1]?

/-- The details of a report: the lines behind the verdict. -/
def detailsIn (report : String) : List String := (behindBullets report).drop 2

theorem bulletsIn_summary (ci verbose : Bool) (f : Findings) : bulletsIn (summary ci verbose f) = counts f := by
  obtain ⟨heading, hlines⟩ := lines_summary ci verbose f
  rw [bulletsIn, hlines, List.drop_succ_cons, List.drop_succ_cons, List.drop_zero,
    List.takeWhile_append_of_pos fun s hs => decide_eq_true (line_of_mem_counts hs).1,
    List.takeWhile_cons_of_neg (by decide), List.append_nil]

theorem behindBullets_summary (ci verbose : Bool) (f : Findings) :
    behindBullets (summary ci verbose f) =
      "" :: verdict ci f :: if verbose then (details f).flatMap lines else [] := by
  obtain ⟨heading, hlines⟩ := lines_summary ci verbose f
  rw [behindBullets, hlines, List.drop_succ_cons, List.drop_succ_cons, List.drop_zero,
    List.dropWhile_append_of_pos fun s hs => decide_eq_true (line_of_mem_counts hs).1,
    List.dropWhile_cons_of_neg (by decide)]

theorem verdictIn_summary (ci verbose : Bool) (f : Findings) :
    verdictIn (summary ci verbose f) = some (verdict ci f) := by
  rw [verdictIn, behindBullets_summary]
  rfl

theorem detailsIn_summary (ci : Bool) (f : Findings) :
    detailsIn (summary ci true f) = (details f).flatMap lines := by
  rw [detailsIn, behindBullets_summary]
  rfl

/-! ### Numbers -/

/-- Bullets show a number with a wording, or none at all, which stands for zero. -/
def Shows (bullets : List String) (wording : String) (n : Nat) : Prop :=
  bullet n wording ∈ bullets ∨ n = 0 ∧ ∀ m : Int, bullet m wording ∉ bullets

theorem shows_iff {bullets : List String} {count : Nat}
    (h : ∀ m : Int, bullet m w ∈ bullets ↔ count ≠ 0 ∧ m = count) (n : Nat) :
    Shows bullets w n ↔ n = count := by
  simp only [Shows, h, Int.natCast_inj]
  constructor
  · rintro (⟨-, rfl⟩ | ⟨rfl, hnone⟩)
    · rfl
    · by_contra hcount
      exact hnone count ⟨Ne.symm hcount, rfl⟩
  · rintro rfl
    by_cases hn : n = 0
    · exact .inr ⟨hn, fun m hm => hm.1 hn⟩
    · exact .inl ⟨hn, rfl⟩

theorem alwaysTrueCount_add_alwaysFalseCount (f : Findings) :
    f.alwaysTrueCount + f.alwaysFalseCount = f.dead.length := by
  have hnot : ∀ d : DeadConditional, decide ¬ d.outcome = true = !d.outcome := fun d => by simp
  rw [List.length_eq_countP_add_countP (·.outcome), Findings.alwaysTrueCount, Findings.alwaysFalseCount]
  simp only [hnot]

/-! ### Three views -/

/-- The verdict asks for a review. -/
def AsksForReview (report : String) : Prop :=
  verdictIn report = some "Review recommended" ∨
    verdictIn report = some (Colour.yellow.paint "Review recommended")

theorem asksForReview_summary (ci verbose : Bool) (f : Findings) :
    AsksForReview (summary ci verbose f) ↔ f.hasIssues = true := by
  rw [AsksForReview, verdictIn_summary, verdict]
  cases f.hasIssues <;> cases ci <;> decide

/-- An object has an array under a key, with something in it. -/
def HasItems (j : Json) (key : String) : Prop :=
  ∃ x xs, j.field? key = some (.array (x :: xs))

theorem hasItems_iff {α : Type} {j : Json} {key : String} {l : List α} (write : α → Json)
    (h : j.field? key = some (.array (l.map write))) : HasItems j key ↔ l ≠ [] := by
  rw [HasItems, h]
  cases l <;> simp

/-- The verdict of a report asks for a review exactly if the exit code is one in strict mode, and exactly if
the JSON report, which is the report of one value only, has something under one of three keys. The bullets for
unused and missing flags are there exactly if there are such flags, and show how many. The numbers of
branches that are always and never taken add up to the number of dead conditionals. -/
theorem views_agree (f : Findings) (ci verbose : Bool) :
    (AsksForReview (render ⟨false, ci, verbose⟩ f) ↔ (exitFor true f).code = 1) ∧
    (∃ j, (∀ v, Json.render .indented v = render ⟨true, ci, verbose⟩ f ↔ v = j) ∧
      ((exitFor true f).code = 1 ↔
        HasItems j "flags_unused" ∨ HasItems j "flags_missing" ∨ HasItems j "dead_conditionals")) ∧
    (∀ n, bullet n "flags never enabled anywhere" ∈ bulletsIn (render ⟨false, ci, verbose⟩ f) ↔
      f.unused ≠ [] ∧ n = f.unused.length) ∧
    (∀ n, bullet n "flags referenced but undefined" ∈ bulletsIn (render ⟨false, ci, verbose⟩ f) ↔
      f.missing ≠ [] ∧ n = f.missing.length) ∧
    ∃ a b, a + b = f.dead.length ∧
      (∀ n, Shows (bulletsIn (render ⟨false, ci, verbose⟩ f)) "flags always true (dead conditional)" n ↔
        n = a) ∧
      ∀ n, Shows (bulletsIn (render ⟨false, ci, verbose⟩ f)) "flags always false (dead conditional)" n ↔
        n = b := by
  have hsummary : render ⟨false, ci, verbose⟩ f = summary ci verbose f := rfl
  have hcode : (exitFor true f).code = 1 ↔ f.hasIssues = true := by
    rw [Command.code_exitFor_eq_one_iff, eq_self, true_and]
  rw [hsummary, bulletsIn_summary, asksForReview_summary, hcode]
  refine ⟨Iff.rfl, ⟨ofFindings f, fun v => (Json.render_injective .indented).eq_iff, ?_⟩, fun n => ?_,
    fun n => ?_, f.alwaysTrueCount, f.alwaysFalseCount, alwaysTrueCount_add_alwaysFalseCount f,
    shows_iff fun m => ?_, shows_iff fun m => ?_⟩
  · have hunused : HasItems (ofFindings f) "flags_unused" ↔ f.unused ≠ [] :=
      hasItems_iff ofDefinition rfl
    have hmissing : HasItems (ofFindings f) "flags_missing" ↔ f.missing ≠ [] :=
      hasItems_iff ofReference rfl
    have hdead : HasItems (ofFindings f) "dead_conditionals" ↔ f.dead ≠ [] :=
      hasItems_iff ofDeadConditional rfl
    rw [Command.hasIssues_iff, hunused, hmissing, hdead]
  · simp [counts, mem_bulletIfAny, bullet_inj]
  · simp [counts, mem_bulletIfAny, bullet_inj]
  · simp [counts, mem_bulletIfAny, bullet_inj]
  · simp [counts, mem_bulletIfAny, bullet_inj]

end FlagAudit.Report
