/-!
# Line endings

A text file may end its lines by a line feed, by a carriage return, or by both in this order.
Reading turns each of them into one line feed.
-/

namespace FlagAudit.Text

/-- Each carriage return, with the line feed behind it if there is one, becomes a line feed. -/
def unifyNewlines : List Char → List Char
  | '\r' :: '\n' :: rest => '\n' :: unifyNewlines rest
  | '\r' :: rest => '\n' :: unifyNewlines rest
  | c :: rest => c :: unifyNewlines rest
  | [] => []

/-- A text without carriage returns stays as it is. -/
theorem unifyNewlines_eq_self {s : List Char} (h : '\r' ∉ s) : unifyNewlines s = s := by
  fun_induction unifyNewlines s with
  | case1 => simp at h
  | case2 => simp at h
  | case3 c rest _ _ ih => simp_all
  | case4 => rfl

end FlagAudit.Text
