import FlagAudit.Proofs.FileTree.Below
import FlagAudit.Proofs.Run
import FlagAudit.Source

/-!
# What stands in the way of reading a file

The file system refuses to give a file, or its path or its bytes are bad values. Nothing else can
happen, so a file that cannot be read never ends an audit.
-/

namespace FlagAudit.FileTree

variable {t : FileTree} {path : String} {c : Cause}

/-- A walk that fails is refused by the file system. -/
theorem isSystemError_of_walkParts {root : Node}
    {jump : Location → List String → Except Cause Location}
    (hjump : ∀ location parts c, jump location parts = .error c → c.IsSystemError)
    {location : Location} {parts : List String}
    (h : walkParts root true jump location parts = .error c) : c.IsSystemError := by
  induction parts generalizing location with
  | nil =>
    rw [walkParts] at h
    cases h
  | cons part rest ih =>
    rcases walkParts_cons_cases root location part with ⟨c', hc, hpart⟩ | ⟨next, hpart⟩ |
      ⟨start, target, hpart⟩
    · rw [hpart] at h
      cases h
      exact hc.imp_right .inr
    · rw [hpart] at h
      exact ih h
    · rw [hpart] at h
      exact hjump _ _ _ h

theorem isSystemError_of_walk {root : Node} {links : Nat} {location : Location}
    {parts : List String} (h : walk root true links location parts = .error c) :
    c.IsSystemError := by
  induction links generalizing c location parts with
  | zero =>
    refine isSystemError_of_walkParts (fun _ _ _ hjump => ?_) h
    cases hjump
    exact .inr (.inr (.inr rfl))
  | succ links ih => exact isSystemError_of_walkParts (fun _ _ _ hjump => ih hjump) h

/-- A path that leads to no node is refused by the file system, or is no path at all. -/
theorem cause_of_find (h : t.find path = .error c) : c.IsSystemError ∨ c.IsValueError := by
  rw [find_eq] at h
  cases hlocate : t.locate true path with
  | ok location =>
    rw [hlocate] at h
    cases hnode : t.root.at? location with
    | none =>
      simp only [Except.bind, hnode, Option.elim_none, Except.error.injEq] at h
      exact .inl (.inl h.symm)
    | some node => simp [Except.bind, hnode] at h
  | error c' =>
    rw [hlocate] at h
    cases h
    rw [locate] at hlocate
    split at hlocate
    · cases hlocate
      exact .inl (.inl rfl)
    split at hlocate
    · cases hlocate
      exact .inr (.inr (.inr (.inr ⟨_, rfl⟩)))
    split at hlocate
    · cases hlocate
      exact .inl (.inr (.inr (.inr rfl)))
    · exact .inl (isSystemError_of_walk hlocate)

theorem cause_of_readBytes (h : t.readBytes path = .error c) : c.IsSystemError ∨ c.IsValueError := by
  rw [readBytes] at h
  cases hfind : t.find path with
  | error c' =>
    rw [hfind] at h
    cases h
    exact cause_of_find hfind
  | ok node =>
    rw [hfind] at h
    cases node with
    | directory entries =>
      cases h
      exact .inl (.inr (.inl rfl))
    | _ => cases h

/-- A file that cannot be read is refused by the file system, or its path or its bytes are a bad
value. -/
theorem cause_of_readText (h : t.readText path = .error c) : c.IsSystemError ∨ c.IsValueError := by
  rw [readText] at h
  cases hbytes : t.readBytes path with
  | error c' =>
    rw [hbytes] at h
    cases h
    exact cause_of_readBytes hbytes
  | ok bytes =>
    rw [hbytes] at h
    change Text.ofBytes bytes = .error c at h
    rw [Text.ofBytes] at h
    split at h
    · cases h
    · exact .inr (.inl (Except.error.inj h).symm)

/-- What a path leads to decides what is read there. -/
theorem readText_congr {t' : FileTree} (h : t.find path = t'.find path) :
    t.readText path = t'.readText path := by
  rw [readText, readText, readBytes, readBytes, h]

end FlagAudit.FileTree
