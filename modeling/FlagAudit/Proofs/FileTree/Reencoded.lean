import FlagAudit.Proofs.Source
import FlagAudit.Proofs.Text.Reencoding

/-!
# Trees that differ in the line endings of files

In one tree some files may be written with other line endings than in the other. If there is no carriage
return in a file of the one tree, it has the same text in both (`readText_reencoded`).
-/

namespace FlagAudit.FileTree

open Node (SameBy outline)
open Text (Ending unifyNewlines)

variable {content content' : List UInt8} {a b : Node} {t t' : FileTree} {path : String}

/-- The bytes of a file, as they are or with another line ending for each line feed. -/
def IsReencoding (content content' : List UInt8) : Prop :=
  content' = content ∨ ∃ e : Ending, content' = e.encode content

/-- Two trees have the same nodes at the same locations, but files of the second one may be written with
other line endings. -/
structure Reencoded (a b : Node) : Prop where
  /-- There are files, directories and links at the same locations. -/
  outlines : SameBy outline a b
  /-- The files have the same bytes, but for line endings. -/
  files : ∀ location content content', a.at? location = some (.file content) →
    b.at? location = some (.file content') → IsReencoding content content'

/-! ### Trees that are built alike -/

/-- A file is re-encoded. -/
theorem Reencoded.file (h : IsReencoding content content') : Reencoded (.file content) (.file content') where
  outlines location := by
    cases location with
    | nil => rw [Node.at?_nil, Node.at?_nil]; rfl
    | cons name rest => rw [Node.at?_cons, Node.at?_cons]; rfl
  files location _ _ h₁ h₂ := by
    cases location with
    | nil =>
      rw [Node.at?_nil] at h₁ h₂
      cases h₁
      cases h₂
      exact h
    | cons name rest =>
      rw [Node.at?_cons] at h₁
      cases h₁

/-- Entries with the same names, one by one, and re-encoded nodes. -/
def ReencodedEntries (entries entries' : List (String × Node)) : Prop :=
  List.Forall₂ (fun e e' => e.1 = e'.1 ∧ Reencoded e.2 e'.2) entries entries'

theorem ReencodedEntries.lookup {entries entries' : List (String × Node)}
    (h : ReencodedEntries entries entries') (name : String) :
    (entries.lookup name = none ∧ entries'.lookup name = none) ∨
      ∃ child child', entries.lookup name = some child ∧ entries'.lookup name = some child' ∧
        Reencoded child child' := by
  induction h with
  | nil => exact .inl ⟨rfl, rfl⟩
  | @cons e e' es es' he hes ih =>
    obtain ⟨first, node⟩ := e
    obtain ⟨_, node'⟩ := e'
    obtain ⟨rfl, hnode⟩ := he
    rw [List.lookup_cons, List.lookup_cons]
    cases name == first with
    | true => exact .inr ⟨node, node', rfl, rfl, hnode⟩
    | false => exact ih

/-- A directory is re-encoded entry by entry. -/
theorem Reencoded.directory {entries entries' : List (String × Node)}
    (h : ReencodedEntries entries entries') : Reencoded (.directory entries) (.directory entries') where
  outlines location := by
    cases location with
    | nil =>
      rw [Node.at?_nil, Node.at?_nil]
      rfl
    | cons name rest =>
      rw [Node.at?_cons, Node.at?_cons, Node.entries, Node.entries]
      rcases h.lookup name with ⟨hnone, hnone'⟩ | ⟨child, child', hchild, hchild', hbelow⟩
      · rw [hnone, hnone']
      · rw [hchild, hchild']
        exact hbelow.outlines rest
  files location content content' h₁ h₂ := by
    cases location with
    | nil =>
      rw [Node.at?_nil] at h₁
      cases h₁
    | cons name rest =>
      rw [Node.at?_cons, Node.entries] at h₁ h₂
      rcases h.lookup name with ⟨hnone, -⟩ | ⟨child, child', hchild, hchild', hbelow⟩
      · rw [hnone] at h₁
        cases h₁
      · rw [hchild] at h₁
        rw [hchild'] at h₂
        exact hbelow.files rest content content' h₁ h₂

/-! ### Texts -/

/-- Line endings make no difference for what is read of bytes without carriage returns. -/
theorem text_of_reencoding (h : IsReencoding content content')
    (hreturn : ∀ s, Text.Utf8.decode content = some s → '\r' ∉ s) :
    (Text.Utf8.decode content').map unifyNewlines = (Text.Utf8.decode content).map unifyNewlines := by
  rcases h with rfl | ⟨e, rfl⟩
  · rfl
  · rw [Text.Utf8.decode_encode, Option.map_map]
    refine Option.map_congr fun s hs => ?_
    rw [Function.comp_apply, Text.unifyNewlines_write e (hreturn s hs),
      Text.unifyNewlines_eq_self (hreturn s hs)]

theorem readBytes_of_file (h : t.find path = .ok (.file content)) : t.readBytes path = .ok content := by
  rw [readBytes, h]
  rfl

theorem readText_of_file (h : t.find path = .ok (.file content)) :
    t.readText path = ((Text.Utf8.decode content).map unifyNewlines).elim (.error .notUtf8) .ok := by
  rw [readText, readBytes_of_file h]
  change Text.ofBytes content = _
  rw [Text.ofBytes]
  cases Text.Utf8.decode content <;> rfl

/-- A file without a carriage return has the same text when it is re-encoded, and what is no file is read in
the same way. -/
theorem readText_reencoded (hcwd : t.cwd = t'.cwd) (h : Reencoded t.root t'.root)
    (hreturn : ∀ content s, t.readBytes path = .ok content → Text.Utf8.decode content = some s → '\r' ∉ s) :
    t.readText path = t'.readText path := by
  have hlocate := locate_sameOutline hcwd h.outlines true path
  cases hlocation : t.locate true path with
  | error c =>
    refine readText_congr ?_
    rw [find_eq, find_eq, ← hlocate, hlocation]
    rfl
  | ok location =>
    have hfind : t.find path = (t.root.at? location).elim (.error .missingFile) .ok := by
      rw [find_eq, hlocation]
      rfl
    have hfind' : t'.find path = (t'.root.at? location).elim (.error .missingFile) .ok := by
      rw [find_eq, ← hlocate, hlocation]
      rfl
    cases ha : t.root.at? location with
    | none =>
      refine readText_congr ?_
      rw [hfind, hfind', ha, h.outlines.at?_none ha]
    | some a =>
      obtain ⟨b, hb, hab⟩ := h.outlines.at? ha
      rw [ha] at hfind
      rw [hb] at hfind'
      cases a with
      | file content =>
        obtain ⟨content', rfl⟩ := hab.file
        rw [readText_of_file hfind, readText_of_file hfind',
          text_of_reencoding (h.files location content content' ha hb)
            (hreturn content · (readBytes_of_file hfind))]
      | directory entries =>
        obtain ⟨entries', rfl⟩ := hab.directory
        rw [readText, readText, readBytes, readBytes, hfind, hfind']
        rfl
      | _ =>
        refine readText_congr ?_
        rw [hfind, hfind', hab.eq rfl rfl]

end FlagAudit.FileTree
