import AbapLayout.Proofs.Saving

/-!
# Staying in the workspace

What a call changes when it formats a file in a directory without links.  If the directory lies in
the workspace, everything outside stays as it is, and a call that ends without a report has changed
nothing (`Workspace.formatFile_inside`).  Elsewhere no file is changed, but a backup may be left
(`Workspace.formatFile_outside`): the file is copied before the path of the copy in the workspace,
which there is none of, is looked for.
-/

namespace AbapLayout
namespace Workspace

open FileTree

variable {t : FileTree} {w : Workspace} {path : String} {p : Path}

theorem node?_replaced_of_ne {directory q : Path} {name : String}
    (htemporary : q ≠ directory ++ [name ++ temporarySuffix]) (hfile : q ≠ directory ++ [name])
    (text : Text) : (replaced t directory name text).node? q = t.node? q := by
  unfold replaced
  rw [node?_set_of_ne _ _ _ hfile, node?_erase_of_ne _ _ htemporary,
    node?_set_of_ne _ _ _ htemporary]

/-- A file in a directory without links is saved under its name there. -/
theorem name_of_saved {q : Path} {d : Draft} {dryRun : Bool}
    (hresolve : t.resolve w.directory path = .ok p) (hlinks : t.LinkFree p.dropLast)
    (hsaved : saved? t w path dryRun = some (q, d)) :
    q = p ∧ ∃ directory name bytes age, p = directory ++ [name] ∧ Path.IsStep name ∧
      t.follow (directory ++ [name]) = .ok (directory ++ [name]) ∧
      t.node? (directory ++ [name]) = some (.file bytes age) := by
  obtain ⟨hq, hdraft⟩ := resolve_of_saved hsaved
  obtain rfl : p = q := by simpa [hresolve] using hq
  have hproper := proper_of_resolve hresolve
  have hclear : t.Clear p := by
    rcases List.eq_nil_or_concat' p with rfl | ⟨directory, name, rfl⟩
    · exact hlinks.way
    · rw [List.dropLast_concat] at hlinks
      exact hlinks.clear (hproper name (by simp))
  obtain ⟨directory, name, bytes, age, rfl, hfollow, hfile⟩ := exists_name_of_draft hclear hdraft
  exact ⟨rfl, directory, name, bytes, age, rfl, hproper name (by simp), hfollow, hfile⟩

/-- Formatting a file in a directory of the workspace, without links there, changes nothing outside
of the workspace; and nothing at all if it ends without a report. -/
theorem formatFile_inside
    (hresolve : t.resolve w.directory path = .ok p) (hlinks : t.LinkFree p.dropLast)
    (hinside : w.directory <+: p.dropLast) (dryRun : Bool) :
    (∀ q, ¬w.directory <+: q → (formatFile t w path dryRun).tree.node? q = t.node? q) ∧
      ∀ fault, (formatFile t w path dryRun).value = .error fault →
        (formatFile t w path dryRun).tree = t := by
  cases hsaved : saved? t w path dryRun with
  | none =>
      have hkept := formatFile_of_not_saved hsaved
      exact ⟨fun q _ => by rw [hkept], fun _ _ => hkept⟩
  | some saved =>
      obtain ⟨q, d⟩ := saved
      obtain ⟨rfl, directory, name, bytes, age, rfl, hname, hfollow, hfile⟩ :=
        name_of_saved hresolve hlinks hsaved
      rw [List.dropLast_concat] at hlinks hinside
      have hbelow (other : String) : w.directory <+: directory ++ [other] :=
        hinside.trans (List.prefix_append _ _)
      have hne {q : Path} (hq : ¬w.directory <+: q) (other : String) : q ≠ directory ++ [other] :=
        fun heq => hq (heq ▸ hbelow other)
      obtain ⟨log, hformat⟩ := formatFile_of_saved hsaved
      rw [hformat]
      rcases save_cases hlinks hname hfollow hfile w d.formatted.text (draftReport path dryRun d)
        with ⟨fault, hsave⟩ | ⟨n, copied, -, -, rfl, ⟨hnone, -⟩ | ⟨relative, -, hsave⟩⟩
      · rw [hsave]
        exact ⟨fun _ _ => rfl, fun _ _ => rfl⟩
      · exact absurd (hbelow _) (Path.below?_eq_none.mp hnone)
      rcases hsave with ⟨fault, message, -, hsave⟩ | hsave
      · rw [hsave]
        exact ⟨fun q hq => node?_set_of_ne _ _ _ (hne hq _), by simp⟩
      · rw [hsave]
        refine ⟨fun q hq => ?_, by simp⟩
        exact (node?_replaced_of_ne (hne hq _) (hne hq _) _).trans
          (node?_set_of_ne _ _ _ (hne hq _))

/-- Formatting a file in a directory outside of the workspace, without links there, changes nothing;
or the file is copied to a new backup next to it, and there is no report. -/
theorem formatFile_outside
    (hresolve : t.resolve w.directory path = .ok p) (hlinks : t.LinkFree p.dropLast)
    (houtside : ¬w.directory <+: p.dropLast) (hthere : t.node? w.directory = some .directory)
    (dryRun : Bool) :
    (formatFile t w path dryRun).tree = t ∨
      ∃ n bytes age, t.node? p = some (.file bytes age) ∧
        t.node? (Path.sibling p (backupName n)) = none ∧
        (formatFile t w path dryRun).value = .error .outside ∧
        (formatFile t w path dryRun).tree =
          t.set (Path.sibling p (backupName n)) (.file bytes age) := by
  cases hsaved : saved? t w path dryRun with
  | none => exact .inl (formatFile_of_not_saved hsaved)
  | some saved =>
      obtain ⟨q, d⟩ := saved
      obtain ⟨rfl, directory, name, bytes, age, rfl, hname, hfollow, hfile⟩ :=
        name_of_saved hresolve hlinks hsaved
      rw [List.dropLast_concat] at hlinks houtside
      obtain ⟨log, hformat⟩ := formatFile_of_saved hsaved
      rw [hformat]
      rcases save_cases hlinks hname hfollow hfile w d.formatted.text (draftReport path dryRun d)
        with ⟨fault, hsave⟩ | ⟨n, copied, hfree, -, rfl, ⟨-, hsave⟩ | ⟨relative, hbelow, -⟩⟩
      · exact .inl (by rw [hsave])
      · refine .inr ⟨n, bytes, age, hfile, ?_⟩
        rw [Path.sibling_append, hsave]
        exact ⟨hfree, rfl, rfl⟩
      · -- The backup cannot be the workspace, which was there before.
        have hfront : w.directory <+: directory ++ [backupName n name] :=
          ⟨relative, (Path.below?_eq_some.mp hbelow).symm⟩
        rcases List.prefix_concat_iff.mp hfront with heq | hfront
        · rw [← heq, hthere] at hfree
          simp at hfree
        · exact absurd hfront houtside

end Workspace
end AbapLayout
