import AbapLayout.Proofs.Saving

/-!
# No content is lost

Formatting files and scanning the workspace, in any order and any number of times, loses nothing
that a file ever held (`Workspace.contents_kept`).  A file is saved in three operations: its bytes
are copied to a path where nothing was, its new text is written to a temporary file, and that one
takes its place (`Workspace.Saving`).
-/

namespace AbapLayout

namespace FileTree

/-! ## What is held -/

/-- Some file holds the given bytes. -/
def Holds (t : FileTree) (bytes : List UInt8) : Prop :=
  ∃ p age, t.node? p = some (.file bytes age)

section Holds

variable {t : FileTree} {p q : Path} {bytes held : List UInt8} {age : Age}

theorem Holds.of_set (h : (t.set p (.file bytes age)).Holds held) :
    held = bytes ∨ t.Holds held := by
  obtain ⟨q, age', hq⟩ := h
  rw [node?_set] at hq
  split at hq
  · simp at hq
  split at hq
  · simp only [Option.some.injEq, Node.file.injEq] at hq
    exact .inl hq.1.symm
  · exact .inr ⟨q, age', hq⟩

/-- Nothing is lost where nothing was. -/
theorem Holds.set_of_free (h : t.Holds held) (free : t.node? p = none) (n : Node) :
    (t.set p n).Holds held := by
  obtain ⟨q, age', hq⟩ := h
  have hne : q ≠ p := by rintro rfl; simp [free] at hq
  exact ⟨q, age', by rw [node?_set_of_ne t p n hne, hq]⟩

/-- Nothing is lost where a file stands whose bytes another one holds as well. -/
theorem Holds.set_of_copied
    (h : t.Holds held) (hp : t.node? p = some (.file bytes age))
    (hq : t.node? q = some (.file bytes age)) (hne : q ≠ p) (n : Node) :
    (t.set p n).Holds held := by
  obtain ⟨r, age', hr⟩ := h
  by_cases hrp : r = p
  · subst hrp
    rw [hp] at hr
    simp only [Option.some.injEq, Node.file.injEq] at hr
    exact ⟨q, age, by rw [node?_set_of_ne t r n hne, hq, hr.1]⟩
  · exact ⟨r, age', by rw [node?_set_of_ne t p n hrp, hr]⟩

end Holds

end FileTree

namespace Workspace

open FileTree

/-! ## Moments -/

/-- The files after each operation that puts a text in the place of a file. -/
def replaceMoments (t : FileTree) (p : Path) (text : Text) : List FileTree :=
  let temporary := Path.sibling p (· ++ temporarySuffix)
  match t.write temporary (Text.toUtf8 text) .fresh with
  | .ok written => [written, written.rename temporary p]
  | .error _ => [(replaceFile t p text).2]

def saveMoments (t : FileTree) (w : Workspace) (p : Path) (text : Text) (r : Report) :
    List FileTree :=
  match backUp t w p r with
  | (.error _, left) => [left]
  | (.ok _, copied) => copied :: replaceMoments copied p text

def formatMoments (t : FileTree) (w : Workspace) (path : String) (dryRun : Bool) :
    List FileTree :=
  match saved? t w path dryRun with
  | none => []
  | some (p, d) => saveMoments t w p d.formatted.text (draftReport path dryRun d)

/-- The files after each operation that formats some files one after the other. -/
def formatAllMoments (t : FileTree) (w : Workspace) (dryRun : Bool) : List String → List FileTree
  | [] => []
  | path :: rest =>
    let first := formatFile t w path dryRun
    formatMoments t w path dryRun ++
      match first.value with
      | .error _ => []
      | .ok _ => formatAllMoments first.tree w dryRun rest

/-- The paths of the files that a scan formats, in order. -/
def scanned (t : FileTree) (w : Workspace) (extensions depth : Value) :
    Except WorkspaceFault (List String) :=
  (readDepth depth).1.bind fun limit =>
    ((readExtensions extensions).bind fun es => patterns (bothCases es)).map fun ps =>
      (((t.findFiles w.directory ps).map (·.drop w.directory.length)).filter
        fun p => (p.length : Int) ≤ limit).map Path.text

/-- Something that is asked of a workspace. -/
inductive Call where
  | format (path : String) (dryRun : Bool)
  | scan (extensions : Value) (dryRun : Bool) (depth : Value)

def Call.after (t : FileTree) (w : Workspace) : Call → FileTree
  | .format path dryRun => (formatFile t w path dryRun).tree
  | .scan extensions dryRun depth => (Workspace.scan t w extensions dryRun depth).tree

def Call.moments (t : FileTree) (w : Workspace) : Call → List FileTree
  | .format path dryRun => formatMoments t w path dryRun
  | .scan extensions dryRun depth =>
    match scanned t w extensions depth with
    | .error _ => []
    | .ok paths => formatAllMoments t w dryRun paths

/-- The files after some calls, also if one of them ends without a report. -/
def after (t : FileTree) (w : Workspace) (calls : List Call) : FileTree :=
  calls.foldl (fun t call => call.after t w) t

/-- The files after each operation of some calls. -/
def moments (t : FileTree) (w : Workspace) : List Call → List FileTree
  | [] => []
  | call :: rest => call.moments t w ++ moments (call.after t w) w rest

/-! ## The last moment -/

section Last

variable (t : FileTree) (w : Workspace)

theorem getLastD_append (l more : List FileTree) :
    (l ++ more).getLastD t = more.getLastD (l.getLastD t) := by
  simp [List.getLastD_eq_getLast?]

theorem last_replaceMoments (p : Path) (text : Text) :
    (replaceMoments t p text).getLastD t = (replaceFile t p text).2 := by
  unfold replaceMoments
  dsimp only
  split
  next written hwrite => simp [replaceFile, hwrite]
  next => rfl

theorem last_saveMoments (p : Path) (text : Text) (r : Report) :
    (saveMoments t w p text r).getLastD t = (save t w p text r).2 := by
  unfold saveMoments save
  rcases backUp t w p r with ⟨_ | noted, left⟩
  · rfl
  · rw [List.getLastD_cons, last_replaceMoments]
    rcases hreplace : replaceFile left p text with ⟨_ | _, _⟩ <;> simp [writeBack, hreplace]

theorem last_formatMoments (path : String) (dryRun : Bool) :
    (formatMoments t w path dryRun).getLastD t = (formatFile t w path dryRun).tree := by
  unfold formatMoments
  split
  next hsaved => exact (formatFile_of_not_saved hsaved).symm
  next p d hsaved =>
    obtain ⟨log, hformat⟩ := formatFile_of_saved hsaved
    rw [hformat, last_saveMoments]

theorem last_formatAllMoments (dryRun : Bool) (paths : List String) :
    (formatAllMoments t w dryRun paths).getLastD t = (formatAll t w dryRun paths).tree := by
  induction paths generalizing t with
  | nil => rfl
  | cons path rest ih =>
      rw [formatAllMoments, formatAll, getLastD_append, last_formatMoments]
      cases hvalue : (formatFile t w path dryRun).value with
      | error fault => simp
      | ok report => simpa [hvalue] using ih (formatFile t w path dryRun).tree

theorem scan_tree (extensions : Value) (dryRun : Bool) (depth : Value) :
    (scan t w extensions dryRun depth).tree =
      match scanned t w extensions depth with
      | .error _ => t
      | .ok paths => (formatAll t w dryRun paths).tree := by
  unfold scan scanned
  rcases readDepth depth with ⟨_ | limit, log⟩
  · rfl
  · cases (readExtensions extensions).bind fun es => patterns (bothCases es) <;> rfl

theorem last_callMoments (call : Call) : (call.moments t w).getLastD t = call.after t w := by
  cases call with
  | format path dryRun => exact last_formatMoments t w path dryRun
  | scan extensions dryRun depth =>
      rw [Call.after, Call.moments, scan_tree]
      split
      · rfl
      · exact last_formatAllMoments t w dryRun _

theorem last_moments (calls : List Call) : (moments t w calls).getLastD t = after t w calls := by
  induction calls generalizing t with
  | nil => rfl
  | cons call rest ih => rw [moments, getLastD_append, last_callMoments, ih]; rfl

end Last

/-! ## Saving one file -/

/-- What the files go through while one file is saved.  Before its new text takes its place, its
bytes are copied to the path of a backup, where nothing was. -/
inductive Saving (t : FileTree) : List FileTree → Prop
  /-- Without a backup nothing happens. -/
  | refused : Saving t [t]
  /-- No text was to be written. -/
  | copied {directory : Path} {name : String} {n : Nat} {bytes : List UInt8} {age : Age}
      (file : t.node? (directory ++ [name]) = some (.file bytes age))
      (free : t.node? (directory ++ [backupName n name]) = none) :
      Saving t [t.set (directory ++ [backupName n name]) (.file bytes age)]
  /-- The text could not be written. -/
  | unwritten {directory : Path} {name : String} {n : Nat} {bytes : List UInt8} {age : Age}
      (file : t.node? (directory ++ [name]) = some (.file bytes age))
      (free : t.node? (directory ++ [backupName n name]) = none) :
      Saving t
        [t.set (directory ++ [backupName n name]) (.file bytes age),
          t.set (directory ++ [backupName n name]) (.file bytes age)]
  | replaced {directory : Path} {name : String} {n : Nat} {bytes written : List UInt8} {age : Age}
      (file : t.node? (directory ++ [name]) = some (.file bytes age))
      (free : t.node? (directory ++ [backupName n name]) = none)
      (temporary : t.node? (directory ++ [name ++ temporarySuffix]) = none) :
      Saving t
        [t.set (directory ++ [backupName n name]) (.file bytes age),
          (t.set (directory ++ [backupName n name]) (.file bytes age)).set
            (directory ++ [name ++ temporarySuffix]) (.file written .fresh),
          (t.set (directory ++ [backupName n name]) (.file bytes age)).set
            (directory ++ [name]) (.file written .fresh)]

namespace Saving

variable {t : FileTree} {ms : List FileTree}

/-- What some file holds at any moment, some file holds at the end. -/
theorem holds
    (h : Saving t ms) {m : FileTree} (hm : m ∈ t :: ms) {held : List UInt8} (hheld : m.Holds held) :
    (ms.getLastD t).Holds held := by
  cases h with
  | refused =>
      obtain rfl : m = t := by simpa using hm
      exact hheld
  | copied file free =>
      rcases List.mem_pair.mp hm with rfl | rfl
      · exact hheld.set_of_free free _
      · exact hheld
  | unwritten file free =>
      simp only [List.mem_cons, List.not_mem_nil, or_false, or_self] at hm
      rcases hm with rfl | rfl
      · exact hheld.set_of_free free _
      · exact hheld
  | @replaced directory name n bytes written age file free temporary =>
      -- The bytes that go are those of the backup, which is no other than the new file.
      have hne : directory ++ [backupName n name] ≠ directory ++ [name] := by
        intro heq
        rw [heq, file] at free
        simp at free
      have hcopied := node?_set_self t (directory ++ [backupName n name]) (.file bytes age)
        (by simp [free])
      have hstays := (node?_set_of_ne t _ (.file bytes age) hne.symm).trans file
      have hlast {held : List UInt8}
          (hheld : (t.set (directory ++ [backupName n name]) (.file bytes age)).Holds held) :=
        hheld.set_of_copied hstays hcopied hne (.file written .fresh)
      simp only [List.mem_cons, List.not_mem_nil, or_false] at hm
      rcases hm with rfl | rfl | rfl | rfl
      · exact hlast (hheld.set_of_free free _)
      · exact hlast hheld
      · rcases hheld.of_set with rfl | hheld
        · exact ⟨_, _, node?_set_self _ _ _ (by simp [hstays])⟩
        · exact hlast hheld
      · exact hheld

theorem linkless (h : Saving t ms) (hlinks : t.Linkless) : (ms.getLastD t).Linkless := by
  cases h with
  | refused => exact hlinks
  | copied | unwritten => exact hlinks.set_file _ _ _
  | replaced => exact (hlinks.set_file _ _ _).set_file _ _ _

theorem noTemporaries (h : Saving t ms) (htemporaries : t.NoTemporaries) :
    (ms.getLastD t).NoTemporaries := by
  cases h with
  | refused => exact htemporaries
  | copied | unwritten => exact htemporaries.set _ (backupName_ne_temporary _ _)
  | replaced file =>
      exact (htemporaries.set _ (backupName_ne_temporary _ _)).set _ (htemporaries.name_ne file)

end Saving

/-- In a tree without links and temporary files a file is saved as described. -/
theorem saving_saveMoments
    {t : FileTree} (hlinks : t.Linkless) (htemporaries : t.NoTemporaries)
    {directory : Path} {name : String} {bytes : List UInt8} {age : Age}
    (hproper : Path.Proper (directory ++ [name]))
    (hfollow : t.follow (directory ++ [name]) = .ok (directory ++ [name]))
    (file : t.node? (directory ++ [name]) = some (.file bytes age))
    (w : Workspace) (text : Text) (r : Report) :
    Saving t (saveMoments t w (directory ++ [name]) text r) := by
  obtain ⟨hdirectory, hname⟩ := Path.proper_append.mp hproper
  have hfree := hlinks.linkFree hdirectory
  rcases backUp_cases hfree (hname name (by simp)) hfollow file w r with
    ⟨fault, hbackUp⟩ | ⟨n, free, -, hbackUp⟩
  · simp only [saveMoments, hbackUp]
    exact .refused
  simp only [saveMoments, hbackUp]
  cases Path.below? w.directory (directory ++ [backupName n name]) with
  | none => exact .copied file free
  | some relative =>
      dsimp only
      have hcopied := hfree.set_file (directory ++ [backupName n name]) bytes age
      rcases write_temporary_cases hcopied name text with
        ⟨fault, message, hwrite, hreplace⟩ | ⟨hplace, hwrite⟩
      · simp only [replaceMoments, Path.sibling_append, hwrite, hreplace]
        exact .unwritten file free
      · have hclean : (t.set (directory ++ [backupName n name]) (.file bytes age)).NoTemporaries :=
          htemporaries.set _ (backupName_ne_temporary n name)
        have hkept := erase_set _ (directory ++ [name ++ temporarySuffix])
          (.file (Text.toUtf8 text) .fresh) fun e he => hclean e he directory name
        simp only [replaceMoments, Path.sibling_append, hwrite, rename, node?_set_self _ _ _ hplace,
          hkept]
        refine .replaced file free ?_
        rw [node?_set_of_ne] at hplace
        · exact (htemporaries.node?_eq directory name).resolve_left hplace
        · intro heq
          exact backupName_ne_temporary n name name (by simpa using heq.symm)

/-! ## Many calls -/

/-- What the files go through while some are saved one after the other. -/
inductive Savings : FileTree → List FileTree → Prop
  | nil (t : FileTree) : Savings t []
  | append {t : FileTree} {ms more : List FileTree} (one : Saving t ms)
      (others : Savings (ms.getLastD t) more) : Savings t (ms ++ more)

namespace Savings

variable {t : FileTree} {ms more : List FileTree}

theorem trans (h : Savings t ms) (hmore : Savings (ms.getLastD t) more) :
    Savings t (ms ++ more) := by
  induction h with
  | nil => exact hmore
  | append one others ih =>
      rw [getLastD_append] at hmore
      rw [List.append_assoc]
      exact .append one (ih hmore)

theorem linkless (h : Savings t ms) (hlinks : t.Linkless) : (ms.getLastD t).Linkless := by
  induction h with
  | nil => exact hlinks
  | append one others ih =>
      rw [getLastD_append]
      exact ih (one.linkless hlinks)

theorem noTemporaries (h : Savings t ms) (htemporaries : t.NoTemporaries) :
    (ms.getLastD t).NoTemporaries := by
  induction h with
  | nil => exact htemporaries
  | append one others ih =>
      rw [getLastD_append]
      exact ih (one.noTemporaries htemporaries)

/-- What some file holds at any moment, some file holds at the end. -/
theorem holds
    (h : Savings t ms) {m : FileTree} (hm : m ∈ t :: ms) {held : List UInt8}
    (hheld : m.Holds held) : (ms.getLastD t).Holds held := by
  induction h generalizing m with
  | nil =>
      obtain rfl : m = _ := by simpa using hm
      exact hheld
  | append one others ih =>
      rw [getLastD_append]
      rw [← List.cons_append, List.mem_append] at hm
      rcases hm with hm | hm
      · exact ih List.mem_cons_self (one.holds hm hheld)
      · exact ih (List.mem_cons_of_mem _ hm) hheld

end Savings

section Runs

variable {t : FileTree} (hlinks : t.Linkless) (htemporaries : t.NoTemporaries) (w : Workspace)
include hlinks htemporaries

theorem savings_formatMoments (path : String) (dryRun : Bool) :
    Savings t (formatMoments t w path dryRun) := by
  unfold formatMoments
  split
  · exact .nil t
  next p d hsaved =>
    obtain ⟨hresolve, hdraft⟩ := resolve_of_saved hsaved
    have hproper := proper_of_resolve hresolve
    obtain ⟨directory, name, bytes, age, rfl, hfollow, file⟩ :=
      exists_name_of_draft (hlinks.clear hproper) hdraft
    rw [← List.append_nil (saveMoments ..)]
    exact .append
      (saving_saveMoments hlinks htemporaries hproper hfollow file w _ _) (.nil _)

theorem savings_formatAllMoments (dryRun : Bool) (paths : List String) :
    Savings t (formatAllMoments t w dryRun paths) := by
  induction paths generalizing t with
  | nil => exact .nil t
  | cons path rest ih =>
      have hfirst := savings_formatMoments hlinks htemporaries w path dryRun
      rw [formatAllMoments]
      refine hfirst.trans ?_
      rw [last_formatMoments]
      split
      · exact .nil _
      · rw [← last_formatMoments]
        exact ih (hfirst.linkless hlinks) (hfirst.noTemporaries htemporaries)

theorem savings_callMoments (call : Call) : Savings t (call.moments t w) := by
  cases call with
  | format path dryRun => exact savings_formatMoments hlinks htemporaries w path dryRun
  | scan extensions dryRun depth =>
      rw [Call.moments]
      split
      · exact .nil t
      · exact savings_formatAllMoments hlinks htemporaries w dryRun _

theorem savings_moments (calls : List Call) : Savings t (moments t w calls) := by
  induction calls generalizing t with
  | nil => exact .nil t
  | cons call rest ih =>
      have hfirst := savings_callMoments hlinks htemporaries w call
      refine hfirst.trans ?_
      rw [← last_callMoments]
      exact ih (hfirst.linkless hlinks) (hfirst.noTemporaries htemporaries)

end Runs

/-- Formatting files and scanning, in any order and any number of times, loses no content.  The
files go from saving to saving, and what some file held at the start or at any moment since, some
file holds at the end; no temporary file is left. -/
theorem contents_kept
    {t : FileTree} (hlinks : t.Linkless) (htemporaries : t.NoTemporaries) (w : Workspace)
    (calls : List Call) :
    Savings t (moments t w calls) ∧ (moments t w calls).getLastD t = after t w calls ∧
      (∀ m ∈ t :: moments t w calls, ∀ held, m.Holds held → (after t w calls).Holds held) ∧
      (after t w calls).NoTemporaries := by
  have hsavings := savings_moments hlinks htemporaries w calls
  have hlast := last_moments t w calls
  exact ⟨hsavings, hlast, fun m hm held hheld => hlast ▸ hsavings.holds hm hheld,
    hlast ▸ hsavings.noTemporaries htemporaries⟩

theorem contents_kept_twice :
    let t : FileTree :=
      ⟨"/home", ["home"], [(["home", "a.abap"], .file (Text.toUtf8 "write  a.".toList) .fresh)]⟩
    let calls : List Call :=
      [.format "a.abap" false, .scan (.text ".backup") false (.int 10), .format "a.abap" false]
    t.Linkless ∧ t.NoTemporaries ∧
      (after t ⟨["home"], .default⟩ calls).Holds (Text.toUtf8 "write  a.".toList) := by
  intro t calls
  have hlinks : t.Linkless := linkless_of_entries (by simp [t])
  have htemporaries : t.NoTemporaries := by
    intro e he directory name heq
    obtain rfl := List.mem_singleton.mp he
    have hname : "a.abap" = name ++ temporarySuffix := by
      simpa using congrArg List.getLast? heq
    have hlength := congrArg String.length hname
    have hshort : "a.abap".length = 6 := by decide
    rw [String.length_append, length_temporarySuffix] at hlength
    omega
  obtain ⟨-, -, hkept, -⟩ := contents_kept hlinks htemporaries ⟨["home"], .default⟩ calls
  exact ⟨hlinks, htemporaries,
    hkept t List.mem_cons_self _ ⟨["home", "a.abap"], .fresh, by decide +kernel⟩⟩

end Workspace
end AbapLayout
