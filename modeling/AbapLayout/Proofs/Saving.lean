import AbapLayout.Proofs.Walking
import AbapLayout.Workspace
import Mathlib.Data.List.Nodup
import Mathlib.Data.List.Perm.Subperm

/-!
# Saving a file

What becomes of the files when a formatted text is saved in a directory without links.
-/

namespace AbapLayout

namespace Path

theorem isStep_of_length {name : String} (h : 2 < name.length) : IsStep name := by
  constructor
  · cases hidle : isIdle name with
    | false => rfl
    | true =>
        simp only [isIdle, Bool.or_eq_true, beq_iff_eq] at hidle
        rcases hidle with rfl | rfl <;> exact absurd h (by decide)
  · rintro rfl
    exact absurd h (by decide)

theorem sibling_append (directory : Path) (name : String) (rename : String → String) :
    sibling (directory ++ [name]) rename = directory ++ [rename name] := by
  simp [sibling]

end Path

namespace FileTree

/-- No link stands at a directory, on the way to it, or in it. -/
structure LinkFree (t : FileTree) (directory : Path) : Prop where
  way : t.Clear directory
  inside : ∀ name target, t.node? (directory ++ [name]) ≠ some (.link target)

theorem Linkless.linkFree
    {t : FileTree} (h : t.Linkless) {directory : Path} (hdirectory : Path.Proper directory) :
    t.LinkFree directory :=
  ⟨h.clear hdirectory, fun name => h (directory ++ [name])⟩

namespace LinkFree

variable {t : FileTree} {directory : Path}

theorem clear (h : t.LinkFree directory) {name : String} (hname : Path.IsStep name) :
    t.Clear (directory ++ [name]) where
  proper := Path.proper_append.mpr ⟨h.way.proper, by simpa [Path.Proper] using hname⟩
  links q target hq := by
    rcases List.prefix_concat_iff.mp hq with rfl | hq
    · exact h.inside name target
    · exact h.way.links q target hq

theorem set_file
    (h : t.LinkFree directory) (p : Path) (bytes : List UInt8) (age : Age) :
    (t.set p (.file bytes age)).LinkFree directory := by
  have hset (q : Path) (target : String) (hq : t.node? q ≠ some (.link target)) :
      (t.set p (.file bytes age)).node? q ≠ some (.link target) := by
    rw [node?_set]
    split
    · simp
    split
    · simp
    · exact hq
  exact
    { way := ⟨h.way.proper, fun q target hq => hset q target (h.way.links q target hq)⟩
      inside := fun name target => hset _ target (h.inside name target) }

end LinkFree

/-- What stands at a path that does not lead to the home is one of the entries. -/
theorem mem_keys_of_node?
    {t : FileTree} {p : Path} (h : (t.node? p).isSome = true) :
    p <+: t.home ∨ p ∈ t.entries.map (·.1) := by
  unfold node? at h
  split at h
  next hhome => exact .inl (List.isPrefixOf_iff_prefix.mp hhome)
  next =>
    obtain ⟨n, hn⟩ := Option.isSome_iff_exists.mp h
    obtain ⟨before, behind, hsplit, -⟩ := List.lookup_eq_some_iff.mp hn
    exact .inr (by simp [hsplit])

/-! ## Trees without temporary files -/

section Temporaries

variable {t : FileTree}

/-- No entry has the name of a temporary file. -/
def NoTemporaries (t : FileTree) : Prop :=
  ∀ e ∈ t.entries, ∀ directory name, e.1 ≠ directory ++ [name ++ Workspace.temporarySuffix]

theorem eq_or_mem_of_mem_set {p : Path} {n : Node} {e : Path × Node}
    (h : e ∈ (t.set p n).entries) : e.1 = p ∨ e ∈ t.entries := by
  unfold set at h
  split at h
  · obtain ⟨before, hbefore, rfl⟩ := List.mem_map.mp h
    split
    · exact .inl rfl
    · exact .inr hbefore
  · rcases List.mem_append.mp h with h | h
    · exact .inr h
    · exact .inl (by simp_all)

theorem NoTemporaries.lookup_eq (h : t.NoTemporaries) (directory : Path) (name : String) :
    t.entries.lookup (directory ++ [name ++ Workspace.temporarySuffix]) = none :=
  List.lookup_eq_none_iff.mpr fun e he => bne_iff_ne.mpr fun heq => h e he directory name heq.symm

/-- At the path of a temporary file nothing stands, unless it leads to the home. -/
theorem NoTemporaries.node?_eq (h : t.NoTemporaries) (directory : Path) (name : String) :
    t.node? (directory ++ [name ++ Workspace.temporarySuffix]) = some .directory ∨
      t.node? (directory ++ [name ++ Workspace.temporarySuffix]) = none := by
  unfold node?
  rw [h.lookup_eq]
  split
  · exact .inl rfl
  · exact .inr rfl

theorem NoTemporaries.node?_eq_none
    (h : t.NoTemporaries) {directory : Path} (hhome : t.home <+: directory) (name : String) :
    t.node? (directory ++ [name ++ Workspace.temporarySuffix]) = none := by
  unfold node?
  rw [h.lookup_eq, if_neg]
  intro hfront
  have hlength := (List.isPrefixOf_iff_prefix.mp hfront).length_le
  have := hhome.length_le
  simp only [List.length_append, List.length_singleton] at hlength
  omega

theorem NoTemporaries.set
    (h : t.NoTemporaries) {directory : Path} {name : String} (n : Node)
    (hname : ∀ s, name ≠ s ++ Workspace.temporarySuffix) :
    (t.set (directory ++ [name]) n).NoTemporaries := by
  intro e he other s heq
  rcases eq_or_mem_of_mem_set he with hnew | hold
  · rw [hnew] at heq
    exact hname s (by simpa using (List.append_inj' heq rfl).2)
  · exact h e hold other s heq

/-- A file has no such name. -/
theorem NoTemporaries.name_ne
    (h : t.NoTemporaries) {directory : Path} {name : String} {bytes : List UInt8} {age : Age}
    (hfile : t.node? (directory ++ [name]) = some (.file bytes age)) (s : String) :
    name ≠ s ++ Workspace.temporarySuffix := by
  rintro rfl
  exact h _ (mem_entries_of_node? hfile (by simp)) directory s rfl

end Temporaries

end FileTree

namespace Workspace

open FileTree

/-! ## Names of backups -/

theorem length_backupSuffix : backupSuffix.length = 16 := by
  decide

theorem length_backupName (n : Nat) (name : String) :
    name.length + backupSuffix.length ≤ (backupName n name).length := by
  unfold backupName
  split
  · simp
  · simp only [String.length_append]
    omega

theorem backupName_injective (name : String) : Function.Injective fun n => backupName n name := by
  intro n m h
  have hlonger (k : Nat) (hk : k ≠ 0) : backupName k name ≠ backupName 0 name := by
    intro heq
    have := congrArg String.length heq
    simp only [backupName, if_neg hk, if_true, String.length_append] at this
    have hdash : "-".length = 1 := rfl
    omega
  rcases eq_or_ne n 0 with rfl | hn <;> rcases eq_or_ne m 0 with rfl | hm
  · rfl
  · exact absurd h.symm (hlonger m hm)
  · exact absurd h (hlonger n hn)
  · have hrepr : n.repr = m.repr := by
      simpa [backupName, hn, hm, String.append_left_inj, String.append_right_inj,
        Nat.toString_eq_repr] using h
    have hdigits := congrArg String.toList hrepr
    rw [Nat.toList_repr, Nat.toList_repr] at hdigits
    simpa only [Nat.ofDigitChars_ten_toDigits] using congrArg (Nat.ofDigitChars 10 · 0) hdigits

theorem isStep_backupName (n : Nat) (name : String) : Path.IsStep (backupName n name) := by
  have := length_backupName n name
  rw [length_backupSuffix] at this
  exact Path.isStep_of_length (by omega)

/-- No backup has the name of a temporary file. -/
theorem backupName_ne_temporary (n : Nat) (name s : String) :
    backupName n name ≠ s ++ temporarySuffix := by
  intro heq
  have hlast := congrArg (fun s => s.toList.reverse.take 2) heq
  unfold backupName at hlast
  split at hlast <;> simp [backupSuffix, temporarySuffix, String.toList_append] at hlast

/-! ## Backups -/

section Backups

variable {t : FileTree} {directory : Path} {name : String} {bytes : List UInt8} {age : Age}

/-- Among the first names of backups there is one that is free: otherwise their paths and that of
the file itself would be too many, since of all paths of one length only one leads to the home, and
the others are entries. -/
theorem exists_freeBackup
    (hdirectory : t.LinkFree directory)
    (hfile : t.node? (directory ++ [name]) = some (.file bytes age)) :
    ∃ n ≤ t.entries.length, t.exists? (directory ++ [backupName n name]) = false := by
  by_contra hall
  simp only [not_exists, not_and, Bool.not_eq_false] at hall
  let candidate (n : Nat) : Path := directory ++ [backupName n name]
  let taken := (directory ++ [name]) :: (List.range (t.entries.length + 1)).map candidate
  have hnodup : taken.Nodup := by
    refine List.nodup_cons.mpr ⟨?_, ?_⟩
    · intro hmem
      obtain ⟨n, -, hn⟩ := List.mem_map.mp hmem
      have hname : backupName n name = name := by simpa [candidate] using hn
      have := length_backupName n name
      rw [hname, length_backupSuffix] at this
      omega
    · refine List.nodup_range.map fun n m h => backupName_injective name ?_
      simpa [candidate] using h
  have hsubset : taken ⊆ t.home.take (directory.length + 1) :: t.entries.map (·.1) := by
    intro q hq
    have hthere : (t.node? q).isSome = true ∧ q.length = directory.length + 1 := by
      rcases List.mem_cons.mp hq with rfl | hq
      · simp [hfile]
      · obtain ⟨n, hn, rfl⟩ := List.mem_map.mp hq
        rw [List.mem_range] at hn
        have hclear := hdirectory.clear (isStep_backupName n name)
        exact ⟨hclear.isSome_of_exists (hall n (by omega)), by simp [candidate]⟩
    rcases mem_keys_of_node? hthere.1 with hhome | hkey
    · rw [List.prefix_iff_eq_take.mp hhome, hthere.2]
      exact List.mem_cons_self
    · exact List.mem_cons_of_mem _ hkey
  have hlength := (hnodup.subperm hsubset).length_le
  simp only [taken, List.length_cons, List.length_map, List.length_range] at hlength
  omega

/-- The path of a backup is free: as many names are tried as there are entries. -/
theorem freeBackup_eq
    (hdirectory : t.LinkFree directory)
    (hfile : t.node? (directory ++ [name]) = some (.file bytes age)) :
    ∃ n, freeBackup t (directory ++ [name]) = directory ++ [backupName n name] ∧
      t.exists? (directory ++ [backupName n name]) = false := by
  have hcandidate (n : Nat) :
      Path.sibling (directory ++ [name]) (backupName n) = directory ++ [backupName n name] :=
    Path.sibling_append directory name (backupName n)
  unfold freeBackup
  simp only [hcandidate]
  cases hfound : (List.range t.entries.length).find? fun n =>
      !t.exists? (directory ++ [backupName n name]) with
  | some n => exact ⟨n, rfl, by simpa using List.find?_some hfound⟩
  | none =>
      obtain ⟨n, hle, hn⟩ := exists_freeBackup hdirectory hfile
      rw [List.find?_range_eq_none] at hfound
      obtain rfl : n = t.entries.length := by
        by_contra hne
        have := hfound n (by omega)
        simp [hn] at this
      exact ⟨_, rfl, hn⟩

/-- A file is copied to a path where nothing was, unless names get too long. -/
theorem backUp_cases
    (hdirectory : t.LinkFree directory) (hname : Path.IsStep name)
    (hfollow : t.follow (directory ++ [name]) = .ok (directory ++ [name]))
    (hfile : t.node? (directory ++ [name]) = some (.file bytes age)) (w : Workspace) (r : Report) :
    (∃ fault, backUp t w (directory ++ [name]) r = (.error (.file fault), t)) ∨
      ∃ n, t.node? (directory ++ [backupName n name]) = none ∧
        t.follow (directory ++ [backupName n name]) = .ok (directory ++ [backupName n name]) ∧
        backUp t w (directory ++ [name]) r =
          (match Path.below? w.directory (directory ++ [backupName n name]) with
            | some relative => .ok { r with backup := some (Path.text relative) }
            | none => .error .outside,
            t.set (directory ++ [backupName n name]) (.file bytes age)) := by
  obtain ⟨n, hbackup, hfree⟩ := freeBackup_eq hdirectory hfile
  have hopen : t.openFile (directory ++ [name]) = .ok (bytes, age) := by
    simp [openFile, hfollow, hfile]
  rcases follow_beside (hdirectory.clear hname) (hdirectory.clear (isStep_backupName n name))
    hfollow with hthere | hlong
  · have hnone : t.node? (directory ++ [backupName n name]) = none := by
      simpa [exists?, target?, hthere] using hfree
    refine .inr ⟨n, hnone, hthere, ?_⟩
    have hfits : t.nameFault? (directory ++ [backupName n name]) = none := by
      simp [nameFault?, hthere]
    have hcopy : t.copy (directory ++ [name]) (directory ++ [backupName n name]) =
        .ok (t.set (directory ++ [backupName n name]) (.file bytes age)) := by
      simp [copy, hopen, write, hthere, hnone]
    simp only [backUp, hbackup, hfits, hcopy]
    cases Path.below? w.directory (directory ++ [backupName n name]) <;> rfl
  · refine .inl ⟨⟨.nameTooLong, t.display (directory ++ [backupName n name])⟩, ?_⟩
    simp only [backUp, hbackup]
    simp [nameFault?, hlong]

/-! ## Temporary files -/

/-- The files after a text has taken the place of a file by way of a temporary file. -/
def replaced (t : FileTree) (directory : Path) (name : String) (text : Text) : FileTree :=
  ((t.set (directory ++ [name ++ temporarySuffix]) (.file (Text.toUtf8 text) .fresh)).erase
    (directory ++ [name ++ temporarySuffix])).set (directory ++ [name])
      (.file (Text.toUtf8 text) .fresh)

theorem length_temporarySuffix : temporarySuffix.length = 13 := by
  decide

theorem isStep_temporary (name : String) : Path.IsStep (name ++ temporarySuffix) := by
  refine Path.isStep_of_length ?_
  rw [String.length_append, length_temporarySuffix]
  omega

theorem replaceFile_of_write {text : Text}
    (hplace : t.node? (directory ++ [name ++ temporarySuffix]) ≠ some .directory)
    (hwrite : t.write (directory ++ [name ++ temporarySuffix]) (Text.toUtf8 text) .fresh =
      .ok (t.set (directory ++ [name ++ temporarySuffix]) (.file (Text.toUtf8 text) .fresh))) :
    replaceFile t (directory ++ [name]) text = (.ok (), replaced t directory name text) := by
  simp only [replaceFile, Path.sibling_append, hwrite, rename, node?_set_self _ _ _ hplace,
    replaced]

/-- Where no temporary file was, none is left. -/
theorem replaced_eq (h : t.NoTemporaries) (directory : Path) (name : String) (text : Text) :
    replaced t directory name text =
      t.set (directory ++ [name]) (.file (Text.toUtf8 text) .fresh) := by
  rw [replaced, erase_set]
  exact fun e he => h e he directory name

theorem write_of_follow {p : Path} (hfollow : t.follow p = .ok p)
    (hplace : t.node? p ≠ some .directory) (bytes : List UInt8) (age : Age) :
    t.write p bytes age = .ok (t.set p (.file bytes age)) := by
  unfold write
  rw [hfollow]
  dsimp only
  split
  next hthere => exact absurd hthere hplace
  next => rfl

/-- The temporary file is written, or all files stay as they are. -/
theorem write_temporary_cases (hdirectory : t.LinkFree directory) (name : String) (text : Text) :
    (∃ fault message,
      t.write (directory ++ [name ++ temporarySuffix]) (Text.toUtf8 text) .fresh = .error fault ∧
        replaceFile t (directory ++ [name]) text = (.error message, t)) ∨
      t.node? (directory ++ [name ++ temporarySuffix]) ≠ some .directory ∧
        t.write (directory ++ [name ++ temporarySuffix]) (Text.toUtf8 text) .fresh =
          .ok (t.set (directory ++ [name ++ temporarySuffix])
            (.file (Text.toUtf8 text) .fresh)) := by
  have hclear := hdirectory.clear (isStep_temporary name)
  cases hfollow : t.follow (directory ++ [name ++ temporarySuffix]) with
  | error obstacle =>
      left
      simp [replaceFile, Path.sibling_append, write, hfollow, exists?, target?]
  | ok q =>
      obtain rfl := hclear.eq_of_follow hfollow
      by_cases hplace : t.node? (directory ++ [name ++ temporarySuffix]) = some .directory
      · left
        simp [replaceFile, Path.sibling_append, write, hfollow, exists?, target?, hplace, remove]
      · exact .inr ⟨hplace, write_of_follow hfollow hplace _ _⟩

/-- A file is saved as a whole, or not at all, or stays as it is next to its new backup. -/
theorem save_cases
    (hdirectory : t.LinkFree directory) (hname : Path.IsStep name)
    (hfollow : t.follow (directory ++ [name]) = .ok (directory ++ [name]))
    (hfile : t.node? (directory ++ [name]) = some (.file bytes age)) (w : Workspace) (text : Text)
    (r : Report) :
    (∃ fault, save t w (directory ++ [name]) text r = (.error (.file fault), t)) ∨
      ∃ n copied, t.node? (directory ++ [backupName n name]) = none ∧
        t.follow (directory ++ [backupName n name]) = .ok (directory ++ [backupName n name]) ∧
        copied = t.set (directory ++ [backupName n name]) (.file bytes age) ∧
        (Path.below? w.directory (directory ++ [backupName n name]) = none ∧
            save t w (directory ++ [name]) text r = (.error .outside, copied) ∨
          ∃ relative,
            Path.below? w.directory (directory ++ [backupName n name]) = some relative ∧
              ((∃ fault message,
                copied.write (directory ++ [name ++ temporarySuffix]) (Text.toUtf8 text) .fresh =
                  .error fault ∧
                save t w (directory ++ [name]) text r =
                  (.ok
                    { r with
                      backup := some (Path.text relative)
                      writeError := some message
                      success := false },
                    copied)) ∨
              save t w (directory ++ [name]) text r =
                (.ok { r with backup := some (Path.text relative), written := true },
                  replaced copied directory name text))) := by
  rcases backUp_cases hdirectory hname hfollow hfile w r with
    ⟨fault, hbackUp⟩ | ⟨n, hfree, hthere, hbackUp⟩
  · exact .inl ⟨fault, by simp [save, hbackUp]⟩
  refine .inr ⟨n, _, hfree, hthere, rfl, ?_⟩
  cases hbelow : Path.below? w.directory (directory ++ [backupName n name]) with
  | none => exact .inl ⟨rfl, by simp [save, hbackUp, hbelow]⟩
  | some relative =>
      refine .inr ⟨relative, rfl, ?_⟩
      have hcopied := hdirectory.set_file (directory ++ [backupName n name]) bytes age
      rcases write_temporary_cases hcopied name text with
        ⟨fault, message, hwrite, hreplace⟩ | ⟨hplace, hwrite⟩
      · exact .inl ⟨fault, message, hwrite, by simp [save, hbackUp, hbelow, writeBack, hreplace]⟩
      · exact .inr (by
          simp [save, hbackUp, hbelow, writeBack, replaceFile_of_write hplace hwrite])

end Backups

/-! ## What is saved -/

/-- The file that is written when a path is formatted, with its draft. -/
def saved? (t : FileTree) (w : Workspace) (path : String) (dryRun : Bool) :
    Option (Path × Draft) :=
  match t.resolve w.directory path with
  | .error _ => none
  | .ok p =>
    match (draft t w.options p).1 with
    | .error _ => none
    | .ok d => if !dryRun && d.modified && d.verdict.accepts then some (p, d) else none

variable {t : FileTree} {w : Workspace} {path : String} {dryRun : Bool} {p : Path} {d : Draft}

/-- A file that could be read is there. -/
theorem target_of_draft (h : (draft t w.options p).1 = .ok d) :
    ∃ q bytes age, t.follow p = .ok q ∧ t.node? q = some (.file bytes age) := by
  unfold draft at h
  cases hopen : t.openFile p with
  | error fault => simp [FileTree.read, hopen, Except.map] at h
  | ok content =>
      unfold openFile at hopen
      split at hopen
      · simp at hopen
      next q hfollow =>
        split at hopen
        next bytes age hfile => exact ⟨q, bytes, age, hfollow, hfile⟩
        all_goals simp at hopen

theorem resolve_of_saved (h : saved? t w path dryRun = some (p, d)) :
    t.resolve w.directory path = .ok p ∧ (draft t w.options p).1 = .ok d := by
  unfold saved? at h
  split at h
  · simp at h
  next q hresolve =>
    split at h
    · simp at h
    next e hdraft =>
      split at h
      · simp only [Option.some.injEq, Prod.mk.injEq] at h
        obtain ⟨rfl, rfl⟩ := h
        exact ⟨hresolve, hdraft⟩
      · simp at h

theorem formatFile_of_saved (h : saved? t w path dryRun = some (p, d)) :
    ∃ log, formatFile t w path dryRun =
      ⟨(save t w p d.formatted.text (draftReport path dryRun d)).1,
        (save t w p d.formatted.text (draftReport path dryRun d)).2, log⟩ := by
  obtain ⟨hresolve, hdraft⟩ := resolve_of_saved h
  obtain ⟨q, bytes, age, hfollow, hfile⟩ := target_of_draft hdraft
  have hwritten : (!dryRun && d.modified && d.verdict.accepts) = true := by
    simp only [saved?, hresolve, hdraft] at h
    split at h
    · assumption
    · simp at h
  obtain ⟨log, hdraft⟩ : ∃ log, draft t w.options p = (.ok d, log) := ⟨_, Prod.ext hdraft rfl⟩
  refine ⟨log, ?_⟩
  have hfault : t.nameFault? p = none := by simp [nameFault?, hfollow]
  have hexists : t.exists? p = true := by simp [exists?, target?, hfollow, hfile]
  simp only [formatFile, hresolve, hfault, hexists, formatAt, hdraft, hwritten, if_true]

theorem formatFile_of_not_saved (h : saved? t w path dryRun = none) :
    (formatFile t w path dryRun).tree = t := by
  unfold formatFile
  split
  · rfl
  next p hresolve =>
    split
    · rfl
    split
    · unfold formatAt
      split
      · rfl
      next d log hdraft =>
        simp only [saved?, hresolve, hdraft] at h
        split at h
        · simp at h
        next hwritten => simp [hwritten]
    · rfl

/-- A file on whose way no link stands stands in a directory. -/
theorem exists_name_of_draft (hclear : t.Clear p) (h : (draft t w.options p).1 = .ok d) :
    ∃ directory name bytes age, p = directory ++ [name] ∧
      t.follow (directory ++ [name]) = .ok (directory ++ [name]) ∧
      t.node? (directory ++ [name]) = some (.file bytes age) := by
  obtain ⟨q, bytes, age, hfollow, hfile⟩ := target_of_draft h
  obtain rfl := hclear.eq_of_follow hfollow
  rcases List.eq_nil_or_concat' q with rfl | ⟨directory, name, rfl⟩
  · simp [node?] at hfile
  · exact ⟨directory, name, bytes, age, rfl, hfollow, hfile⟩

end Workspace
end AbapLayout
