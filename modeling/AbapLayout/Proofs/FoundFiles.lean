import AbapLayout.FileTree.Glob
import AbapLayout.Proofs.Walking
import Mathlib.Data.List.Nodup

/-!
# Found files

A file that is found in a tree without links by a pattern that does not step back stands where its
path says (`FileTree.stands_of_mem_findFiles`), no file is found twice, and the displayed form of
its path leads to it again (`FileTree.resolve_text`).
-/

namespace AbapLayout

namespace Path

structure IsName (name : String) : Prop where
  step : IsStep name
  slash : '/' ∉ name.toList
  zero : '\x00' ∉ name.toList

instance (name : String) : Decidable (IsName name) :=
  decidable_of_iff (IsStep name ∧ '/' ∉ name.toList ∧ '\x00' ∉ name.toList)
    ⟨fun ⟨hstep, hslash, hzero⟩ => ⟨hstep, hslash, hzero⟩, fun h => ⟨h.step, h.slash, h.zero⟩⟩

section Text

variable {p : Path} (h : ∀ name ∈ p, IsName name)
include h

theorem parts_text (hne : p ≠ []) : parts (text p) = p := by
  have hsplit : (['/'].intercalate (p.map String.toList)).splitOn '/' = p.map String.toList :=
    List.splitOn_intercalate '/' (by simpa using fun name hname => (h name hname).slash)
      (by simpa using hne)
  have hslash : "/".toList = ['/'] := rfl
  simp only [parts, text, List.isEmpty_iff, hne, if_false, String.toList_intercalate, hslash,
    hsplit]
  simp

/-- The displayed form of a path is no path from the top. -/
theorem slash_not_prefix_text : ¬['/'] <+: (text p).toList := by
  cases p with
  | nil => decide
  | cons name rest =>
      obtain ⟨⟨hidle, -⟩, hslash, -⟩ := h name List.mem_cons_self
      intro hfront
      have htext : ∃ more, (text (name :: rest)).toList = name.toList ++ more := by
        cases rest with
        | nil => exact ⟨[], by simp [text]⟩
        | cons other rest => exact ⟨_, by simp [text, String.intercalate_cons_cons]; rfl⟩
      obtain ⟨more, hmore⟩ := htext
      rw [hmore] at hfront
      cases hname : name.toList with
      | nil =>
          have : name = "" := by simpa using hname
          simp [this, isIdle] at hidle
      | cons c cs =>
          rw [hname] at hfront hslash
          simp at hfront hslash
          exact hslash.1 hfront

theorem zero_not_mem_text : '\x00' ∉ (text p).toList := by
  have hjoined : '\x00' ∉ ("/".intercalate p).toList := by
    induction p with
    | nil => simp
    | cons name rest ih =>
        obtain ⟨hname, hrest⟩ := List.forall_mem_cons.mp h
        have hzero := hname.zero
        cases rest with
        | nil => simpa using hzero
        | cons other rest => simpa [String.intercalate_cons_cons, hzero] using ih hrest
  unfold text
  split
  · decide
  · exact hjoined

end Text

end Path

namespace FileTree

/-- What a file system provides: the home is displayed as a path from the top, everything that is
known lies below it, and names are names. -/
structure WellFormed (t : FileTree) : Prop where
  root : ['/'] <+: t.root.toList
  below : ∀ e ∈ t.entries, t.home <+: e.1 ∧ e.1 ≠ t.home
  names : ∀ e ∈ t.entries, ∀ name ∈ e.1, Path.IsName name

variable {t : FileTree}

/-- The displayed form of a path below a directory leads to it. -/
theorem resolve_text (hlinks : t.Linkless) (hroot : ['/'] <+: t.root.toList) {directory p : Path}
    (hdirectory : Path.Proper directory) (hp : ∀ name ∈ p, Path.IsName name) :
    t.resolve directory (Path.text p) = .ok (directory ++ p) := by
  have hslash := Path.slash_not_prefix_text hp
  have hstart : t.start directory (Path.text p) = (directory, Path.parts (Path.text p)) := by
    have hroot' : Path.text p ≠ t.root := fun heq => hslash (heq ▸ hroot)
    have hbelow : (Path.text p).startsWith (t.root ++ "/") = false := by
      rw [String.startsWith_string_eq_false_iff, String.toList_append]
      exact fun hfront => hslash (hroot.trans ((List.prefix_append _ _).trans hfront))
    have htop : (Path.text p).startsWith "/" = false := by
      rw [String.startsWith_string_eq_false_iff]
      exact hslash
    simp [start, hroot', hbelow, htop]
  have hproper : Path.Proper (directory ++ p) :=
    Path.proper_append.mpr ⟨hdirectory, fun name hname => (hp name hname).step⟩
  have hfollow : (Path.parts (Path.text p)).foldl Path.follow directory = directory ++ p := by
    by_cases hne : p = []
    · subst hne
      have hidle : Path.parts (Path.text []) = ["."] := by decide +kernel
      simp [hidle, Path.follow, Path.isIdle]
    · rw [Path.parts_text hp hne]
      exact Path.foldl_follow_of_proper (Path.proper_append.mp hproper).2 directory
  rw [hlinks.resolve_eq, hstart]
  dsimp only
  rw [hfollow, Path.normalize_of_proper hproper, if_neg]
  simpa using Path.zero_not_mem_text hp

/-! ## Patterns -/

theorem exists_of_mem_mapM {α β : Type} {f : α → Option β} {l : List α} {l' : List β}
    (h : l.mapM f = some l') {b : β} (hb : b ∈ l') : ∃ a ∈ l, f a = some b := by
  induction l generalizing l' with
  | nil =>
      obtain rfl : l' = [] := by simpa [eq_comm] using h
      simp at hb
  | cons a l ih =>
      rw [List.mapM_cons] at h
      simp only [Option.bind_eq_bind, Option.bind_eq_some_iff, Option.pure_def,
        Option.some.injEq] at h
      obtain ⟨c, hc, rest, hrest, rfl⟩ := h
      rcases List.mem_cons.mp hb with rfl | hb
      · exact ⟨a, List.mem_cons_self, hc⟩
      · obtain ⟨a', ha', hb⟩ := ih hrest hb
        exact ⟨a', List.mem_cons_of_mem a ha', hb⟩

/-- A text that does not step back is a pattern that does not. -/
theorem isStep_of_pattern {s name : String} {g : Glob.Pattern} (hback : ".." ∉ Path.steps s)
    (hg : Glob.Pattern.ofText? s = some g) (hname : .name name ∈ g.parts) : Path.IsStep name := by
  unfold Glob.Pattern.ofText? at hg
  obtain ⟨parts, hparts, rfl⟩ := Option.map_eq_some_iff.mp hg
  obtain ⟨step, hstep, hpart⟩ := exists_of_mem_mapM hparts hname
  have hsame : step = name := by
    simp only [Glob.Part.ofName?] at hpart
    grind
  subst hsame
  have hidle : Path.isIdle step = false := by simpa using (List.mem_filter.mp hstep).2
  exact ⟨hidle, fun heq => hback (heq ▸ hstep)⟩

/-! ## Where found files stand -/

/-- A file stands where a path says. -/
structure Stands (t : FileTree) (p : Path) : Prop where
  proper : Path.Proper p
  follow : t.follow p = .ok p
  file : ∃ bytes age, t.node? p = some (.file bytes age)

theorem Stands.names {p : Path} (h : t.Stands p) (hformed : t.WellFormed) :
    ∀ name ∈ p, Path.IsName name := by
  obtain ⟨bytes, age, hfile⟩ := h.file
  exact hformed.names _ (mem_entries_of_node? hfile (by simp))

theorem Clear.of_isFile {p : Path} (h : t.Clear p) (hfile : t.isFile p = true) :
    ∃ bytes age, t.follow p = .ok p ∧ t.node? p = some (.file bytes age) := by
  unfold isFile target? at hfile
  cases hfollow : t.follow p with
  | error obstacle => simp [hfollow] at hfile
  | ok q =>
      obtain rfl := h.eq_of_follow hfollow
      rw [hfollow] at hfile
      dsimp only at hfile
      split at hfile
      next bytes age hnode => exact ⟨bytes, age, rfl, hnode⟩
      next => simp at hfile

section Select

variable (hlinks : t.Linkless) (hformed : t.WellFormed)
include hlinks hformed

/-- A pattern without steps back leads downwards. -/
theorem proper_of_mem_select {parts : List Glob.Part} {p q : Path}
    (hparts : ∀ s, .name s ∈ parts → Path.IsStep s) (hp : Path.Proper p)
    (hq : q ∈ t.select parts p) : Path.Proper q ∧ p <+: q := by
  -- Where a path leads, and what of an entry stands below it.
  have hbelow {p directory rest : Path} {e : Path × Node} (hp : Path.Proper p)
      (hfollow : t.follow p = .ok directory) (he : e ∈ t.entries)
      (hrest : Path.below? directory e.1 = some rest) : Path.Proper (p ++ rest) := by
    obtain rfl := (hlinks.clear hp).eq_of_follow hfollow
    rw [← Path.below?_eq_some.mp hrest]
    exact fun name hname => (hformed.names e he name hname).step
  induction parts generalizing p with
  | nil =>
      obtain rfl : q = p := by simpa [select] using hq
      exact ⟨hp, List.prefix_refl _⟩
  | cons part parts ih =>
      have hrest := fun s hs => hparts s (List.mem_cons_of_mem part hs)
      have hstep {more : Path} (hmore : Path.Proper (p ++ more))
          (hq : q ∈ t.select parts (p ++ more)) : Path.Proper q ∧ p <+: q := by
        obtain ⟨hproper, hfront⟩ := ih hrest hmore hq
        exact ⟨hproper, (List.prefix_append p more).trans hfront⟩
      cases part with
      | name s =>
          have hname : Path.Proper [s] := by
            simpa [Path.Proper] using hparts s List.mem_cons_self
          rw [select, List.mem_ite_nil_right] at hq
          exact hstep (Path.proper_append.mpr ⟨hp, hname⟩) hq.2
      | depth =>
          simp only [select] at hq
          split at hq
          next directory hfollow =>
            obtain ⟨more, hmore, hq⟩ := List.mem_flatMap.mp hq
            refine hstep ?_ hq
            rcases List.mem_cons.mp hmore with rfl | hmore
            · simpa using hp
            · obtain ⟨e, he, hentry⟩ := List.mem_filterMap.mp hmore
              split at hentry
              next name rest _ hrest =>
                obtain rfl : name :: rest = more := by simpa using hentry
                exact hbelow hp hfollow he hrest
              next => simp at hentry
          next => simp at hq
      | pattern pattern =>
          simp only [select] at hq
          split at hq
          next directory hfollow =>
            obtain ⟨name, hname, hq⟩ := List.mem_flatMap.mp hq
            obtain ⟨e, he, hentry⟩ := List.mem_filterMap.mp hname
            split at hq
            · refine hstep ?_ hq
              split at hentry
              next other hrest =>
                obtain rfl : other = name := by simpa using hentry
                exact hbelow hp hfollow he hrest
              next => simp at hentry
            · simp at hq
          next => simp at hq

/-- Found files stand where their paths say, below the directory that is searched. -/
theorem stands_of_mem_findFiles {patterns : List Glob.Pattern} {directory p : Path}
    (hpatterns : ∀ g ∈ patterns, ∀ s, .name s ∈ g.parts → Path.IsStep s)
    (hdirectory : Path.Proper directory) (hp : p ∈ t.findFiles directory patterns) :
    t.Stands p ∧ ∃ rest, rest ≠ [] ∧ p = directory ++ rest := by
  obtain ⟨hfound, hfile⟩ := List.mem_filter.mp hp
  obtain ⟨hsearched, g, hg, hmem⟩ : t.isDirectory directory = true ∧
      ∃ g ∈ patterns, p ∈ t.select (.depth :: g.parts) directory := by
    unfold find at hfound
    split at hfound
    next hsearched =>
      simp only [List.mem_eraseDups, List.mem_mergeSort, List.mem_flatMap, List.mem_filter]
        at hfound
      obtain ⟨g, hg, hmem, -⟩ := hfound
      exact ⟨hsearched, g, hg, hmem⟩
    · simp at hfound
  have hparts (s : String) (hs : .name s ∈ Glob.Part.depth :: g.parts) : Path.IsStep s :=
    hpatterns g hg s (by simpa using hs)
  obtain ⟨hproper, rest, rfl⟩ := proper_of_mem_select hlinks hformed hparts hdirectory hmem
  rw [Bool.and_eq_true] at hfile
  obtain ⟨bytes, age, hfollow, hnode⟩ := (hlinks.clear hproper).of_isFile hfile.1
  refine ⟨⟨hproper, hfollow, bytes, age, hnode⟩, rest, ?_, rfl⟩
  rintro rfl
  rw [List.append_nil] at hfollow hnode
  simp [isDirectory, target?, hfollow, hnode] at hsearched

end Select

theorem nodup_eraseDups {α : Type} [BEq α] [LawfulBEq α] (l : List α) : l.eraseDups.Nodup := by
  match l with
  | [] => simp
  | a :: rest =>
      rw [List.eraseDups_cons, List.nodup_cons]
      exact ⟨by simp, nodup_eraseDups _⟩
termination_by l.length
decreasing_by exact Nat.lt_succ_of_le (List.length_filter_le _ _)

/-- No file is found twice. -/
theorem nodup_findFiles (t : FileTree) (directory : Path) (patterns : List Glob.Pattern) :
    (t.findFiles directory patterns).Nodup := by
  refine List.Nodup.filter _ ?_
  unfold find
  split
  · exact nodup_eraseDups _
  · exact List.nodup_nil

/-- The found files, by their paths below the directory that is searched. -/
theorem findFiles_eq
    (hlinks : t.Linkless) (hformed : t.WellFormed) {patterns : List Glob.Pattern} {directory : Path}
    (hpatterns : ∀ g ∈ patterns, ∀ s, .name s ∈ g.parts → Path.IsStep s)
    (hdirectory : Path.Proper directory) :
    ∃ files : List Path, t.findFiles directory patterns = files.map (directory ++ ·) ∧
      files.Nodup ∧ ∀ below ∈ files, below ≠ [] ∧ t.Stands (directory ++ below) := by
  have hfound := fun p (hp : p ∈ t.findFiles directory patterns) =>
    stands_of_mem_findFiles hlinks hformed hpatterns hdirectory hp
  let files := (t.findFiles directory patterns).map (·.drop directory.length)
  have hsame : t.findFiles directory patterns = files.map (directory ++ ·) := by
    have hpath : ∀ p ∈ t.findFiles directory patterns,
        directory ++ p.drop directory.length = p := by
      intro p hp
      obtain ⟨-, rest, -, rfl⟩ := hfound p hp
      simp
    rw [List.map_map]
    exact (List.map_id' _).symm.trans (List.map_congr_left fun p hp => (hpath p hp).symm)
  refine ⟨files, hsame, List.Nodup.of_map _ (hsame ▸ nodup_findFiles t directory patterns), ?_⟩
  intro below hbelow
  obtain ⟨p, hp, rfl⟩ := List.mem_map.mp hbelow
  obtain ⟨hstands, rest, hne, rfl⟩ := hfound p hp
  simpa using ⟨hne, hstands⟩

/-- What is found in order needs no sorting. -/
theorem find_of_pairwise {directory : Path} {patterns : List Glob.Pattern} (found : List Path)
    (hdirectory : t.isDirectory directory = true)
    (hfound : (patterns.flatMap fun g =>
      (t.select (.depth :: g.parts) directory).filter fun p =>
        !g.directoriesOnly || t.isDirectory p) = found)
    (hsorted : found.Pairwise fun p q => Path.isLE p q = true)
    (hdistinct : found.eraseDups = found) :
    t.find directory patterns = found := by
  rw [find, if_pos hdirectory, hfound]
  simp only [List.mergeSort_of_pairwise hsorted, hdistinct]

end FileTree
end AbapLayout
