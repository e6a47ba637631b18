import AbapLayout.Proofs.FoundFiles
import AbapLayout.Proofs.Saving

/-!
# Previews

A dry run of a scan foretells the reports of the scan itself (`Workspace.scan_foretold`).  While the
scan goes on, the files that it still has to format stay as they were when they were found: what it
puts beside them has new paths, and no directory goes away (`Workspace.Agrees`).
-/

namespace AbapLayout
namespace Workspace

open FileTree

/-! ## Foretold reports -/

/-- A report that a preview foretells. -/
structure Foretells (preview real : Report) : Prop where
  path : real.path = preview.path
  status : real.status = if preview.status = .preview then .formatted else preview.status
  success : real.success = preview.success
  changed : real.changed = preview.changed
  fallback : real.fallback = preview.fallback
  fallbackReason : real.fallbackReason = preview.fallbackReason
  formattedText : real.formattedText = preview.formattedText
  sourceText : real.sourceText = preview.sourceText
  validationError : real.validationError = preview.validationError
  error : real.error = preview.error
  unwritten : preview.written = false
  written : real.written = true ↔ real.status = .formatted

/-- What has been written, by the reports on the files at some paths. -/
structure Wrote (before after : FileTree) (done : List (Path × Report)) : Prop where
  formatted : ∀ e ∈ done, e.2.status = .formatted →
    ∃ text, e.2.formattedText = some (String.ofList text) ∧
      after.node? e.1 = some (.file (Text.toUtf8 text) .fresh)
  others : ∀ q n, before.node? q = some n →
    after.node? q = some n ∨ ∃ e ∈ done, e.1 = q ∧ e.2.status = .formatted

/-- The report on a file before it is written, if it is to be. -/
def reportOn (t : FileTree) (w : Workspace) (path : String) (p : Path) (dryRun : Bool) : Report :=
  match (draft t w.options p).1 with
  | .error message => errorReport path .engineError message
  | .ok d => draftReport path dryRun d

theorem Wrote.refl (t : FileTree) {e : Path × Report} (h : e.2.status ≠ .formatted) :
    Wrote t t [e] where
  formatted := by simp [h]
  others := fun _ _ hq => .inl hq

theorem Wrote.cons {before between after : FileTree} {e : Path × Report}
    {done : List (Path × Report)} (first : Wrote before between [e])
    (others : Wrote between after done) (hnew : e.1 ∉ done.map (·.1)) :
    Wrote before after (e :: done) where
  formatted := by
    rintro e' he' hstatus
    rcases List.mem_cons.mp he' with rfl | he'
    · obtain ⟨text, htext, hnode⟩ := first.formatted e' List.mem_cons_self hstatus
      refine ⟨text, htext, (others.others _ _ hnode).resolve_right ?_⟩
      rintro ⟨e, he, heq, -⟩
      exact hnew (heq ▸ List.mem_map_of_mem he)
    · exact others.formatted e' he' hstatus
  others q n hq := by
    rcases first.others q n hq with hq | ⟨e', he', heq, hstatus⟩
    · rcases others.others q n hq with hq | ⟨e', he', heq⟩
      · exact .inl hq
      · exact .inr ⟨e', List.mem_cons_of_mem e he', heq⟩
    · obtain rfl := List.mem_singleton.mp he'
      exact .inr ⟨e', List.mem_cons_self, heq, hstatus⟩

theorem foretells_of_unwritten (path : String) {d : Draft}
    (h : (d.modified && d.verdict.accepts) = false) :
    Foretells (draftReport path true d) (draftReport path false d) ∧
      (draftReport path false d).status ≠ .formatted := by
  have hstatus : deriveStatus d.modified false d.verdict.accepts =
      deriveStatus d.modified true d.verdict.accepts ∧
      deriveStatus d.modified true d.verdict.accepts ≠ .preview ∧
      deriveStatus d.modified false d.verdict.accepts ≠ .formatted := by
    rcases Bool.eq_false_or_eq_true d.modified with hm | hm <;>
      rcases Bool.eq_false_or_eq_true d.verdict.accepts with ha | ha <;>
      simp_all [deriveStatus]
  obtain ⟨hsame, hpreview, hformatted⟩ := hstatus
  refine ⟨⟨rfl, ?_, rfl, rfl, rfl, rfl, rfl, rfl, rfl, rfl, rfl, ?_⟩, hformatted⟩
  · exact hsame.trans (if_neg hpreview).symm
  · exact iff_of_false Bool.false_ne_true hformatted

theorem foretells_of_written (path backup : String) {d : Draft}
    (h : (d.modified && d.verdict.accepts) = true) :
    Foretells (draftReport path true d)
        { draftReport path false d with backup := some backup, written := true } ∧
      (draftReport path false d).status = .formatted := by
  obtain ⟨hmodified, haccepts⟩ := Bool.and_eq_true_iff.mp h
  have hpreview : deriveStatus d.modified true d.verdict.accepts = .preview := by
    simp [deriveStatus, hmodified, haccepts]
  have hformatted : deriveStatus d.modified false d.verdict.accepts = .formatted := by
    simp [deriveStatus, hmodified, haccepts]
  refine ⟨⟨rfl, ?_, rfl, rfl, rfl, rfl, rfl, rfl, rfl, rfl, rfl, ?_⟩, hformatted⟩
  · exact hformatted.trans (if_pos hpreview).symm
  · exact iff_of_true rfl hformatted

/-! ## What stays while a scan goes on -/

/-- What stays of a tree while the files at some paths still have to be formatted. -/
structure Agrees (t t' : FileTree) (todo : List Path) : Prop where
  root : t'.root = t.root
  home : t'.home = t.home
  linkless : t'.Linkless
  noTemporaries : t'.NoTemporaries
  directories : ∀ q, t.node? q = some .directory → t'.node? q = some .directory
  files : ∀ p ∈ todo, t'.node? p = t.node? p

section Single

variable {t t' : FileTree} {w : Workspace} {path : String} {p : Path} {todo : List Path}

theorem Agrees.stands (h : Agrees t t' todo) (hp : p ∈ todo) (hlinks : t.Linkless)
    (hstands : t.Stands p) : t'.Stands p where
  proper := hstands.proper
  follow := follow_of_directories h.root h.home h.directories (hlinks.clear hstands.proper)
    (h.linkless.clear hstands.proper) hstands.follow
  file := by rw [h.files p hp]; exact hstands.file

theorem Agrees.draft_eq (h : Agrees t t' todo) (hp : p ∈ todo) (hlinks : t.Linkless)
    (hstands : t.Stands p) (o : Options) : draft t' o p = draft t o p := by
  obtain ⟨bytes, age, hfile⟩ := hstands.file
  have hread : t'.read p = t.read p := by
    simp [FileTree.read, openFile, hstands.follow, (h.stands hp hlinks hstands).follow,
      h.files p hp, hfile]
  simp only [draft, hread]

theorem formatFile_of_stands (hresolve : t.resolve w.directory path = .ok p) (h : t.Stands p)
    (dryRun : Bool) : formatFile t w path dryRun = formatAt t w path p dryRun := by
  obtain ⟨bytes, age, hfile⟩ := h.file
  simp [formatFile, hresolve, nameFault?, exists?, target?, h.follow, hfile]

/-- A dry run changes nothing. -/
theorem formatFile_dry (hresolve : t.resolve w.directory path = .ok p) (h : t.Stands p) :
    ∃ log, formatFile t w path true = ⟨.ok (reportOn t w path p true), t, log⟩ := by
  rw [formatFile_of_stands hresolve h]
  unfold formatAt reportOn
  rcases draft t w.options p with ⟨_ | d, log⟩
  · exact ⟨_, rfl⟩
  · exact ⟨log, rfl⟩

end Single

/-! ## One file -/

section Saved

variable {t : FileTree} {w : Workspace} {directory : Path} {name : String}

theorem utf8ByteSize_temporary_le (n : Nat) (name : String) :
    (name ++ temporarySuffix).utf8ByteSize ≤ (backupName n name).utf8ByteSize := by
  have htemporary : temporarySuffix.utf8ByteSize = 13 := by decide +kernel
  have hbackup : backupSuffix.utf8ByteSize = 16 := by decide +kernel
  unfold backupName
  split <;> simp only [String.utf8ByteSize_append] <;> omega

/-- A file below the home is saved as a whole, or not at all since the path of its backup is too
long: that of the temporary file is shorter. -/
theorem save_of_stands
    (hlinks : t.Linkless) (htemporaries : t.NoTemporaries) (h : t.Stands (directory ++ [name]))
    (hhome : t.home <+: directory) (hinside : w.directory <+: directory) (text : Text)
    (r : Report) :
    (∃ fault, save t w (directory ++ [name]) text r = (.error (.file fault), t)) ∨
      ∃ n relative bytes age, t.node? (directory ++ [backupName n name]) = none ∧
        t.node? (directory ++ [name]) = some (.file bytes age) ∧
        save t w (directory ++ [name]) text r =
          (.ok { r with backup := some (Path.text relative), written := true },
            (t.set (directory ++ [backupName n name]) (.file bytes age)).set (directory ++ [name])
              (.file (Text.toUtf8 text) .fresh)) := by
  obtain ⟨hproper, hfollow, bytes, age, hfile⟩ := h
  obtain ⟨hdirectory, hname⟩ := Path.proper_append.mp hproper
  have hfree := hlinks.linkFree hdirectory
  rcases save_cases hfree (hname name (by simp)) hfollow hfile w text r with
    hfault | ⟨n, copied, hnone, hbackup, rfl, ⟨hbelow, -⟩ | ⟨relative, -, hsave⟩⟩
  · exact .inl hfault
  · exact absurd (hinside.trans (List.prefix_append _ _)) (Path.below?_eq_none.mp hbelow)
  right
  have hclean : (t.set (directory ++ [backupName n name]) (.file bytes age)).NoTemporaries :=
    htemporaries.set _ (backupName_ne_temporary n name)
  rcases hsave with ⟨fault, message, hwrite, -⟩ | hsave
  · have hcopied := hlinks.set_file (directory ++ [backupName n name]) bytes age
    have htemporary := isStep_temporary name
    have hthere : t.follow (directory ++ [name ++ temporarySuffix]) =
        .ok (directory ++ [name ++ temporarySuffix]) :=
      follow_of_size_le (hfree.clear (isStep_backupName n name)) (hfree.clear htemporary) hhome
        (utf8ByteSize_temporary_le n name) hbackup
    have hdirectories (q : Path) (hq : t.node? q = some .directory) :
        (t.set (directory ++ [backupName n name]) (.file bytes age)).node? q =
          some .directory := by
      rw [node?_set_of_ne t _ _ (by rintro rfl; simp [hnone] at hq), hq]
    have hstill := follow_of_directories (by simp) (by simp) hdirectories
      (hfree.clear htemporary) ((hcopied.linkFree hdirectory).clear htemporary) hthere
    have hplace := hclean.node?_eq_none (by simpa using hhome) name
    rw [write_of_follow hstill (by simp [hplace])] at hwrite
    simp at hwrite
  · rw [replaced_eq hclean] at hsave
    exact ⟨n, relative, bytes, age, hnone, hfile, hsave⟩

end Saved

section Step

variable {t t' : FileTree} {w : Workspace} {path : String} {directory : Path} {name : String}
  {rest : List Path}

variable {n : Nat} {bytes written : List UInt8} {age : Age}

/-- Everything but the file stays where it is while a file is saved. -/
theorem node?_of_saved
    (free : t.node? (directory ++ [backupName n name]) = none) {q : Path} {m : Node}
    (hq : t.node? q = some m) (hne : q ≠ directory ++ [name]) :
    ((t.set (directory ++ [backupName n name]) (.file bytes age)).set (directory ++ [name])
      (.file written .fresh)).node? q = some m := by
  have hbackup : q ≠ directory ++ [backupName n name] := by
    rintro rfl
    simp [free] at hq
  rw [node?_set_of_ne _ _ _ hne, node?_set_of_ne _ _ _ hbackup, hq]

/-- What is still to be formatted stays as it was while a file is saved. -/
theorem Agrees.save
    (h : Agrees t t' ((directory ++ [name]) :: rest)) (hrest : ∀ q ∈ rest, t.Stands q)
    (hnew : directory ++ [name] ∉ rest)
    (free : t'.node? (directory ++ [backupName n name]) = none)
    (file : t'.node? (directory ++ [name]) = some (.file bytes age)) :
    Agrees t
      ((t'.set (directory ++ [backupName n name]) (.file bytes age)).set (directory ++ [name])
        (.file written .fresh)) rest where
  root := by simp [h.root]
  home := by simp [h.home]
  linkless := (h.linkless.set_file _ _ _).set_file _ _ _
  noTemporaries := (h.noTemporaries.set _ (backupName_ne_temporary n name)).set _
    (h.noTemporaries.name_ne file)
  directories q hq := by
    have hthere := h.directories q hq
    exact node?_of_saved free hthere (by rintro rfl; simp [file] at hthere)
  files q hq := by
    -- It is no path of the backup, where nothing was, and no second path of the file.
    obtain ⟨bytes, age, hfile⟩ := (hrest q hq).file
    have hsame := h.files q (List.mem_cons_of_mem _ hq)
    rw [hfile]
    exact node?_of_saved free (hsame.trans hfile) fun heq => hnew (heq ▸ hq)

theorem Wrote.save {text : Text} {r : Report}
    (free : t.node? (directory ++ [backupName n name]) = none)
    (file : t.node? (directory ++ [name]) = some (.file bytes age))
    (hstatus : r.status = .formatted) (htext : r.formattedText = some (String.ofList text)) :
    Wrote t
      ((t.set (directory ++ [backupName n name]) (.file bytes age)).set (directory ++ [name])
        (.file (Text.toUtf8 text) .fresh)) [(directory ++ [name], r)] where
  formatted := by
    intro e he _
    obtain rfl := List.mem_singleton.mp he
    have hbackup : directory ++ [name] ≠ directory ++ [backupName n name] := by
      intro heq
      simp [← heq, file] at free
    refine ⟨text, htext, node?_set_self _ _ _ ?_⟩
    simp [node?_set_of_ne _ _ _ hbackup, file]
  others q m hq := by
    by_cases hne : q = directory ++ [name]
    · exact .inr ⟨_, List.mem_singleton_self _, hne.symm, hstatus⟩
    · exact .inl (node?_of_saved free hq hne)

/-- The dry run foretells what becomes of a file, unless the path of its backup is too long. -/
theorem formatFile_foretold
    (hlinks : t.Linkless) (h : Agrees t t' ((directory ++ [name]) :: rest))
    (hstands : t.Stands (directory ++ [name])) (hrest : ∀ q ∈ rest, t.Stands q)
    (hnew : directory ++ [name] ∉ rest) (hhome : t.home <+: directory)
    (hinside : w.directory <+: directory)
    (hresolve : t'.resolve w.directory path = .ok (directory ++ [name])) :
    (∃ fault log, formatFile t' w path false = ⟨.error (.file fault), t', log⟩) ∨
      ∃ real after log, formatFile t' w path false = ⟨.ok real, after, log⟩ ∧
        real.path = some path ∧
        Foretells (reportOn t w path (directory ++ [name]) true) real ∧
        Agrees t after rest ∧ Wrote t' after [(directory ++ [name], real)] := by
  have hstands' := h.stands List.mem_cons_self hlinks hstands
  have hdraft := h.draft_eq List.mem_cons_self hlinks hstands w.options
  rw [formatFile_of_stands hresolve hstands']
  have hagrees : Agrees t t' rest :=
    ⟨h.root, h.home, h.linkless, h.noTemporaries, h.directories,
      fun q hq => h.files q (List.mem_cons_of_mem _ hq)⟩
  unfold formatAt reportOn
  rw [hdraft]
  rcases draft t w.options (directory ++ [name]) with ⟨message | d, log⟩
  · refine .inr ⟨_, t', _, rfl, rfl, ?_, hagrees, Wrote.refl t' (by simp [errorReport])⟩
    constructor <;> simp [errorReport]
  · cases hwritten : d.modified && d.verdict.accepts with
    | false =>
        obtain ⟨hforetells, hstatus⟩ := foretells_of_unwritten path hwritten
        refine .inr ⟨draftReport path false d, t', log, ?_, rfl, hforetells, hagrees,
          Wrote.refl t' hstatus⟩
        simp [hwritten]
    | true =>
        simp only [Bool.not_false, Bool.true_and, hwritten, if_true]
        rcases save_of_stands (w := w) h.linkless h.noTemporaries hstands' (h.home ▸ hhome) hinside
          d.formatted.text (draftReport path false d) with
          ⟨fault, hsave⟩ | ⟨n, relative, bytes, age, free, file, hsave⟩
        · exact .inl ⟨fault, log, by rw [hsave]⟩
        · obtain ⟨hforetells, hstatus⟩ :=
            foretells_of_written path (Path.text relative) hwritten
          have htext : (draftReport path false d).formattedText =
              some (String.ofList d.formatted.text) := by
            simp [draftReport, (Bool.and_eq_true_iff.mp hwritten).1]
          refine .inr ⟨_, _, log, by rw [hsave], rfl, hforetells,
            h.save hrest hnew free file, Wrote.save free file hstatus htext⟩

end Step

/-! ## Many files -/

section Many

variable {t t' : FileTree} {w : Workspace} {todo : List Path} (hlinks : t.Linkless)
  (hformed : t.WellFormed) (hdirectory : Path.Proper w.directory)
include hlinks hformed hdirectory

theorem formatAll_dry (hstands : ∀ below ∈ todo, t.Stands (w.directory ++ below)) :
    ∃ log, formatAll t w true (todo.map Path.text) =
      ⟨.ok (todo.map fun below => reportOn t w (Path.text below) (w.directory ++ below) true), t,
        log⟩ := by
  induction todo with
  | nil => exact ⟨[], rfl⟩
  | cons below todo ih =>
      obtain ⟨hfirst, hothers⟩ := List.forall_mem_cons.mp hstands
      have hresolve := resolve_text hlinks hformed.root hdirectory fun name hname =>
        hfirst.names hformed name (List.mem_append_right _ hname)
      obtain ⟨log, hfirst⟩ := formatFile_dry hresolve hfirst
      obtain ⟨more, hothers⟩ := ih hothers
      exact ⟨log ++ more, by simp [formatAll, hfirst, hothers, Except.map]⟩

/-- The dry run foretells what becomes of some files that stand below the directory. -/
theorem formatAll_foretold
    (h : Agrees t t' (todo.map (w.directory ++ ·)))
    (hstands : ∀ below ∈ todo, below ≠ [] ∧ t.Stands (w.directory ++ below))
    (hnodup : todo.Nodup) :
    (∃ fault, (formatAll t' w false (todo.map Path.text)).value = .error (.file fault)) ∨
      ∃ done, (formatAll t' w false (todo.map Path.text)).value = .ok (done.map (·.2)) ∧
        done.map (·.1) = todo.map (w.directory ++ ·) ∧
        (∀ e ∈ done, ∃ below, e.1 = w.directory ++ below ∧ e.2.path = some (Path.text below)) ∧
        List.Forall₂ Foretells
          (todo.map fun below => reportOn t w (Path.text below) (w.directory ++ below) true)
          (done.map (·.2)) ∧
        Wrote t' (formatAll t' w false (todo.map Path.text)).tree done := by
  induction todo generalizing t' with
  | nil => exact .inr ⟨[], rfl, rfl, by simp, .nil, by simp, fun _ _ hq => .inl hq⟩
  | cons below todo ih =>
      obtain ⟨⟨hne, hfirst⟩, hothers⟩ := List.forall_mem_cons.mp hstands
      obtain ⟨hnew, hdistinct⟩ := List.nodup_cons.mp hnodup
      have hresolve := resolve_text h.linkless (h.root ▸ hformed.root) hdirectory
        fun name hname => hfirst.names hformed name (List.mem_append_right _ hname)
      have hrest : ∀ q ∈ todo.map (w.directory ++ ·), t.Stands q := by
        intro q hq
        obtain ⟨other, hother, rfl⟩ := List.mem_map.mp hq
        exact (hothers other hother).2
      have hnewPath : w.directory ++ below ∉ todo.map (w.directory ++ ·) := by simpa using hnew
      obtain ⟨way, name, rfl⟩ := (List.eq_nil_or_concat' below).resolve_left hne
      have hhome : t.home <+: w.directory ++ way := by
        obtain ⟨bytes, age, hfile⟩ := hfirst.file
        obtain ⟨hfront, hbelow⟩ := hformed.below _ (mem_entries_of_node? hfile (by simp))
        rw [← List.append_assoc] at hfront hbelow
        exact (List.prefix_concat_iff.mp hfront).resolve_left hbelow.symm
      have hforetold := formatFile_foretold hlinks (by simpa using h) (by simpa using hfirst) hrest
        (by simpa using hnewPath) hhome (List.prefix_append _ _) (by simpa using hresolve)
      rcases hforetold with ⟨fault, log, hreal⟩ |
        ⟨real, after, log, hreal, hpath, hforetells, hafter, hwrote⟩
      · exact .inl ⟨fault, by simp [formatAll, hreal]⟩
      rcases ih hafter hothers hdistinct with
        ⟨fault, hreals⟩ | ⟨done, hreals, hplaces, hpaths, hall, hwrotes⟩
      · exact .inl ⟨fault, by simp [formatAll, hreal, hreals, Except.map]⟩
      refine .inr ⟨(w.directory ++ (way ++ [name]), real) :: done, ?_, ?_, ?_, ?_, ?_⟩
      · simp [formatAll, hreal, hreals, Except.map]
      · simp [hplaces]
      · exact List.forall_mem_cons.mpr ⟨⟨_, rfl, hpath⟩, hpaths⟩
      · exact .cons (by simpa using hforetells) hall
      · simp only [List.map_cons, formatAll, hreal]
        exact Wrote.cons (by simpa using hwrote) hwrotes (hplaces ▸ hnewPath)

end Many

/-! ## Scans -/

/-- No pattern of some extensions steps back to the directory before. -/
def StaysBelow (extensions : Value) : Prop :=
  ∀ es, readExtensions extensions = .ok es → ∀ e ∈ bothCases es, ".." ∉ Path.steps ("*" ++ e)

theorem StaysBelow.isStep {extensions : Value} (h : StaysBelow extensions)
    {ps : List Glob.Pattern}
    (hps : ((readExtensions extensions).bind fun es => patterns (bothCases es)) = .ok ps) :
    ∀ g ∈ ps, ∀ s, .name s ∈ g.parts → Path.IsStep s := by
  intro g hg s hs
  cases hes : readExtensions extensions with
  | error fault => simp [hes, Except.bind] at hps
  | ok es =>
      simp only [hes, Except.bind, patterns] at hps
      split at hps
      next hmap =>
        obtain rfl := Except.ok.inj hps
        obtain ⟨e, he, hpattern⟩ := exists_of_mem_mapM hmap hg
        exact isStep_of_pattern (h es hes e he) hpattern hs
      next => simp at hps

/-- A dry run of a scan changes nothing and foretells the scan: this gives the same reports, but
that previews have been formatted, and writes the files that are reported as formatted.  The only
files that are otherwise than before are those. -/
theorem scan_foretold
    {t : FileTree} (hlinks : t.Linkless) (htemporaries : t.NoTemporaries) (hformed : t.WellFormed)
    {w : Workspace} (hdirectory : Path.Proper w.directory) {extensions : Value}
    (hbelow : StaysBelow extensions) (depth : Value)
    (hsystem : ∀ fault, (scan t w extensions false depth).value ≠ .error (.file fault)) :
    (scan t w extensions true depth).tree = t ∧
      ((∃ fault, (scan t w extensions true depth).value = .error fault ∧
          (scan t w extensions false depth).value = .error fault ∧
          (scan t w extensions false depth).tree = t) ∨
        ∃ found previews done,
          (scan t w extensions true depth).value = .ok ⟨found, previews⟩ ∧
          (scan t w extensions false depth).value = .ok ⟨found, done.map (·.2)⟩ ∧
          List.Forall₂ Foretells previews (done.map (·.2)) ∧
          (∀ e ∈ done, ∃ below, e.1 = w.directory ++ below ∧ e.2.path = some (Path.text below)) ∧
          Wrote t (scan t w extensions false depth).tree done) := by
  unfold scan at hsystem ⊢
  rcases hdepth : readDepth depth with ⟨fault | limit, log⟩
  · exact ⟨rfl, .inl ⟨fault, rfl, rfl, rfl⟩⟩
  cases hps : (readExtensions extensions).bind fun es => patterns (bothCases es) with
  | error fault => exact ⟨rfl, .inl ⟨fault, rfl, rfl, rfl⟩⟩
  | ok ps =>
      obtain ⟨files, hfiles, hnodup, hstands⟩ :=
        findFiles_eq hlinks hformed (hbelow.isStep hps) hdirectory
      have hdrop : (t.findFiles w.directory ps).map (·.drop w.directory.length) = files := by
        simp [hfiles, Function.comp_def]
      simp only [hdepth, hps, hdrop] at hsystem ⊢
      generalize hnear : (files.filter fun p => (p.length : Int) ≤ limit) = near at hsystem ⊢
      have hnearStands : ∀ below ∈ near, below ≠ [] ∧ t.Stands (w.directory ++ below) :=
        fun below hmem => hstands below (List.mem_of_mem_filter (hnear ▸ hmem))
      have hagrees : Agrees t t (near.map (w.directory ++ ·)) :=
        ⟨rfl, rfl, hlinks, htemporaries, fun _ h => h, fun _ _ => rfl⟩
      obtain ⟨more, hdry⟩ := formatAll_dry hlinks hformed hdirectory
        fun below hmem => (hnearStands below hmem).2
      refine ⟨by rw [hdry], .inr ?_⟩
      rcases formatAll_foretold hlinks hformed hdirectory hagrees hnearStands
        (hnear ▸ hnodup.filter _) with ⟨fault, hreal⟩ | ⟨done, hreal, -, hpaths, hall, hwrote⟩
      · exact absurd (by rw [hreal]; rfl) (hsystem fault)
      · exact ⟨files.length, _, done, by rw [hdry]; rfl, by rw [hreal]; rfl, hall, hpaths, hwrote⟩

def besideTwo : FileTree where
  root := "/home"
  home := ["home"]
  entries :=
    [(["home", "a"], .directory), (["home", "b"], .directory),
      (["home", "x.abap"], .file (Text.toUtf8 "write  a.".toList) .fresh)]

theorem linkless_besideTwo : besideTwo.Linkless :=
  linkless_of_entries (by simp [besideTwo])

theorem noTemporaries_besideTwo : besideTwo.NoTemporaries := by
  have hshort : ∀ e ∈ besideTwo.entries, (e.1.getLast?.getD "").length < 13 := by decide +kernel
  intro e he directory name heq
  have hlength := hshort e he
  rw [heq, List.getLast?_concat, Option.getD_some, String.length_append, length_temporarySuffix]
    at hlength
  omega

theorem wellFormed_besideTwo : besideTwo.WellFormed where
  root := by decide +kernel
  below := by decide +kernel
  names := by decide +kernel

theorem scan_foretold_one :
    besideTwo.Linkless ∧ besideTwo.NoTemporaries ∧ besideTwo.WellFormed ∧
      StaysBelow (.text ".abap") ∧
      ∃ found previews reals,
        (scan besideTwo ⟨["home"], .default⟩ (.text ".abap") true (.int 10)).value =
          .ok ⟨found, previews⟩ ∧
        (scan besideTwo ⟨["home"], .default⟩ (.text ".abap") false (.int 10)).value =
          .ok ⟨found, reals⟩ ∧
        List.Forall₂ Foretells previews reals := by
  have hbelow : StaysBelow (.text ".abap") := by
    rintro es ⟨⟩
    decide +kernel
  have hps : ((readExtensions (.text ".abap")).bind fun es => patterns (bothCases es)) =
      .ok [⟨[.pattern "*.abap".toList], false⟩, ⟨[.pattern "*.ABAP".toList], false⟩] := by
    decide +kernel
  have hfind : besideTwo.find ["home"]
      [⟨[.pattern "*.abap".toList], false⟩, ⟨[.pattern "*.ABAP".toList], false⟩] =
        [["home", "x.abap"]] :=
    find_of_pairwise _ (by decide +kernel) (by decide +kernel) (by decide +kernel)
      (by decide +kernel)
  have hvalue : (scan besideTwo ⟨["home"], .default⟩ (.text ".abap") false
      (.int 10)).value.toOption.isSome = true := by
    simp only [scan, hps, findFiles, hfind]
    decide +kernel
  have hends (fault : WorkspaceFault) :
      (scan besideTwo ⟨["home"], .default⟩ (.text ".abap") false (.int 10)).value ≠
        .error fault := by
    intro heq
    rw [heq] at hvalue
    exact Bool.false_ne_true hvalue
  obtain ⟨-, ⟨fault, -, hfault, -⟩ | ⟨found, previews, done, hdry, hreal, hall, -⟩⟩ :=
    scan_foretold linkless_besideTwo noTemporaries_besideTwo wellFormed_besideTwo
      (by decide +kernel) hbelow (.int 10) fun fault => hends (.file fault)
  · exact absurd hfault (hends fault)
  · exact ⟨linkless_besideTwo, noTemporaries_besideTwo, wellFormed_besideTwo, hbelow, found,
      previews, _, hdry, hreal, hall⟩

/-- A pattern that steps back finds one file by two paths: the scan has already written it when it
comes to the second one, of which the dry run knows nothing. -/
theorem scan_steppingBack :
    besideTwo.Linkless ∧ besideTwo.NoTemporaries ∧ besideTwo.WellFormed ∧
      (scan besideTwo ⟨["home"], .default⟩ (.text "/../x.abap") true (.int 10)).value.toOption.map
        (·.reports.map fun r => (r.path, r.status, r.changed)) =
          some [(some "a/../x.abap", .preview, true), (some "b/../x.abap", .preview, true)] ∧
      (scan besideTwo ⟨["home"], .default⟩ (.text "/../x.abap") false (.int 10)).value.toOption.map
        (·.reports.map fun r => (r.path, r.status, r.changed)) =
          some
            [(some "a/../x.abap", .formatted, true), (some "b/../x.abap", .unchanged, false)] := by
  have hps : ((readExtensions (.text "/../x.abap")).bind fun es => patterns (bothCases es)) =
      .ok [⟨[.pattern "*".toList, .name "..", .name "x.abap"], false⟩,
        ⟨[.pattern "*".toList, .name "..", .name "X.ABAP"], false⟩] := by
    decide +kernel
  have hfind : besideTwo.find ["home"]
      [⟨[.pattern "*".toList, .name "..", .name "x.abap"], false⟩,
        ⟨[.pattern "*".toList, .name "..", .name "X.ABAP"], false⟩] =
        [["home", "a", "..", "x.abap"], ["home", "b", "..", "x.abap"]] :=
    find_of_pairwise _ (by decide +kernel) (by decide +kernel) (by decide +kernel)
      (by decide +kernel)
  refine ⟨linkless_besideTwo, noTemporaries_besideTwo, wellFormed_besideTwo, ?_⟩
  simp only [scan, hps, findFiles, hfind]
  decide +kernel

end Workspace
end AbapLayout
